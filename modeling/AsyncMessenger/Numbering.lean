import AsyncMessenger.Lib.Run
import AsyncMessenger.SendQueue

/-!
# The numbers of a session's messages

The send side of a non-lossy connection by itself: messages are queued, numbered and transmitted in
turn, acknowledged, put back when the socket fails, and dropped when the peer reports at the next
handshake what it has received. What the peer can report is zero or the number of a message that
was transmitted.

After a fault the messages to be sent again wait at the front of the queue with the highest priority,
and `out_seq` has gone back to the number before theirs. The numbering rests on their being the
next to be sent. A caller can upset it in two ways: by a priority above the highest, which overtakes
them, and by a message of the highest priority that comes with a number, which looks like one of
them.

## The line

`Numbered` describes the queue of a session by three stretches: the messages sent and not
acknowledged, those requeued, which keep their numbers and are the next to be sent, and those that
are new. The numbers of the first two count up from a base, and `out_seq` stands at the end of the
first. `InTurn` is the condition that keeps what the callers queue behind the requeued ones. It is a
condition on each message as it is handed over, and with it the numbers of a session are those of a
count, without a gap and without a repetition, over any number of faults.
-/

namespace AsyncMessenger

namespace SendQueue

/-- The numbers of the messages go up by one, starting after `s`. -/
def Counts : ℕ → List Message → Prop
  | _, [] => True
  | s, m :: l => m.getSeq = s + 1 ∧ Counts (s + 1) l

theorem counts_append {s : ℕ} {l l' : List Message} :
    Counts s (l ++ l') ↔ Counts s l ∧ Counts (s + l.length) l' := by
  induction l generalizing s with
  | nil => simp [Counts]
  | cons m l ih =>
    rw [List.cons_append, Counts, Counts, ih, List.length_cons, and_assoc,
      show s + 1 + l.length = s + (l.length + 1) by omega]

/-- `handle_ack` drops a prefix. -/
theorem ackLoop_append (seq : ℕ) (sent : List Message) :
    (ackLoop seq sent).1 ++ (ackLoop seq sent).2 = sent := by
  induction sent with
  | nil => rfl
  | cons m sent ih =>
    rw [ackLoop]
    split_ifs
    · rw [List.cons_append, ih]
    · rfl

/-- `requeue_sent` puts the messages back in their order. -/
theorem requeueLoop_eq (back rq : List Message) (outSeq : ℕ) :
    requeueLoop back rq outSeq = (back.reverse ++ rq, outSeq - back.length) := by
  induction back generalizing rq outSeq with
  | nil => rfl
  | cons m back ih =>
    rw [requeueLoop, ih, List.reverse_cons, List.append_assoc, List.singleton_append,
      List.length_cons, Nat.sub_sub, Nat.add_comm 1]

/-- `discard_requeued_up_to` drops a prefix of the messages that have a number, and counts it. -/
theorem discardLoop_spec (seq : ℕ) {numbered fresh : List Message}
    (hnumbered : ∀ m ∈ numbered, m.getSeq ≠ 0) (hfresh : ∀ m ∈ fresh, m.getSeq = 0) (outSeq : ℕ) :
    ∃ gone rest, numbered = gone ++ rest ∧
      discardLoop seq (numbered ++ fresh) outSeq = (gone, rest ++ fresh, outSeq + gone.length) := by
  induction numbered generalizing outSeq with
  | nil =>
    refine ⟨[], [], rfl, ?_⟩
    cases fresh with
    | nil => rfl
    | cons m fresh =>
      rw [List.nil_append, discardLoop, if_pos (Or.inl (hfresh m List.mem_cons_self))]
      rfl
  | cons m numbered ih =>
    rw [List.cons_append, discardLoop]
    split_ifs with hstop
    · exact ⟨[], m :: numbered, rfl, rfl⟩
    · obtain ⟨gone, rest, hsplit, heq⟩ :=
        ih (fun m' hm' ↦ hnumbered m' (List.mem_cons_of_mem m hm')) (outSeq + 1)
      refine ⟨m :: gone, rest, by rw [hsplit, List.cons_append], ?_⟩
      rw [heq, List.length_cons, show outSeq + 1 + gone.length = outSeq + (gone.length + 1) by omega]

theorem ne_zero_of_counts {s : ℕ} {l : List Message} (h : Counts s l) : ∀ m ∈ l, m.getSeq ≠ 0 := by
  induction l generalizing s with
  | nil => simp
  | cons m l ih =>
    intro m' hm'
    rcases List.mem_cons.mp hm' with rfl | hm'
    · rw [h.1]
      omega
    · exact ih h.2 m' hm'

end SendQueue

/-- The send side of a connection. -/
structure Sender where
  q : SendQueue := {}
  /-- The session is open. -/
  connected : Bool := false
  /-- History: the message and the number, for each call of `_send`. -/
  log : List (ℕ × ℕ) := []
  /-- History: what `discard_requeued_up_to` has removed from `out_q`. -/
  discarded : List Message := []

namespace Sender

/-- What happens on the send side. -/
inductive Event
  /-- `send_message`, which sends in the calling thread (`direct`) or queues. -/
  | sendMessage (m : Message) (direct : Bool)
  /-- `handle_write` takes a message from the queue and calls `_send`. -/
  | send
  | handleAck (seq : ℕ)
  /-- `fault`: the socket is gone and `requeue_sent` runs. -/
  | fault
  /-- The handshake of the next connection: the peer reports its `in_seq`. -/
  | discard (seq : ℕ)
  /-- `STATE_OPEN`. -/
  | opens

/-- `_send`. -/
def transmit (s : Sender) (m : Message) : Sender :=
  { s with
    q := (s.q.number false m).2
    log := s.log ++ [((s.q.number false m).1.id, (s.q.number false m).1.getSeq)] }

/-- What an honest peer can report as received: nothing, or the number of a message transmitted. -/
def reportable (s : Sender) (seq : ℕ) : Bool := seq == 0 || s.log.any (·.2 == seq)

/-- One step; `none` if it is not possible. -/
def step (s : Sender) : Event → Option Sender
  | .sendMessage m direct =>
    if direct then if s.connected ∧ s.q.outQ.isEmpty then some (s.transmit m) else none
    else some { s with q := s.q.push m }
  | .send =>
    if s.connected then s.q.getNextOutgoing.map fun r ↦ ({ s with q := r.2 } : Sender).transmit r.1
    else none
  | .handleAck seq =>
    if s.connected ∧ s.reportable seq then some { s with q := s.q.handleAck seq } else none
  | .fault => some { s with q := s.q.requeueSent, connected := false }
  | .discard seq =>
    if !s.connected ∧ s.reportable seq then
      some { s with
        q := s.q.discardRequeuedUpTo seq
        discarded := s.discarded ++
          (SendQueue.discardLoop seq (s.q.outQ.queueAt prioHighest) s.q.outSeq).1 }
    else none
  | .opens => some { s with connected := true }

/-- The two promises: a number belongs to one message, and only what was transmitted is dropped. -/
structure Faithful (s : Sender) : Prop where
  number : ∀ p ∈ s.log, ∀ p' ∈ s.log, p.2 = p'.2 → p.1 = p'.1
  discarded : ∀ m ∈ s.discarded, ∃ seq, (m.id, seq) ∈ s.log

/-- Nothing overtakes the messages that wait to be sent again, nothing looks like one of them, and the
counter does not wrap. -/
def InTurn (s : Sender) : Event → Prop
  | .sendMessage m direct =>
    (direct = false → m.getPriority = prioHighest → m.getSeq = 0) ∧
      (direct = true → s.q.outSeq + 1 < 2 ^ 32)
  | .send =>
    ((∃ m ∈ s.q.outQ.queueAt prioHighest, m.getSeq ≠ 0) → ∀ x ∈ s.q.outQ, x.1 ≤ prioHighest) ∧
      s.q.outSeq + 1 < 2 ^ 32
  | _ => True

/-- The invariant: `requeued` waits to be sent again behind what is in `sent`, in the order of the numbers
from `base` on, with `fresh` behind it. -/
structure Numbered (s : Sender) (base : ℕ) (requeued fresh : List Message) : Prop where
  wf : s.q.outQ.WF
  queue : s.q.outQ.queueAt prioHighest = requeued ++ fresh
  fresh : ∀ m ∈ fresh, m.getSeq = 0
  counts : SendQueue.Counts base (s.q.sent ++ requeued)
  outSeq : s.q.outSeq = base + s.q.sent.length
  idle : s.connected = false → s.q.sent = []
  logged : ∀ m ∈ s.q.sent ++ requeued, (m.id, m.getSeq) ∈ s.log
  bound : ∀ p ∈ s.log, p.2 ≤ s.q.outSeq + requeued.length
  faithful : s.Faithful

/-- `_send` keeps the invariant if the number it gives is the message's own, or a new one. -/
theorem Numbered.transmit {s : Sender} {base : ℕ} {old oldFresh requeued fresh : List Message}
    {m : Message} {outQ : PrioMap Message} (h : s.Numbered base old oldFresh)
    (hconn : s.connected = true) (hwrap : s.q.outSeq + 1 < 2 ^ 32) (hwf : outQ.WF)
    (hqueue : outQ.queueAt prioHighest = requeued ++ fresh) (hfresh : ∀ m ∈ fresh, m.getSeq = 0)
    (hcounts : SendQueue.Counts (s.q.outSeq + 1) requeued)
    (hlogged : ∀ m ∈ requeued, (m.id, m.getSeq) ∈ s.log)
    (hbound : ∀ p ∈ s.log, p.2 ≤ s.q.outSeq + 1 + requeued.length)
    (hnumber : (m.id, s.q.outSeq + 1) ∈ s.log ∨ ∀ p ∈ s.log, p.2 ≤ s.q.outSeq) :
    (({ s with q := { s.q with outQ } } : Sender).transmit m).Numbered base requeued fresh := by
  have hseq : (m.setSeq (s.q.outSeq + 1)).getSeq = s.q.outSeq + 1 := by
    rw [Message.getSeq_setSeq, Nat.mod_eq_of_lt hwrap]
  have hlog : (({ s with q := { s.q with outQ } } : Sender).transmit m).log =
      s.log ++ [(m.id, s.q.outSeq + 1)] := by
    rw [← hseq]
    rfl
  have hsent : (({ s with q := { s.q with outQ } } : Sender).transmit m).q.sent =
      s.q.sent ++ [m.setSeq (s.q.outSeq + 1)] := rfl
  have hold : SendQueue.Counts base s.q.sent := (SendQueue.counts_append.mp h.counts).1
  refine ⟨hwf, hqueue, hfresh, ?_, ?_, fun hno ↦ ?_, fun x hx ↦ ?_, fun p hp ↦ ?_, ?_, fun x hx ↦ ?_⟩
  · rw [hsent, List.append_assoc, SendQueue.counts_append, ← h.outSeq]
    exact ⟨hold, hseq, hcounts⟩
  · rw [hsent, List.length_append, ← Nat.add_assoc, ← h.outSeq]
    rfl
  · exact absurd (hconn.symm.trans hno) (by simp)
  · rw [hlog, List.mem_append]
    rw [hsent, List.append_assoc, List.mem_append, List.mem_append, List.mem_singleton] at hx
    rcases hx with hx | rfl | hx
    · exact Or.inl (h.logged x (List.mem_append_left _ hx))
    · exact Or.inr (by rw [hseq]; exact List.mem_singleton_self _)
    · exact Or.inl (hlogged x hx)
  · rw [hlog, List.mem_append, List.mem_singleton] at hp
    change p.2 ≤ s.q.outSeq + 1 + requeued.length
    rcases hp with hp | rfl
    · exact hbound p hp
    · exact Nat.le_add_right _ _
  · rw [hlog]
    -- a number given twice is the old one, which the message has already
    have hnew (p : ℕ × ℕ) (hp : p ∈ s.log) (heq : p.2 = s.q.outSeq + 1) : p.1 = m.id := by
      rcases hnumber with hin | hall
      · exact h.faithful.number p hp _ hin heq
      · have := hall p hp
        omega
    intro p hp p' hp' heq
    rw [List.mem_append, List.mem_singleton] at hp hp'
    rcases hp with hp | rfl
    · rcases hp' with hp' | rfl
      · exact h.faithful.number p hp p' hp' heq
      · exact hnew p hp heq
    · rcases hp' with hp' | rfl
      · exact (hnew p' hp' heq.symm).symm
      · rfl
  · obtain ⟨seq, hx⟩ := h.faithful.discarded x hx
    exact ⟨seq, by rw [hlog]; exact List.mem_append_left _ hx⟩

/-- `_send` on the first message that waits to be sent again gives it the number it has. -/
theorem Numbered.resend {s : Sender} {base : ℕ} {m : Message} {requeued fresh : List Message}
    {outQ : PrioMap Message} (h : s.Numbered base (m :: requeued) fresh) (hconn : s.connected = true)
    (hwrap : s.q.outSeq + 1 < 2 ^ 32) (hwf : outQ.WF)
    (hqueue : outQ.queueAt prioHighest = requeued ++ fresh) :
    (({ s with q := { s.q with outQ } } : Sender).transmit m).Numbered base requeued fresh := by
  obtain ⟨-, hm, hrest⟩ := SendQueue.counts_append.mp h.counts
  rw [← h.outSeq] at hm hrest
  refine h.transmit hconn hwrap hwf hqueue h.fresh hrest (fun x hx ↦ ?_) (fun p hp ↦ ?_) (Or.inl ?_)
  · exact h.logged x (by simp [hx])
  · have hp' := h.bound p hp
    rw [List.length_cons] at hp'
    omega
  · rw [← hm]
    exact h.logged m (by simp)

/-- With nothing to be sent again, `_send` gives a new number. -/
theorem Numbered.sendFresh {s : Sender} {base : ℕ} {m : Message} {fresh fresh' : List Message}
    {outQ : PrioMap Message} (h : s.Numbered base [] fresh) (hconn : s.connected = true)
    (hwrap : s.q.outSeq + 1 < 2 ^ 32) (hwf : outQ.WF)
    (hqueue : outQ.queueAt prioHighest = fresh') (hfresh : ∀ m ∈ fresh', m.getSeq = 0) :
    (({ s with q := { s.q with outQ } } : Sender).transmit m).Numbered base [] fresh' := by
  refine h.transmit hconn hwrap hwf hqueue hfresh trivial (by simp) (fun p hp ↦ ?_) (Or.inr fun p hp ↦ ?_)
  · have hp' := h.bound p hp
    rw [List.length_nil] at hp' ⊢
    omega
  · exact h.bound p hp

/-- A message is queued. -/
theorem Numbered.push {s : Sender} {base : ℕ} {requeued fresh : List Message} {m : Message}
    (h : s.Numbered base requeued fresh) (hm : m.getPriority = prioHighest → m.getSeq = 0) :
    ∃ fresh', ({ s with q := s.q.push m } : Sender).Numbered base requeued fresh' := by
  have hwf : (s.q.outQ.pushBack m.getPriority m).WF :=
    PrioMap.WF.modify (fun l ↦ by simp) h.wf
  by_cases hprio : m.getPriority = prioHighest
  · have hqueue : (s.q.outQ.pushBack m.getPriority m).queueAt prioHighest =
        requeued ++ (fresh ++ [m]) := by
      rw [hprio, PrioMap.pushBack, PrioMap.queueAt_modify_self h.wf, h.queue, List.append_assoc]
    refine ⟨fresh ++ [m], hwf, hqueue, fun x hx ↦ ?_, h.counts, h.outSeq, h.idle, h.logged, h.bound,
      ⟨h.faithful.number, h.faithful.discarded⟩⟩
    rcases List.mem_append.mp hx with hx | hx
    · exact h.fresh x hx
    · rw [List.mem_singleton] at hx
      rw [hx]
      exact hm hprio
  · have hqueue : (s.q.outQ.pushBack m.getPriority m).queueAt prioHighest = requeued ++ fresh := by
      rw [PrioMap.pushBack, PrioMap.queueAt_modify_of_ne hprio, h.queue]
    exact ⟨fresh, hwf, hqueue, h.fresh, h.counts, h.outSeq, h.idle, h.logged, h.bound,
      ⟨h.faithful.number, h.faithful.discarded⟩⟩

/-- `handle_write` takes the next message. -/
theorem Numbered.send {s : Sender} {base : ℕ} {requeued fresh : List Message} {m : Message}
    {outQ : PrioMap Message} (h : s.Numbered base requeued fresh) (hconn : s.connected = true)
    (hturn : s.InTurn .send) (hpop : s.q.outQ.popMax = some (m, outQ)) :
    ∃ requeued' fresh',
      (({ s with q := { s.q with outQ } } : Sender).transmit m).Numbered base requeued' fresh' := by
  obtain ⟨hkeys, hwrap⟩ := hturn
  obtain ⟨hwf, hcase⟩ := PrioMap.popMax_spec (k := prioHighest) h.wf hpop
  rw [h.queue] at hkeys hcase
  cases requeued with
  | nil =>
    rw [List.nil_append] at hcase
    rcases hcase with heq | ⟨heq, -⟩
    · refine ⟨[], outQ.queueAt prioHighest, h.sendFresh hconn hwrap hwf rfl fun x hx ↦ ?_⟩
      exact h.fresh x (heq ▸ List.mem_cons_of_mem m hx)
    · exact ⟨[], fresh, h.sendFresh hconn hwrap hwf heq h.fresh⟩
  | cons m' requeued =>
    have hm' : m'.getSeq ≠ 0 :=
      SendQueue.ne_zero_of_counts h.counts m' (by simp)
    rcases hcase with heq | ⟨-, hnil⟩
    · rw [List.cons_append, List.cons.injEq] at heq
      obtain ⟨rfl, heq⟩ := heq
      exact ⟨requeued, fresh, h.resend hconn hwrap hwf heq.symm⟩
    · exact absurd (hnil (hkeys ⟨m', by simp, hm'⟩)) (by simp)

/-- `handle_ack` releases the front of `sent`. -/
theorem Numbered.handleAck {s : Sender} {base : ℕ} {requeued fresh : List Message}
    (h : s.Numbered base requeued fresh) (seq : ℕ) :
    ∃ base', ({ s with q := s.q.handleAck seq } : Sender).Numbered base' requeued fresh := by
  have hsplit := SendQueue.ackLoop_append seq s.q.sent
  have hcounts := h.counts
  have houtSeq := h.outSeq
  have hlogged := h.logged
  rw [← hsplit, List.append_assoc, SendQueue.counts_append] at hcounts
  rw [← hsplit, List.length_append] at houtSeq
  rw [← hsplit, List.append_assoc] at hlogged
  refine ⟨base + (SendQueue.ackLoop seq s.q.sent).1.length, h.wf, h.queue, h.fresh, hcounts.2, ?_,
    fun hno ↦ ?_, fun x hx ↦ hlogged x (List.mem_append_right _ hx), h.bound,
    ⟨h.faithful.number, h.faithful.discarded⟩⟩
  · change s.q.outSeq = _ + (SendQueue.ackLoop seq s.q.sent).2.length
    rw [houtSeq, Nat.add_assoc]
  · exact (List.append_eq_nil_iff.mp (hsplit.trans (h.idle hno))).2

/-- `requeue_sent` puts what was sent in front of what waits to be sent again. -/
theorem Numbered.fault {s : Sender} {base : ℕ} {requeued fresh : List Message}
    (h : s.Numbered base requeued fresh) :
    ({ s with q := s.q.requeueSent, connected := false } : Sender).Numbered base
      (s.q.sent ++ requeued) fresh := by
  by_cases hsent : s.q.sent = []
  · have hcounts := h.counts
    have houtSeq := h.outSeq
    have hlogged := h.logged
    rw [hsent] at hcounts houtSeq hlogged
    rw [SendQueue.requeueSent, if_pos hsent, hsent]
    refine ⟨h.wf, h.queue, h.fresh, ?_, ?_, fun _ ↦ hsent, ?_, h.bound,
      ⟨h.faithful.number, h.faithful.discarded⟩⟩
    · rw [hsent]
      exact hcounts
    · rw [hsent]
      exact houtSeq
    · rw [hsent]
      exact hlogged
  · have hloop := SendQueue.requeueLoop_eq s.q.sent.reverse (s.q.outQ.queueAt prioHighest) s.q.outSeq
    rw [List.reverse_reverse, List.length_reverse, h.outSeq, Nat.add_sub_cancel, ← h.outSeq] at hloop
    simp only [SendQueue.requeueSent, if_neg hsent, hloop]
    refine ⟨PrioMap.WF.modify (fun _ ↦ by simp [hsent]) h.wf, ?_, h.fresh, h.counts, rfl, fun _ ↦ rfl,
      h.logged, fun p hp ↦ ?_, ⟨h.faithful.number, h.faithful.discarded⟩⟩
    · rw [PrioMap.queueAt_modify_self h.wf, h.queue, List.append_assoc]
    · have hp' := h.bound p hp
      rw [h.outSeq] at hp'
      change p.2 ≤ base + (s.q.sent ++ requeued).length
      rw [List.length_append]
      omega

/-- `discard_requeued_up_to`, as a change of the queue with the highest priority. -/
theorem discardRequeuedUpTo_eq (q : SendQueue) (seq : ℕ) (hwf : q.outQ.WF) {gone rest : List Message}
    {outSeq : ℕ}
    (hloop : SendQueue.discardLoop seq (q.outQ.queueAt prioHighest) q.outSeq =
      (gone, rest, outSeq)) :
    ∃ outQ released, PrioMap.WF outQ ∧ outQ.queueAt prioHighest = rest ∧
      q.discardRequeuedUpTo seq = { q with outQ, outSeq, released } := by
  rw [SendQueue.discardRequeuedUpTo]
  split
  · rename_i hnone
    rw [PrioMap.queueAt, hnone, Option.getD_none, SendQueue.discardLoop] at hloop
    simp only [Prod.mk.injEq] at hloop
    obtain ⟨-, rfl, rfl⟩ := hloop
    exact ⟨q.outQ, q.released, hwf, by rw [PrioMap.queueAt, hnone, Option.getD_none], rfl⟩
  · rename_i rq hsome
    rw [PrioMap.queueAt, hsome, Option.getD_some] at hloop
    simp only [hloop]
    by_cases hrest : rest = []
    · rw [if_pos hrest]
      refine ⟨_, _, hwf.eraseKey, ?_, rfl⟩
      rw [PrioMap.queueAt_eraseKey hwf, hrest]
    · rw [if_neg hrest]
      refine ⟨_, _, PrioMap.WF.modify (fun _ ↦ hrest) hwf, ?_, rfl⟩
      rw [PrioMap.queueAt_modify_self hwf]

/-- What the peer has received is dropped: messages that were transmitted. -/
theorem Numbered.discard {s : Sender} {base : ℕ} {requeued fresh : List Message}
    (h : s.Numbered base requeued fresh) (hconn : s.connected = false) (seq : ℕ) :
    ∃ base' requeued', ({ s with
      q := s.q.discardRequeuedUpTo seq
      discarded := s.discarded ++
        (SendQueue.discardLoop seq (s.q.outQ.queueAt prioHighest) s.q.outSeq).1 } :
        Sender).Numbered base' requeued' fresh := by
  have hsent := h.idle hconn
  have hcounts := h.counts
  have houtSeq := h.outSeq
  have hlogged := h.logged
  rw [hsent] at hcounts houtSeq hlogged
  rw [List.nil_append] at hcounts hlogged
  obtain ⟨gone, rest, rfl, hloop⟩ := SendQueue.discardLoop_spec seq
    (SendQueue.ne_zero_of_counts hcounts) h.fresh s.q.outSeq
  rw [← h.queue] at hloop
  obtain ⟨outQ, released, hwf, hqueue, heq⟩ := discardRequeuedUpTo_eq s.q seq h.wf hloop
  rw [heq, hloop]
  refine ⟨base + gone.length, rest, hwf, hqueue, h.fresh, ?_, ?_, fun _ ↦ hsent, ?_, fun p hp ↦ ?_,
    h.faithful.number, fun m hm ↦ ?_⟩
  · rw [hsent]
    exact (SendQueue.counts_append.mp hcounts).2
  · rw [hsent, houtSeq]
    rfl
  · rw [hsent]
    exact fun m hm ↦ hlogged m (List.mem_append_right _ hm)
  · have hp' := h.bound p hp
    rw [List.length_append] at hp'
    change p.2 ≤ s.q.outSeq + gone.length + rest.length
    omega
  · rcases List.mem_append.mp hm with hm | hm
    · exact h.faithful.discarded m hm
    · exact ⟨m.getSeq, hlogged m (List.mem_append_left _ hm)⟩

/-- The invariant of a run that keeps to the turn. -/
def Inv (s : Sender) : Prop := ∃ base requeued fresh, s.Numbered base requeued fresh

theorem inv_step {s s' : Sender} {e : Event} (h : s.Inv) (hturn : s.InTurn e)
    (hstep : s.step e = some s') : s'.Inv := by
  obtain ⟨base, requeued, fresh, h⟩ := h
  cases e with
  | sendMessage m direct =>
    rw [step] at hstep
    cases direct with
    | false =>
      rw [if_neg (by simp), Option.some_inj] at hstep
      obtain ⟨fresh', hnew⟩ := h.push (hturn.1 rfl)
      exact ⟨base, requeued, fresh', hstep ▸ hnew⟩
    | true =>
      rw [if_pos rfl, Option.ite_none_right_eq_some, Option.some_inj] at hstep
      obtain ⟨⟨hconn, hempty⟩, rfl⟩ := hstep
      rw [List.isEmpty_iff] at hempty
      have hqueue := h.queue
      rw [hempty] at hqueue
      -- an empty queue has neither messages to repeat nor new ones
      obtain ⟨rfl, rfl⟩ := List.append_eq_nil_iff.mp hqueue.symm
      exact ⟨base, [], [], h.sendFresh hconn (hturn.2 rfl) h.wf h.queue h.fresh⟩
  | send =>
    rw [step, Option.ite_none_right_eq_some] at hstep
    obtain ⟨hconn, hstep⟩ := hstep
    rw [Option.map_eq_some_iff] at hstep
    obtain ⟨r, hnext, rfl⟩ := hstep
    rw [SendQueue.getNextOutgoing, Option.map_eq_some_iff] at hnext
    obtain ⟨⟨m, outQ⟩, hpop, rfl⟩ := hnext
    exact ⟨base, h.send hconn hturn hpop⟩
  | handleAck seq =>
    rw [step, Option.ite_none_right_eq_some, Option.some_inj] at hstep
    obtain ⟨base', hnew⟩ := h.handleAck seq
    exact ⟨base', requeued, fresh, hstep.2 ▸ hnew⟩
  | fault =>
    rw [step, Option.some_inj] at hstep
    exact ⟨base, _, fresh, hstep ▸ h.fault⟩
  | discard seq =>
    rw [step, Option.ite_none_right_eq_some, Option.some_inj] at hstep
    obtain ⟨⟨hconn, -⟩, rfl⟩ := hstep
    obtain ⟨base', requeued', hnew⟩ := h.discard (by simpa using hconn) seq
    exact ⟨base', requeued', fresh, hnew⟩
  | opens =>
    rw [step, Option.some_inj] at hstep
    exact ⟨base, requeued, fresh, hstep ▸ ⟨h.wf, h.queue, h.fresh, h.counts, h.outSeq, by simp,
      h.logged, h.bound, ⟨h.faithful.number, h.faithful.discarded⟩⟩⟩

/-- **Sender numbering.** Whatever the number a session starts after: in every run in which nothing
overtakes the messages that wait to be sent again, no message of the highest priority comes with a
number, and the counter does not wrap, a number belongs to one message, and
`discard_requeued_up_to` drops only what was transmitted. -/
theorem numbers_are_unique {start : ℕ} {s : Sender} {es : List Event}
    (hmeets : Run.Meets step InTurn { q := { outSeq := start } } es)
    (hrun : Run.exec step { q := { outSeq := start } } es = some s) : s.Faithful := by
  have hinit : Inv { q := { outSeq := start } } :=
    ⟨start, [], [], PrioMap.WF.nil, rfl, by simp, trivial, rfl, fun _ ↦ rfl, by simp, by simp,
      by simp, by simp⟩
  obtain ⟨base, requeued, fresh, h⟩ :=
    Run.invariant_of_meets (I := Inv) (fun s e s' h hc hs ↦ inv_step h hc hs) hinit hmeets hrun
  exact h.faithful

/-- `InTurn`, for evaluation. -/
def inTurnTest (s : Sender) : Event → Bool
  | .sendMessage m _ =>
    (m.getPriority != prioHighest || m.getSeq == 0) && decide (s.q.outSeq + 1 < 2 ^ 32)
  | .send => s.q.outQ.all (fun x ↦ decide (x.1 ≤ prioHighest)) && decide (s.q.outSeq + 1 < 2 ^ 32)
  | _ => true

theorem inTurn_of_test {s : Sender} {e : Event} (h : s.inTurnTest e = true) : s.InTurn e := by
  cases e with
  | sendMessage m direct =>
    simp only [inTurnTest, Bool.and_eq_true, Bool.or_eq_true, bne_iff_ne, beq_iff_eq,
      decide_eq_true_iff] at h
    exact ⟨fun _ hprio ↦ h.1.resolve_left fun hne ↦ hne hprio, fun _ ↦ h.2⟩
  | send =>
    simp only [inTurnTest, Bool.and_eq_true, List.all_eq_true, decide_eq_true_iff] at h
    exact ⟨fun _ ↦ h.1, h.2⟩
  | handleAck | fault | discard | opens => trivial

/-- Message 1 is transmitted and the socket fails; message `m` is queued before the next session. -/
def resent (m : Message) : List Event :=
  [.opens, .sendMessage { id := 1, header := { priority := 127 } } false, .send, .fault,
    .sendMessage m false]

/-- An urgent message waits behind the one that is sent again. -/
theorem numbers_are_unique_urgent :
    ∃ s, Run.exec step {} (resent { id := 2, header := { priority := 255 } } ++
        [.discard 0, .opens, .send, .send]) = some s ∧
      s.log = [(1, 1), (1, 1), (2, 2)] ∧ s.Faithful := by
  have hlog : (Run.exec step {} (resent { id := 2, header := { priority := 255 } } ++
      [.discard 0, .opens, .send, .send])).map (·.log) = some [(1, 1), (1, 1), (2, 2)] := by
    decide +kernel
  obtain ⟨s, hrun, hs⟩ := Option.map_eq_some_iff.mp hlog
  have hmeets : Run.Meets step InTurn { q := { outSeq := 0 } }
      (resent { id := 2, header := { priority := 255 } } ++ [.discard 0, .opens, .send, .send]) :=
    Run.Meets.of_check (fun _ _ ↦ inTurn_of_test) (by decide +kernel)
  exact ⟨s, hrun, hs, numbers_are_unique hmeets hrun⟩

/-- Two ways to lose a message: with a priority above the highest it gets the number of the one that is
sent again, which the peer then takes for old; with the highest priority and a number of its own it is
dropped when the peer reports that number, without having been transmitted. -/
theorem overtaking_and_preset_numbers :
    (∃ s, Run.exec step {} (resent { id := 2, header := { priority := 256 } } ++
        [.discard 0, .opens, .send]) = some s ∧ s.log = [(1, 1), (2, 1)] ∧ ¬ s.Faithful) ∧
    ∃ s, Run.exec step {} (resent { id := 2, header := { priority := 255, seq := 1 } } ++
        [.discard 1]) = some s ∧ s.log = [(1, 1)] ∧ s.discarded.map Message.id = [1, 2] ∧
      ¬ s.Faithful := by
  have hover : (Run.exec step {} (resent { id := 2, header := { priority := 256 } } ++
      [.discard 0, .opens, .send])).map (·.log) = some [(1, 1), (2, 1)] := by
    decide +kernel
  have hpreset : (Run.exec step {} (resent { id := 2, header := { priority := 255, seq := 1 } } ++
      [.discard 1])).map (fun s ↦ (s.log, s.discarded.map Message.id)) = some ([(1, 1)], [1, 2]) := by
    decide +kernel
  obtain ⟨s, hrun, hlog⟩ := Option.map_eq_some_iff.mp hover
  obtain ⟨t, hrun', hview⟩ := Option.map_eq_some_iff.mp hpreset
  rw [Prod.mk.injEq] at hview
  refine ⟨⟨s, hrun, hlog, fun h ↦ ?_⟩, t, hrun', hview.1, hview.2, fun h ↦ ?_⟩
  · have hsame := h.number (1, 1) (by simp [hlog]) (2, 1) (by simp [hlog]) rfl
    exact absurd hsame (by decide)
  · obtain ⟨m, hm, hid⟩ : ∃ m ∈ t.discarded, m.id = 2 := by
      have hmem : 2 ∈ t.discarded.map Message.id := by simp [hview.2]
      exact List.mem_map.mp hmem
    obtain ⟨seq, hseq⟩ := h.discarded m hm
    rw [hview.1, hid, List.mem_singleton, Prod.mk.injEq] at hseq
    exact absurd hseq.1 (by decide)

end Sender

end AsyncMessenger
