import AsyncMessenger.Lib.Run
import AsyncMessenger.Numbering

/-!
# References to outgoing messages

The send side of a connection, with the references it holds. `send_message` takes over the reference of
its caller; a queue entry stands for one reference; `_send` takes another one for the entry in `sent`,
unless the policy is lossy, and drops the one it was called with when it returns. While it writes to the
socket the lock is free, and other threads may acknowledge, requeue or discard the very message.

Of the state of the connection only what decides about references is kept: whether a message may be sent
directly depends on more, and is a choice of the event.

## Owners

`Owns` says who owns a reference: an entry of a queue, an entry of `sent`, the call of `_send` that
is under way, or the caller. The invariant is that the count of a message is the number of its
owners, and it is kept because each step hands references from one owner to another, takes a new
one, or drops one. A message whose count has come to zero has no owner left, and is not touched
again.
-/

namespace AsyncMessenger

/-- The send side of a connection. -/
structure SendSide where
  q : SendQueue := {}
  /-- `policy.lossy`. -/
  lossy : Bool := false
  stopping : Bool := false
  /-- `STATE_CLOSED`. -/
  closed : Bool := false
  /-- The message of the thread inside `_send`; `sending` is set while there is one. -/
  inSend : Option Message := none
  /-- The references that the connection holds, by message. -/
  refs : ℕ → ℕ := fun _ ↦ 0
  /-- A reference was dropped that the connection did not hold. -/
  corrupt : Bool := false

namespace SendSide

/-- What happens on the send side. -/
inductive Event
  /-- `send_message`; `direct` says that the state is open and nothing waits to be written. -/
  | sendMessage (m : Message) (direct : Bool)
  /-- `handle_write` takes the next message and calls `_send`. -/
  | handleWrite
  /-- `_send` gets the lock back and returns. -/
  | endSend
  | handleAck (seq : ℕ)
  | requeueSent
  | discardRequeuedUpTo (seq : ℕ)
  /-- `discard_out_queue`, called by `was_session_reset`. -/
  | discardOutQueue
  /-- `_stop`. -/
  | stop
  /-- `mark_down` or `stop` has been called. -/
  | setStopping
  /-- The policy of the connection changes. -/
  | setLossy (lossy : Bool)

/-- A reference is taken: by `Message::get`, or over from a caller. -/
def get (s : SendSide) (m : Message) : SendSide :=
  { s with refs := Function.update s.refs m.id (s.refs m.id + 1) }

/-- `Message::put`. -/
def put (s : SendSide) (m : Message) : SendSide :=
  { s with
    refs := Function.update s.refs m.id (s.refs m.id - 1)
    corrupt := s.corrupt || s.refs m.id == 0 }

/-- `put` in a loop. -/
def putAll (s : SendSide) (ms : List Message) : SendSide := ms.foldl put s

/-- `_send` up to the point where it gives up the lock. -/
def beginSend (s : SendSide) (m : Message) : SendSide :=
  let r := s.q.number s.lossy m
  let s := { s with q := r.2, inSend := some r.1 }
  if s.lossy then s else s.get r.1

/-- `discard_out_queue`. -/
def discardQueues (s : SendSide) : SendSide :=
  ({ s with q := s.q.discardOutQueue } : SendSide).putAll (s.q.sent ++ s.q.outQ.elements)

/-- One step; `none` if it is not possible. -/
def step (s : SendSide) : Event → Option SendSide
  | .sendMessage m direct =>
    let s := s.get m
    if s.stopping then some (s.put m)
    else if direct ∧ s.q.outQ.isEmpty ∧ s.inSend.isNone ∧ s.closed = false then some (s.beginSend m)
    else if s.closed then some (s.put m)
    else some { s with q := s.q.push m }
  | .handleWrite =>
    if s.inSend.isNone then
      s.q.getNextOutgoing.map fun r ↦ ({ s with q := r.2 } : SendSide).beginSend r.1
    else none
  | .endSend => s.inSend.map fun m ↦ ({ s with inSend := none } : SendSide).put m
  | .handleAck seq =>
    some (({ s with q := s.q.handleAck seq } : SendSide).putAll (SendQueue.ackLoop seq s.q.sent).1)
  | .requeueSent => some { s with q := s.q.requeueSent }
  | .discardRequeuedUpTo seq =>
    some (({ s with q := s.q.discardRequeuedUpTo seq } : SendSide).putAll
      (SendQueue.discardLoop seq (s.q.outQ.queueAt prioHighest) s.q.outSeq).1)
  | .discardOutQueue => some s.discardQueues
  | .stop => some (if s.closed then s else { s.discardQueues with closed := true })
  | .setStopping => some { s with stopping := true }
  | .setLossy lossy => some { s with lossy }

/-! ## The invariant -/

/-- A message is this one. -/
def isId (i : ℕ) (m : Message) : Bool := m.id == i

/-- The entries for a message in `out_q` and in `sent`. -/
def entries (s : SendSide) (i : ℕ) : ℕ :=
  s.q.outQ.elements.countP (isId i) + s.q.sent.countP (isId i)

/-- The reference that the thread inside `_send` will drop. -/
def window (s : SendSide) (i : ℕ) : ℕ := s.inSend.toList.countP (isId i)

/-- The references are those of the entries, of the thread inside `_send`, and `extra`. -/
structure Owns (s : SendSide) (extra : ℕ → ℕ) : Prop where
  wf : s.q.outQ.WF
  refs : ∀ i, s.refs i = s.entries i + s.window i + extra i
  sound : s.corrupt = false
  closed : s.closed = true → s.q.outQ = [] ∧ s.q.sent = []

variable {s s' : SendSide} {extra : ℕ → ℕ} {m : Message}

theorem countP_singleton (i : ℕ) (m : Message) : [m].countP (isId i) = if m.id = i then 1 else 0 := by
  simp [isId, List.countP_cons]

theorem refs_get (s : SendSide) (m : Message) (i : ℕ) :
    (s.get m).refs i = s.refs i + [m].countP (isId i) := by
  rw [countP_singleton]
  simp only [SendSide.get, Function.update_apply]
  by_cases hi : i = m.id
  · rw [if_pos hi, if_pos hi.symm, hi]
  · rw [if_neg hi, if_neg fun heq ↦ hi heq.symm, Nat.add_zero]

/-- A reference is taken. -/
theorem Owns.get (h : s.Owns extra) : (s.get m).Owns fun i ↦ extra i + [m].countP (isId i) := by
  refine ⟨h.wf, fun i ↦ ?_, h.sound, h.closed⟩
  have hrefs := h.refs i
  rw [refs_get, hrefs]
  simp only [entries, window, SendSide.get]
  omega

/-- A reference that is held is dropped. -/
theorem Owns.put (h : s.Owns fun i ↦ extra i + [m].countP (isId i)) : (s.put m).Owns extra := by
  have hself := h.refs m.id
  rw [countP_singleton, if_pos rfl] at hself
  refine ⟨h.wf, fun i ↦ ?_, ?_, h.closed⟩
  · have hrefs := h.refs i
    rw [countP_singleton] at hrefs
    simp only [SendSide.put, Function.update_apply, entries, window] at hrefs hself ⊢
    split_ifs with hi
    · rw [hi]
      omega
    · rw [if_neg fun heq ↦ hi heq.symm] at hrefs
      omega
  · have hpos : (s.refs m.id == 0) = false := by
      rw [beq_eq_false_iff_ne]
      omega
    simp [SendSide.put, h.sound, hpos]

theorem Owns.congr {extra' : ℕ → ℕ} (h : s.Owns extra) (heq : ∀ i, extra i = extra' i) : s.Owns extra' :=
  ⟨h.wf, fun i ↦ by rw [h.refs, heq], h.sound, h.closed⟩

theorem Owns.putAll {ms : List Message} (h : s.Owns fun i ↦ extra i + ms.countP (isId i)) :
    (s.putAll ms).Owns extra := by
  induction ms generalizing s with
  | nil => exact h.congr fun i ↦ by simp
  | cons m ms ih =>
    refine ih (Owns.put (m := m) (h.congr fun i ↦ ?_))
    rw [← List.singleton_append, List.countP_append]
    omega

theorem closed_putAll (s : SendSide) (ms : List Message) :
    (s.putAll ms).q = s.q ∧ (s.putAll ms).closed = s.closed := by
  induction ms generalizing s with
  | nil => exact ⟨rfl, rfl⟩
  | cons m ms ih => exact ih (s.put m)

/-- A reference changes into one of `_send`, and the entry in `sent` gets its own. -/
theorem Owns.beginSend (h : s.Owns fun i ↦ [m].countP (isId i)) (hidle : s.inSend = none)
    (hopen : s.closed = false) : (s.beginSend m).Owns fun _ ↦ 0 := by
  have hid (i n : ℕ) : [m.setSeq n].countP (isId i) = [m].countP (isId i) := by
    rw [countP_singleton, countP_singleton]
    rfl
  have hclosed {P : Prop} (hc : s.closed = true) : P := absurd (hopen.symm.trans hc) (by simp)
  rw [SendSide.beginSend]
  dsimp only
  split_ifs with hlossy
  · refine ⟨h.wf, fun i ↦ ?_, h.sound, hclosed⟩
    have hrefs := h.refs i
    simp only [entries, window, hidle, SendQueue.number, hlossy, if_true, Option.toList_none,
      Option.toList_some, List.countP_nil, hid] at hrefs ⊢
    omega
  · refine ⟨h.wf, fun i ↦ ?_, h.sound, hclosed⟩
    have hrefs := h.refs i
    rw [refs_get]
    simp only [entries, window, hidle, SendQueue.number, hlossy, Bool.false_eq_true, if_false,
      Option.toList_none, Option.toList_some, List.countP_nil, List.countP_append, hid,
      SendSide.get] at hrefs ⊢
    omega

/-! ## The operations on the queues

What acknowledging, requeueing and discarding do to the counts, for each message: one less for each
entry that goes. -/

theorem Owns.push (h : s.Owns fun i ↦ [m].countP (isId i)) (hopen : s.closed = false) :
    Owns { s with q := s.q.push m } fun _ ↦ 0 := by
  refine ⟨h.wf.modify (fun l ↦ by simp), fun i ↦ ?_, h.sound, fun hc ↦
    absurd (hopen.symm.trans hc) (by simp)⟩
  have hrefs := h.refs i
  have hcount := PrioMap.countP_elements_modify (f := (· ++ [m])) (k := m.getPriority) h.wf (isId i)
  simp only [entries, window, SendQueue.push, PrioMap.pushBack, List.countP_append] at hrefs hcount ⊢
  omega

theorem Owns.handleAck (h : s.Owns fun _ ↦ 0) (seq : ℕ) :
    Owns { s with q := s.q.handleAck seq } fun i ↦ 0 + (SendQueue.ackLoop seq s.q.sent).1.countP (isId i) := by
  refine ⟨h.wf, fun i ↦ ?_, h.sound, fun hc ↦ ?_⟩
  · have hrefs := h.refs i
    have happend := congrArg (List.countP (isId i)) (SendQueue.ackLoop_append seq s.q.sent)
    simp only [entries, window, SendQueue.handleAck, List.countP_append] at hrefs happend ⊢
    omega
  · obtain ⟨hout, hsent⟩ := h.closed hc
    exact ⟨hout, by simp [SendQueue.handleAck, hsent, SendQueue.ackLoop]⟩

theorem Owns.requeueSent (h : s.Owns fun _ ↦ 0) : Owns { s with q := s.q.requeueSent } fun _ ↦ 0 := by
  rw [SendQueue.requeueSent]
  split_ifs with hempty
  · exact h
  have hloop := SendQueue.requeueLoop_eq s.q.sent.reverse (s.q.outQ.queueAt prioHighest) s.q.outSeq
  rw [List.reverse_reverse] at hloop
  rw [hloop]
  refine ⟨h.wf.modify (fun l ↦ by simp [hempty]), fun i ↦ ?_, h.sound, fun hc ↦
    absurd (h.closed hc).2 hempty⟩
  have hrefs := h.refs i
  have hcount := PrioMap.countP_elements_modify
    (f := fun _ ↦ s.q.sent ++ s.q.outQ.queueAt prioHighest) (k := prioHighest) h.wf (isId i)
  simp only [entries, window, List.countP_append, List.countP_nil] at hrefs hcount ⊢
  omega

theorem discardLoop_append (seq : ℕ) (rq : List Message) (outSeq : ℕ) :
    (SendQueue.discardLoop seq rq outSeq).1 ++ (SendQueue.discardLoop seq rq outSeq).2.1 = rq := by
  induction rq generalizing outSeq with
  | nil => rfl
  | cons m rq ih =>
    rw [SendQueue.discardLoop]
    split_ifs
    · rfl
    · exact congrArg (m :: ·) (ih (outSeq + 1))

theorem Owns.discardRequeuedUpTo (h : s.Owns fun _ ↦ 0) (seq : ℕ) :
    Owns { s with q := s.q.discardRequeuedUpTo seq } fun i ↦ 0 +
      (SendQueue.discardLoop seq (s.q.outQ.queueAt prioHighest) s.q.outSeq).1.countP (isId i) := by
  have happend := discardLoop_append seq (s.q.outQ.queueAt prioHighest) s.q.outSeq
  rw [SendQueue.discardRequeuedUpTo]
  cases hfind : s.q.outQ.find? prioHighest with
  | none =>
    have hnil : s.q.outQ.queueAt prioHighest = [] := by rw [PrioMap.queueAt, hfind]; rfl
    rw [hnil]
    exact h
  | some rq =>
    have hqueue : s.q.outQ.queueAt prioHighest = rq := by rw [PrioMap.queueAt, hfind]; rfl
    rw [hqueue] at happend ⊢
    dsimp only
    generalize SendQueue.discardLoop seq rq s.q.outSeq = r at happend
    have hopen {P : Prop} (hc : s.closed = true) : P := by
      rw [(h.closed hc).1] at hfind
      exact absurd hfind (by simp [PrioMap.find?])
    split_ifs with hrest
    · -- everything was dropped, and the key with it
      refine ⟨h.wf.eraseKey, fun i ↦ ?_, h.sound, hopen⟩
      have hrefs := h.refs i
      have hcount := PrioMap.countP_elements_eraseKey prioHighest s.q.outQ (isId i)
      rw [hqueue, ← happend, hrest, List.append_nil] at hcount
      simp only [entries, window] at hrefs ⊢
      omega
    · refine ⟨h.wf.modify fun _ ↦ hrest, fun i ↦ ?_, h.sound, hopen⟩
      have hrefs := h.refs i
      have hcount := PrioMap.countP_elements_modify (f := fun _ ↦ r.2.1) (k := prioHighest) h.wf (isId i)
      rw [hqueue, ← happend, List.countP_append] at hcount
      simp only [entries, window] at hrefs ⊢
      omega

theorem Owns.discardQueues (h : s.Owns fun _ ↦ 0) : s.discardQueues.Owns fun _ ↦ 0 := by
  refine Owns.putAll ⟨PrioMap.WF.nil, fun i ↦ ?_, h.sound, fun _ ↦ ⟨rfl, rfl⟩⟩
  have hrefs := h.refs i
  simp only [entries, window, SendQueue.discardOutQueue, List.countP_append] at hrefs ⊢
  simp only [PrioMap.elements, List.flatMap_nil, List.countP_nil]
  simp only [PrioMap.elements] at hrefs
  omega

/-! ## Runs -/

theorem Owns.step {e : Event} (h : s.Owns fun _ ↦ 0) (hs' : s.step e = some s') :
    s'.Owns fun _ ↦ 0 := by
  cases e with
  | sendMessage m direct =>
    have hget : (s.get m).Owns fun i ↦ [m].countP (isId i) := (h.get (m := m)).congr fun i ↦ Nat.zero_add _
    have hput : ((s.get m).put m).Owns fun _ ↦ 0 := Owns.put (hget.congr fun i ↦ (Nat.zero_add _).symm)
    rw [SendSide.step] at hs'
    split_ifs at hs' with hstopping hdirect hclosed <;>
      (rw [Option.some_inj] at hs'; subst hs')
    · exact hput
    · exact hget.beginSend (Option.isNone_iff_eq_none.mp hdirect.2.2.1) hdirect.2.2.2
    · exact hput
    · exact hget.push (by simpa using hclosed)
  | handleWrite =>
    rw [SendSide.step, Option.ite_none_right_eq_some, Option.map_eq_some_iff] at hs'
    obtain ⟨hidle, r, hr, rfl⟩ := hs'
    rw [SendQueue.getNextOutgoing, Option.map_eq_some_iff] at hr
    obtain ⟨⟨m, outQ⟩, hpop, rfl⟩ := hr
    -- the queues of a closed connection are empty
    have hopen : s.closed = false := by
      by_contra hc
      rw [(h.closed (by simpa using hc)).1] at hpop
      exact absurd hpop (by simp [PrioMap.popMax])
    have hpopped : Owns { s with q := { s.q with outQ } } fun i ↦ [m].countP (isId i) := by
      refine ⟨(PrioMap.popMax_spec (k := 0) h.wf hpop).1, fun i ↦ ?_, h.sound, fun hc ↦
        absurd (hopen.symm.trans hc) (by simp)⟩
      have hrefs := h.refs i
      have hcount := PrioMap.countP_elements_popMax hpop (isId i)
      simp only [entries, window] at hrefs ⊢
      omega
    exact hpopped.beginSend (Option.isNone_iff_eq_none.mp hidle) hopen
  | endSend =>
    rw [SendSide.step, Option.map_eq_some_iff] at hs'
    obtain ⟨m, hm, rfl⟩ := hs'
    refine Owns.put ⟨h.wf, fun i ↦ ?_, h.sound, h.closed⟩
    have hrefs := h.refs i
    simp only [entries, window, hm, Option.toList_some, Option.toList_none, List.countP_nil] at hrefs ⊢
    omega
  | handleAck seq =>
    rw [SendSide.step, Option.some_inj] at hs'
    exact hs' ▸ (h.handleAck seq).putAll
  | requeueSent =>
    rw [SendSide.step, Option.some_inj] at hs'
    exact hs' ▸ h.requeueSent
  | discardRequeuedUpTo seq =>
    rw [SendSide.step, Option.some_inj] at hs'
    exact hs' ▸ (h.discardRequeuedUpTo seq).putAll
  | discardOutQueue =>
    rw [SendSide.step, Option.some_inj] at hs'
    exact hs' ▸ h.discardQueues
  | stop =>
    rw [SendSide.step, Option.some_inj] at hs'
    split_ifs at hs'
    · exact hs' ▸ h
    · rw [← hs']
      have hq := (closed_putAll { s with q := s.q.discardOutQueue } (s.q.sent ++ s.q.outQ.elements)).1
      refine ⟨h.discardQueues.wf, h.discardQueues.refs, h.discardQueues.sound, fun _ ↦ ?_⟩
      dsimp only
      rw [SendSide.discardQueues, hq]
      exact ⟨rfl, rfl⟩
  | setStopping =>
    rw [SendSide.step, Option.some_inj] at hs'
    exact hs' ▸ ⟨h.wf, h.refs, h.sound, h.closed⟩
  | setLossy lossy =>
    rw [SendSide.step, Option.some_inj] at hs'
    exact hs' ▸ ⟨h.wf, h.refs, h.sound, h.closed⟩

theorem closed_beginSend (s : SendSide) (m : Message) : (s.beginSend m).closed = s.closed := by
  simp only [SendSide.beginSend]
  split_ifs <;> rfl

/-- A closed connection stays closed. -/
theorem closed_step {e : Event} (hc : s.closed = true) (hs' : s.step e = some s') :
    s'.closed = true := by
  cases e with
  | sendMessage m direct =>
    rw [SendSide.step] at hs'
    split_ifs at hs' <;> (rw [Option.some_inj] at hs'; subst hs')
    · exact hc
    · rw [closed_beginSend]
      exact hc
    · exact hc
    · exact hc
  | handleWrite =>
    rw [SendSide.step, Option.ite_none_right_eq_some, Option.map_eq_some_iff] at hs'
    obtain ⟨-, r, -, rfl⟩ := hs'
    rw [closed_beginSend]
    exact hc
  | endSend =>
    rw [SendSide.step, Option.map_eq_some_iff] at hs'
    obtain ⟨m, -, rfl⟩ := hs'
    exact hc
  | handleAck seq =>
    rw [SendSide.step, Option.some_inj] at hs'
    rw [← hs', (closed_putAll ..).2]
    exact hc
  | requeueSent =>
    rw [SendSide.step, Option.some_inj] at hs'
    exact hs' ▸ hc
  | discardRequeuedUpTo seq =>
    rw [SendSide.step, Option.some_inj] at hs'
    rw [← hs', (closed_putAll ..).2]
    exact hc
  | discardOutQueue =>
    rw [SendSide.step, Option.some_inj] at hs'
    rw [← hs', SendSide.discardQueues, (closed_putAll ..).2]
    exact hc
  | stop =>
    rw [SendSide.step, Option.some_inj, if_pos hc] at hs'
    exact hs' ▸ hc
  | setStopping =>
    rw [SendSide.step, Option.some_inj] at hs'
    exact hs' ▸ hc
  | setLossy lossy =>
    rw [SendSide.step, Option.some_inj] at hs'
    exact hs' ▸ hc

/-- **References are conserved.** In every state that a run reaches, no reference has been dropped that
was not held; where no thread is inside `_send` the connection holds one reference for each entry of
`out_q` and `sent` and no other; and once it is closed both queues stay empty. -/
theorem references_conserved {lossy : Bool} {es fs : List Event} {t : SendSide}
    (hrun : Run.exec step { lossy } es = some s) (hmore : Run.exec step s fs = some t) :
    s.corrupt = false ∧ (s.inSend = none → ∀ i, s.refs i = s.entries i) ∧
      (s.closed = true → t.closed = true ∧ t.q.outQ = [] ∧ t.q.sent = []) := by
  have hstart : Owns { lossy } fun _ ↦ 0 :=
    ⟨PrioMap.WF.nil, fun _ ↦ rfl, rfl, fun _ ↦ ⟨rfl, rfl⟩⟩
  have hs := Run.invariant (I := fun s ↦ s.Owns fun _ ↦ 0) (fun _ _ _ h ↦ h.step) hstart hrun
  have ht := Run.invariant (I := fun s ↦ s.Owns fun _ ↦ 0) (fun _ _ _ h ↦ h.step) hs hmore
  refine ⟨hs.sound, fun hidle i ↦ ?_, fun hc ↦ ?_⟩
  · have hrefs := hs.refs i
    simp only [window, hidle, Option.toList_none, List.countP_nil, Nat.add_zero] at hrefs
    exact hrefs
  · have hclosed := Run.invariant (I := fun s ↦ s.closed = true) (fun _ _ _ h ↦ closed_step h) hc hmore
    exact ⟨hclosed, ht.closed hclosed⟩

/-- A message is acknowledged while `_send` still writes it, another one is requeued and discarded by a
stop. -/
theorem references_conserved_in_window :
    ∃ s t, Run.exec step { lossy := false }
        [.sendMessage { id := 1 } true, .handleAck 1, .endSend, .sendMessage { id := 2 } true, .endSend,
          .requeueSent] = some s ∧
      Run.exec step s [.stop, .sendMessage { id := 3 } true] = some t ∧
      (s.corrupt = false ∧ (s.inSend = none → ∀ i, s.refs i = s.entries i) ∧
        (s.closed = true → t.closed = true ∧ t.q.outQ = [] ∧ t.q.sent = [])) ∧
      (s.refs 1, s.refs 2, t.refs 2, t.refs 3) = (0, 1, 0, 0) := by
  obtain ⟨s, hs, t, ht, hvalues⟩ : ∃ s, Run.exec step { lossy := false }
      [.sendMessage { id := 1 } true, .handleAck 1, .endSend, .sendMessage { id := 2 } true, .endSend,
        .requeueSent] = some s ∧ ∃ t, Run.exec step s [.stop, .sendMessage { id := 3 } true] = some t ∧
      (s.refs 1, s.refs 2, t.refs 2, t.refs 3) = (0, 1, 0, 0) := ⟨_, rfl, _, rfl, by decide⟩
  exact ⟨s, t, hs, ht, references_conserved hs ht, hvalues⟩

end SendSide

end AsyncMessenger
