import AsyncMessenger.Numbering

/-!
# One line of messages

Seen from the history, the send side of a lossless connection is a line of numbered messages with
two marks. What lies before the first mark has been released; from there on the line is kept, in
`sent` up to the second mark, which is `out_seq`, and after it at the front of the queue of the
highest priority, to be sent again.

`_send` moves the second mark by one, and makes the line longer when the mark is at its end;
`requeue_sent` moves it back to the first; `handle_ack` and `discard_requeued_up_to` move the first.
The callers promise that a message has no number when it is queued, and that no priority is above
the highest.

## Stretches

`Sends` describes a queue by the stretch that is to be sent again and by the messages that are new.
Every function is one lemma: what it does to the two stretches, to the marks and to the line.
`InLine` says that there are such stretches, and is what other modules carry along.
-/

namespace AsyncMessenger

namespace SendQueue

theorem getSeq_of_counts {s i : ℕ} {l : List Message} {m : Message} (h : Counts s l)
    (hi : l[i]? = some m) :
    m.getSeq = s + i + 1 := by
  induction l generalizing s i with
  | nil => cases hi
  | cons x l ih =>
    cases i with
    | zero =>
      obtain rfl := Option.some_inj.mp hi
      exact h.1
    | succ i =>
      rw [List.getElem?_cons_succ] at hi
      rw [ih h.2 hi]
      omega

/-- What is released, kept and requeued. -/
structure Sends (q : SendQueue) (requeued fresh : List Message) : Prop where
  wf : q.outQ.WF
  queue : q.outQ.queueAt prioHighest = requeued ++ fresh
  fresh : ∀ m ∈ fresh, m.getSeq = 0
  urgent : ∀ k, prioHighest < k → q.outQ.queueAt k = []
  others : ∀ k, k ≠ prioHighest → ∀ m ∈ q.outQ.queueAt k, m.getSeq = 0
  line : q.numbered = q.released ++ (q.sent ++ requeued)
  counts : Counts 0 q.numbered
  small : ∀ m ∈ q.numbered, m.header.seq < 2 ^ 32
  outSeq : q.outSeq = q.released.length + q.sent.length

/-- The send side of a lossless connection in order. -/
def InLine (q : SendQueue) : Prop := ∃ requeued fresh, q.Sends requeued fresh

variable {q q' : SendQueue} {requeued fresh : List Message} {m : Message}

theorem inLine_start : ({} : SendQueue).InLine :=
  ⟨[], [], PrioMap.WF.nil, rfl, by simp, fun _ _ ↦ rfl, by simp [PrioMap.queueAt, PrioMap.find?], rfl, trivial,
    by simp, rfl⟩

theorem Sends.outSeq_le (h : q.Sends requeued fresh) : q.outSeq ≤ q.numbered.length := by
  rw [h.outSeq, h.line, List.length_append, List.length_append]
  omega

/-! ## Queueing -/

/-- `send_message` leaves the line alone. -/
theorem Sends.push (h : q.Sends requeued fresh) (hseq : m.getSeq = 0)
    (hprio : m.getPriority ≤ prioHighest) :
    (q.push m).InLine := by
  have hself : (q.push m).outQ.queueAt m.getPriority = q.outQ.queueAt m.getPriority ++ [m] :=
    PrioMap.queueAt_modify_self h.wf
  have hne {k : ℕ} (hk : m.getPriority ≠ k) : (q.push m).outQ.queueAt k = q.outQ.queueAt k :=
    PrioMap.queueAt_modify_of_ne hk
  have hwf : (q.push m).outQ.WF := PrioMap.WF.modify (fun l ↦ by simp) h.wf
  have hurgent (k : ℕ) (hk : prioHighest < k) : (q.push m).outQ.queueAt k = [] := by
    rw [hne (Nat.ne_of_lt (Nat.lt_of_le_of_lt hprio hk)), h.urgent k hk]
  by_cases heq : m.getPriority = prioHighest
  · rw [heq] at hself
    refine ⟨requeued, fresh ++ [m], hwf, by rw [hself, h.queue, List.append_assoc], fun x hx ↦ ?_, hurgent,
      fun k hk ↦ ?_, h.line, h.counts, h.small, h.outSeq⟩
    · rcases List.mem_append.mp hx with hx | hx
      · exact h.fresh x hx
      · rw [List.mem_singleton.mp hx, hseq]
    · rw [hne (heq.trans_ne (Ne.symm hk))]
      exact h.others k hk
  · refine ⟨requeued, fresh, hwf, by rw [hne heq, h.queue], h.fresh, hurgent, fun k hk x hx ↦ ?_, h.line,
      h.counts, h.small, h.outSeq⟩
    by_cases hkm : m.getPriority = k
    · rw [← hkm, hself, List.mem_append, List.mem_singleton] at hx
      rcases hx with hx | rfl
      · exact h.others k hk x (hkm ▸ hx)
      · exact hseq
    · rw [hne hkm] at hx
      exact h.others k hk x hx

/-! ## Sending -/

/-- What is taken from the queues was the oldest message of some priority. -/
theorem exists_queueAt_of_popMax {p p' : PrioMap Message} (hwf : p.WF) (hpop : p.popMax = some (m, p')) :
    ∃ k, p.queueAt k = m :: p'.queueAt k := by
  cases p with
  | nil => exact absurd hpop (by simp [PrioMap.popMax])
  | cons x p =>
    obtain ⟨j, l⟩ := x
    refine ⟨j, (PrioMap.popMax_spec hwf hpop).2.resolve_right fun hright ↦ ?_⟩
    have hempty := hright.2 fun y hy ↦ by
      rcases List.mem_cons.mp hy with rfl | hy
      · exact le_rfl
      · exact Nat.le_of_lt ((List.pairwise_cons.mp hwf.sorted).1 y hy)
    rw [PrioMap.queueAt_cons_self] at hempty
    exact hwf.nonempty (j, l) List.mem_cons_self hempty

theorem queueAt_of_popMax {p p' : PrioMap Message} (hwf : p.WF) (hpop : p.popMax = some (m, p'))
    (k : ℕ) :
    ∀ x ∈ p'.queueAt k, x ∈ p.queueAt k := by
  intro x hx
  rcases (PrioMap.popMax_spec (k := k) hwf hpop).2 with heq | ⟨heq, -⟩
  · exact heq ▸ List.mem_cons_of_mem m hx
  · exact heq ▸ hx

/-- With messages to be sent again, the first of them is taken. -/
theorem Sends.popMax_requeued {p : PrioMap Message} {x : Message} (h : q.Sends (x :: requeued) fresh)
    (hpop : q.outQ.popMax = some (m, p)) : m = x ∧ p.queueAt prioHighest = requeued ++ fresh := by
  have hkeys : ∀ y ∈ q.outQ, y.1 ≤ prioHighest := by
    intro y hy
    by_contra hlt
    have hempty := h.urgent y.1 (Nat.lt_of_not_le hlt)
    rw [h.wf.queueAt_of_mem hy] at hempty
    exact h.wf.nonempty y hy hempty
  rcases (PrioMap.popMax_spec (k := prioHighest) h.wf hpop).2 with heq | ⟨-, hnil⟩
  · rw [h.queue, List.cons_append, List.cons.injEq] at heq
    exact ⟨heq.1.symm, heq.2.symm⟩
  · exact absurd (h.queue.symm.trans (hnil hkeys)) (by simp)

/-- What `_get_next_outgoing` and `_send` do together, on a lossless channel. -/
def transmit (q : SendQueue) : Option (Message × SendQueue) :=
  q.getNextOutgoing.map fun r ↦ r.2.number false r.1

/-- `_send` takes the line one message further: the message at the second mark, which the line gets
if it ends there. -/
theorem Sends.transmit (h : q.Sends requeued fresh) (hwrap : q.outSeq + 1 < 2 ^ 32)
    (hsend : q.transmit = some (m, q')) :
    q'.InLine ∧ q.numbered <+: q'.numbered ∧ q'.numbered[q.outSeq]? = some m ∧
      q'.outSeq = q.outSeq + 1 ∧ q'.released = q.released := by
  rw [SendQueue.transmit, Option.map_eq_some_iff] at hsend
  obtain ⟨⟨x, p⟩, hnext, hnumber⟩ := hsend
  rw [getNextOutgoing, Option.map_eq_some_iff] at hnext
  obtain ⟨⟨y, outQ⟩, hpop, hxy⟩ := hnext
  rw [Prod.mk.injEq] at hxy
  obtain ⟨rfl, rfl⟩ := hxy
  have hwf := (PrioMap.popMax_spec (k := prioHighest) h.wf hpop).1
  have hsub := queueAt_of_popMax h.wf hpop
  have hurgent (k : ℕ) (hk : prioHighest < k) : outQ.queueAt k = [] :=
    List.eq_nil_iff_forall_not_mem.mpr fun z hz ↦ by
      have hmem := hsub k z hz
      rw [h.urgent k hk] at hmem
      cases hmem
  have hothers (k : ℕ) (hk : k ≠ prioHighest) (z : Message) (hz : z ∈ outQ.queueAt k) : z.getSeq = 0 :=
    h.others k hk z (hsub k z hz)
  have hline := h.line
  have hcounts := h.counts
  cases requeued with
  | cons z requeued =>
    -- the message has its number already
    obtain ⟨rfl, hqueue⟩ := h.popMax_requeued hpop
    have hat : q.numbered[q.outSeq]? = some y := by
      rw [hline, h.outSeq, ← List.append_assoc, ← List.length_append, List.getElem?_append_right le_rfl,
        Nat.sub_self, List.getElem?_cons_zero]
    have hmem := List.mem_of_getElem? hat
    have hseq : y.header.seq = q.outSeq + 1 := by
      have hget := getSeq_of_counts hcounts hat
      rw [Message.getSeq, Nat.mod_eq_of_lt (h.small y hmem)] at hget
      omega
    have hzero : y.getSeq ≠ 0 := by
      rw [getSeq_of_counts hcounts hat]
      omega
    rw [number, if_neg hzero, Message.setSeq_eq_self hwrap hseq, Prod.mk.injEq] at hnumber
    obtain ⟨rfl, rfl⟩ := hnumber
    refine ⟨⟨requeued, fresh, hwf, hqueue, h.fresh, hurgent, hothers, ?_, hcounts, h.small, ?_⟩,
      List.prefix_rfl, hat, rfl, rfl⟩
    · rw [hline]
      simp
    · simp [h.outSeq, Nat.add_assoc]
  | nil =>
    rw [List.append_nil] at hline
    have hlen : q.numbered.length = q.outSeq := by
      rw [hline, h.outSeq, List.length_append]
    -- the message comes from a queue where none has a number
    have hzero : y.getSeq = 0 := by
      obtain ⟨k, hk⟩ := exists_queueAt_of_popMax h.wf hpop
      by_cases heq : k = prioHighest
      · rw [heq, h.queue, List.nil_append] at hk
        exact h.fresh y (hk ▸ List.mem_cons_self)
      · exact h.others k heq y (hk ▸ List.mem_cons_self)
    rw [number, if_pos hzero, Prod.mk.injEq] at hnumber
    obtain ⟨rfl, rfl⟩ := hnumber
    have hget : (y.setSeq (q.outSeq + 1)).getSeq = q.outSeq + 1 := by
      rw [Message.getSeq_setSeq, Nat.mod_eq_of_lt hwrap]
    refine ⟨⟨[], outQ.queueAt prioHighest, hwf, (List.nil_append _).symm, fun z hz ↦ ?_, hurgent, hothers, ?_,
      ?_, fun z hz ↦ ?_, ?_⟩, List.prefix_append _ _, ?_, rfl, rfl⟩
    · have hmem := hsub prioHighest z hz
      rw [h.queue, List.nil_append] at hmem
      exact h.fresh z hmem
    · dsimp only
      rw [hline]
      simp
    · exact counts_append.mpr ⟨hcounts, by rw [Nat.zero_add, hlen]; exact ⟨hget, trivial⟩⟩
    · rcases List.mem_append.mp hz with hz | hz
      · exact h.small z hz
      · rw [List.mem_singleton.mp hz]
        exact Nat.mod_lt _ (by decide)
    · simp [h.outSeq, Nat.add_assoc]
    · dsimp only
      rw [← hlen, List.getElem?_append_right le_rfl, Nat.sub_self, List.getElem?_cons_zero]

/-! ## Releasing -/

theorem length_le_of_counts {s n : ℕ} {l : List Message} (h : Counts s l) (hle : ∀ m ∈ l, m.getSeq ≤ n) :
    s + l.length ≤ max s n := by
  rcases List.eq_nil_or_concat l with rfl | ⟨init, x, rfl⟩
  · exact le_max_left s n
  · rw [List.concat_eq_append] at h hle ⊢
    obtain ⟨-, hlast, -⟩ := counts_append.mp h
    have hx := hle x (by simp)
    rw [List.length_append, List.length_singleton]
    omega

theorem ackLoop_le (seq : ℕ) (sent : List Message) : ∀ m ∈ (ackLoop seq sent).1, m.getSeq ≤ seq := by
  induction sent with
  | nil => exact fun _ hm ↦ absurd hm List.not_mem_nil
  | cons x sent ih =>
    rw [ackLoop]
    split_ifs with hx
    · intro m hm
      rcases List.mem_cons.mp hm with rfl | hm
      · exact hx
      · exact ih m hm
    · exact fun _ hm ↦ absurd hm List.not_mem_nil

theorem discardLoop_le (seq : ℕ) (rq : List Message) (outSeq : ℕ) :
    ∀ m ∈ (discardLoop seq rq outSeq).1, m.getSeq ≤ seq := by
  induction rq generalizing outSeq with
  | nil => exact fun _ hm ↦ absurd hm List.not_mem_nil
  | cons x rq ih =>
    rw [discardLoop]
    split_ifs with hx
    · exact fun _ hm ↦ absurd hm List.not_mem_nil
    · intro m hm
      rcases List.mem_cons.mp hm with rfl | hm
      · exact Nat.le_of_not_lt (not_or.mp hx).2
      · exact ih (outSeq + 1) m hm

/-- `handle_ack` moves the first mark, not further than it is told. -/
theorem Sends.handleAck (h : q.Sends requeued fresh) (seq : ℕ) :
    (q.handleAck seq).Sends requeued fresh ∧
      (q.handleAck seq).released.length ≤ max q.released.length seq := by
  have hsplit := ackLoop_append seq q.sent
  have hline := h.line
  rw [← hsplit, List.append_assoc, ← List.append_assoc] at hline
  have hcounts := h.counts
  rw [hline, counts_append, counts_append, Nat.zero_add] at hcounts
  refine ⟨⟨h.wf, h.queue, h.fresh, h.urgent, h.others, hline, h.counts, h.small, ?_⟩, ?_⟩
  · have hlen := congrArg List.length hsplit
    have houtSeq := h.outSeq
    rw [List.length_append] at hlen
    change q.outSeq = (q.released ++ (ackLoop seq q.sent).1).length + (ackLoop seq q.sent).2.length
    rw [List.length_append]
    omega
  · change (q.released ++ (ackLoop seq q.sent).1).length ≤ _
    rw [List.length_append]
    exact length_le_of_counts hcounts.1.2 (ackLoop_le seq q.sent)

/-- `requeue_sent` moves the second mark back to the first. -/
theorem Sends.requeueSent (h : q.Sends requeued fresh) :
    q.requeueSent.Sends (q.sent ++ requeued) fresh ∧ q.requeueSent.sent = [] ∧
      q.requeueSent.numbered = q.numbered ∧ q.requeueSent.released = q.released := by
  have houtSeq := h.outSeq
  by_cases hsent : q.sent = []
  · rw [SendQueue.requeueSent, if_pos hsent, hsent]
    exact ⟨h, rfl, rfl, rfl⟩
  · have hloop := requeueLoop_eq q.sent.reverse (q.outQ.queueAt prioHighest) q.outSeq
    rw [List.reverse_reverse, List.length_reverse, houtSeq, Nat.add_sub_cancel, ← houtSeq] at hloop
    have heq : q.requeueSent = { q with
        sent := []
        outQ := q.outQ.modify (fun _ ↦ q.sent ++ q.outQ.queueAt prioHighest) prioHighest
        outSeq := q.released.length } := by
      rw [SendQueue.requeueSent, if_neg hsent]
      dsimp only
      rw [hloop]
    rw [heq]
    refine ⟨⟨PrioMap.WF.modify (fun _ ↦ by simp [hsent]) h.wf, ?_, h.fresh, fun k hk ↦ ?_, fun k hk ↦ ?_,
      h.line, h.counts, h.small, rfl⟩, rfl, rfl, rfl⟩
    · rw [PrioMap.queueAt_modify_self h.wf, h.queue, List.append_assoc]
    · rw [PrioMap.queueAt_modify_of_ne (Nat.ne_of_lt hk)]
      exact h.urgent k hk
    · rw [PrioMap.queueAt_modify_of_ne (Ne.symm hk)]
      exact h.others k hk

/-- `discard_requeued_up_to` moves both marks, not further than it is told. -/
theorem Sends.discardRequeuedUpTo (h : q.Sends requeued fresh) (hsent : q.sent = []) (seq : ℕ) :
    (q.discardRequeuedUpTo seq).InLine ∧ (q.discardRequeuedUpTo seq).sent = [] ∧
      (q.discardRequeuedUpTo seq).numbered = q.numbered ∧
      (q.discardRequeuedUpTo seq).released.length ≤ max q.released.length seq := by
  have hline := h.line
  have hcounts := h.counts
  have houtSeq := h.outSeq
  rw [hsent, List.nil_append] at hline
  rw [hline, counts_append, Nat.zero_add] at hcounts
  rw [hsent, List.length_nil, Nat.add_zero] at houtSeq
  obtain ⟨gone, rest, rfl, hloop⟩ :=
    discardLoop_spec seq (ne_zero_of_counts hcounts.2) h.fresh q.outSeq
  have hle := discardLoop_le seq (q.outQ.queueAt prioHighest) q.outSeq
  rw [← h.queue] at hloop
  rw [hloop] at hle
  rw [← List.append_assoc] at hline
  have hbound : (q.released ++ gone).length ≤ max q.released.length seq := by
    rw [List.length_append]
    exact length_le_of_counts (counts_append.mp hcounts.2).1 hle
  rw [SendQueue.discardRequeuedUpTo]
  cases hfind : q.outQ.find? prioHighest with
  | none =>
    exact ⟨⟨gone ++ rest, fresh, h⟩, hsent, rfl, le_max_left _ _⟩
  | some rq =>
    have hrq : q.outQ.queueAt prioHighest = rq := by
      rw [PrioMap.queueAt, hfind, Option.getD_some]
    rw [hrq] at hloop
    dsimp only
    rw [hloop]
    dsimp only
    -- an emptied queue is erased, and any other put back
    by_cases hrest : rest ++ fresh = []
    · rw [if_pos hrest]
      have hqueue (k : ℕ) (hk : k ≠ prioHighest) :
          (q.outQ.eraseKey prioHighest).queueAt k = q.outQ.queueAt k := PrioMap.queueAt_eraseKey_of_ne (Ne.symm hk)
      refine ⟨⟨rest, fresh, h.wf.eraseKey, ?_, h.fresh, fun k hk ↦ ?_, fun k hk ↦ ?_, ?_, h.counts, h.small,
        ?_⟩, hsent, rfl, hbound⟩
      · rw [hrest, PrioMap.queueAt_eraseKey h.wf]
      · rw [hqueue k (Nat.ne_of_gt hk)]
        exact h.urgent k hk
      · rw [hqueue k hk]
        exact h.others k hk
      · dsimp only
        rw [hsent, List.nil_append]
        exact hline
      · dsimp only
        rw [hsent, List.length_nil, List.length_append, houtSeq, Nat.add_zero]
    · rw [if_neg hrest]
      refine ⟨⟨rest, fresh, PrioMap.WF.modify (fun _ ↦ hrest) h.wf, ?_, h.fresh, fun k hk ↦ ?_, fun k hk ↦ ?_,
        ?_, h.counts, h.small, ?_⟩, hsent, rfl, hbound⟩
      · rw [PrioMap.queueAt_modify_self h.wf]
      · rw [PrioMap.queueAt_modify_of_ne (Nat.ne_of_lt hk)]
        exact h.urgent k hk
      · rw [PrioMap.queueAt_modify_of_ne (Ne.symm hk)]
        exact h.others k hk
      · dsimp only
        rw [hsent, List.nil_append]
        exact hline
      · dsimp only
        rw [hsent, List.length_nil, List.length_append, houtSeq, Nat.add_zero]

end SendQueue

end AsyncMessenger
