import AsyncMessenger.Lib.Progress
import Mathlib.Data.List.Basic
import Mathlib.Data.Nat.Init

/-!
# A throttle for operations

`SimpleThrottle` lets a bounded number of operations run at a time, remembers the first error one of
them ends with, and lets threads wait until none is running. All sleepers share one condition
variable, and `end_op` wakes them all.

Threads are alike, so only their numbers are kept: how many are about to look at the count in
`start_op`, sleep there, run their operation, and the same for `wait_for_ret`. Since a `Signal`
wakes everybody, no thread needs a name.

`Inv` says that the count is right and within the bound, that the error is the first one that
counts, and that nobody sleeps in vain: in `start_op` only while the throttle is full, in
`wait_for_ret` only while an operation runs. That all of them get through is proved with a measure
(`work`): as long as somebody is inside, one of the threads has a move that makes it smaller.
-/

namespace AsyncMessenger

/-- `SimpleThrottle`, with the threads that use it. -/
structure SimpleThrottle where
  /-- `m_max`. -/
  max : ℕ
  ignoreEnoent : Bool := false
  /-- `m_current`. -/
  current : ℕ := 0
  /-- `m_ret`. -/
  ret : ℤ := 0
  /-- The threads in `start_op`: those that look at the count next, and those that sleep. -/
  starting : ℕ := 0
  asleep : ℕ := 0
  /-- The threads that run an operation. -/
  running : ℕ := 0
  /-- The threads in `wait_for_ret`. -/
  waiting : ℕ := 0
  waitAsleep : ℕ := 0
  /-- History: what the operations have ended with, -/
  results : List ℤ := []
  /-- and what `wait_for_ret` has returned, each with the number of operations that had ended. -/
  returned : List (ℕ × ℤ) := []

namespace SimpleThrottle

/-- `-ENOENT`. -/
def enoent : ℤ := -2

/-- What happens. -/
inductive Event
  /-- `start_op` is called. -/
  | start
  /-- A thread in `start_op` looks at the count. -/
  | look
  /-- `end_op`. -/
  | finish (r : ℤ)
  /-- `wait_for_ret` is called. -/
  | wait
  /-- A thread in `wait_for_ret` looks at the count. -/
  | check
  /-- A thread wakes up without a signal. -/
  | wake
  | wakeWait

/-- A result that `end_op` remembers. -/
def isError (ignoreEnoent : Bool) (r : ℤ) : Bool := decide (r < 0) && !(r == enoent && ignoreEnoent)

variable (s : SimpleThrottle)

/-- `end_op`, with its `Signal`. -/
def endOp (r : ℤ) : SimpleThrottle :=
  { s with
    current := s.current - 1
    ret := if s.ret = 0 ∧ isError s.ignoreEnoent r then r else s.ret
    starting := s.starting + s.asleep
    asleep := 0
    running := s.running - 1
    waiting := s.waiting + s.waitAsleep
    waitAsleep := 0
    results := s.results ++ [r] }

/-- `pending_error`. -/
def pendingError : Bool := decide (s.ret < 0)

/-- One step; `none` if it is not possible. -/
def step : Event → Option SimpleThrottle
  | .start => some { s with starting := s.starting + 1 }
  | .look =>
    if s.starting = 0 then none
    else if s.max = s.current then some { s with starting := s.starting - 1, asleep := s.asleep + 1 }
    else some { s with starting := s.starting - 1, current := s.current + 1, running := s.running + 1 }
  | .finish r => if s.running = 0 then none else some (s.endOp r)
  | .wait => some { s with waiting := s.waiting + 1 }
  | .check =>
    if s.waiting = 0 then none
    else if 0 < s.current then some { s with waiting := s.waiting - 1, waitAsleep := s.waitAsleep + 1 }
    else some { s with waiting := s.waiting - 1, returned := s.returned ++ [(s.results.length, s.ret)] }
  | .wake => if s.asleep = 0 then none else some { s with asleep := s.asleep - 1, starting := s.starting + 1 }
  | .wakeWait =>
    if s.waitAsleep = 0 then none else some { s with waitAsleep := s.waitAsleep - 1, waiting := s.waiting + 1 }

/-- The first error among results, as far as it counts, and 0 if there is none. -/
def firstError (ignoreEnoent : Bool) (results : List ℤ) : ℤ :=
  (results.find? (isError ignoreEnoent)).getD 0

theorem firstError_append (ignoreEnoent : Bool) (results : List ℤ) (r : ℤ) :
    firstError ignoreEnoent (results ++ [r]) =
      if firstError ignoreEnoent results = 0 ∧ isError ignoreEnoent r = true then r
      else firstError ignoreEnoent results := by
  rw [firstError, firstError, List.find?_append]
  cases hfind : results.find? (isError ignoreEnoent) with
  | none =>
    rw [Option.none_or, Option.getD_none]
    split_ifs with hr
    · rw [List.find?_cons_of_pos hr.2, Option.getD_some]
    · rw [List.find?_cons_of_neg fun h ↦ hr ⟨rfl, h⟩, List.find?_nil, Option.getD_none]
  | some e =>
    -- an error is not 0, so the later results do not count
    have he := List.find?_some hfind
    have hne : e ≠ 0 := by
      rintro rfl
      simp [isError] at he
    rw [Option.some_or, Option.getD_some, if_neg fun h ↦ hne h.1]

theorem firstError_neg_iff (ignoreEnoent : Bool) (results : List ℤ) :
    firstError ignoreEnoent results < 0 ↔ ∃ r ∈ results, isError ignoreEnoent r = true := by
  rw [firstError]
  cases hfind : results.find? (isError ignoreEnoent) with
  | none =>
    refine iff_of_false (by simp) ?_
    rintro ⟨r, hr, herror⟩
    exact List.find?_eq_none.mp hfind r hr herror
  | some e =>
    have he := List.find?_some hfind
    refine iff_of_true ?_ ⟨e, List.mem_of_find?_eq_some hfind, he⟩
    rw [isError, Bool.and_eq_true, decide_eq_true_iff] at he
    exact he.1

/-- The count is right and within the bound, the error is the first one, and nobody sleeps in
vain. -/
structure Inv (s : SimpleThrottle) : Prop where
  current : s.current = s.running
  le_max : s.running ≤ s.max
  ret : s.ret = firstError s.ignoreEnoent s.results
  asleep : 0 < s.asleep → s.running = s.max
  waitAsleep : 0 < s.waitAsleep → 0 < s.running
  returned : ∀ x ∈ s.returned, x.1 ≤ s.results.length ∧ x.2 = firstError s.ignoreEnoent (s.results.take x.1)

variable {s} {s' : SimpleThrottle}

theorem inv_start (max : ℕ) (ignoreEnoent : Bool) : Inv { max, ignoreEnoent } :=
  ⟨rfl, Nat.zero_le _, rfl, nofun, nofun, nofun⟩

theorem Inv.endOp (h : s.Inv) (r : ℤ) : (s.endOp r).Inv := by
  have hle := h.le_max
  refine ⟨?_, ?_, ?_, nofun, nofun, fun x hx ↦ ?_⟩
  · change s.current - 1 = s.running - 1
    rw [h.current]
  · change s.running - 1 ≤ s.max
    omega
  · change (if s.ret = 0 ∧ isError s.ignoreEnoent r then r else s.ret) =
      firstError s.ignoreEnoent (s.results ++ [r])
    rw [firstError_append, ← h.ret]
  · obtain ⟨hlen, heq⟩ := h.returned x hx
    change x.1 ≤ (s.results ++ [r]).length ∧ x.2 = firstError s.ignoreEnoent ((s.results ++ [r]).take x.1)
    rw [List.length_append, List.take_append_of_le_length hlen]
    exact ⟨Nat.le_add_right_of_le hlen, heq⟩

theorem inv_step {e : Event} (h : s.Inv) (hstep : s.step e = some s') : s'.Inv := by
  have hcurrent := h.current
  have hle := h.le_max
  cases e with
  | start =>
    obtain rfl := Option.some_inj.mp hstep
    exact ⟨h.current, h.le_max, h.ret, h.asleep, h.waitAsleep, h.returned⟩
  | look =>
    rw [step] at hstep
    split_ifs at hstep with hnone hfull
    · obtain rfl := Option.some_inj.mp hstep
      exact ⟨h.current, h.le_max, h.ret, fun _ ↦ (hfull.trans hcurrent).symm, h.waitAsleep, h.returned⟩
    · obtain rfl := Option.some_inj.mp hstep
      refine ⟨congrArg (· + 1) hcurrent, ?_, h.ret, fun hasleep ↦ ?_, fun _ ↦ Nat.succ_pos _, h.returned⟩
      · change s.running + 1 ≤ s.max
        omega
      · -- somebody sleeps only if the throttle is full
        exact absurd (hcurrent.trans (h.asleep hasleep)).symm hfull
  | finish r =>
    rw [step] at hstep
    split_ifs at hstep with hnone
    obtain rfl := Option.some_inj.mp hstep
    exact h.endOp r
  | wait =>
    obtain rfl := Option.some_inj.mp hstep
    exact ⟨h.current, h.le_max, h.ret, h.asleep, h.waitAsleep, h.returned⟩
  | check =>
    rw [step] at hstep
    split_ifs at hstep with hnone hbusy
    · obtain rfl := Option.some_inj.mp hstep
      exact ⟨h.current, h.le_max, h.ret, h.asleep, fun _ ↦ hcurrent ▸ hbusy, h.returned⟩
    · obtain rfl := Option.some_inj.mp hstep
      refine ⟨h.current, h.le_max, h.ret, h.asleep, h.waitAsleep, fun x hx ↦ ?_⟩
      rcases List.mem_append.mp hx with hx | hx
      · exact h.returned x hx
      · rw [List.mem_singleton.mp hx]
        refine ⟨le_rfl, ?_⟩
        change s.ret = firstError s.ignoreEnoent (s.results.take s.results.length)
        rw [List.take_length]
        exact h.ret
  | wake =>
    rw [step] at hstep
    split_ifs at hstep with hnone
    obtain rfl := Option.some_inj.mp hstep
    exact ⟨h.current, h.le_max, h.ret, fun _ ↦ h.asleep (Nat.pos_of_ne_zero hnone), h.waitAsleep, h.returned⟩
  | wakeWait =>
    rw [step] at hstep
    split_ifs at hstep with hnone
    obtain rfl := Option.some_inj.mp hstep
    exact ⟨h.current, h.le_max, h.ret, h.asleep, fun _ ↦ h.waitAsleep (Nat.pos_of_ne_zero hnone), h.returned⟩

/-! ## Everybody gets through

As long as somebody is inside, one of the threads can move: if all of them sleep, an operation runs,
and it ends. -/

/-- Nobody is inside. -/
def Quiet (s : SimpleThrottle) : Prop :=
  s.starting = 0 ∧ s.asleep = 0 ∧ s.running = 0 ∧ s.waiting = 0 ∧ s.waitAsleep = 0

/-- A move of those who are inside; the operations end well. -/
def Event.Inside (e : Event) : Prop := e = .look ∨ e = .finish 0 ∨ e = .check

/-- What is still to be done. A thread in `start_op` has its operation before it. -/
def work (s : SimpleThrottle) : ℕ := 2 * (s.starting + s.asleep) + s.running + (s.waiting + s.waitAsleep)

theorem Inv.exists_move (h : s.Inv) (hmax : 0 < s.max) (hbusy : ¬ s.Quiet) :
    ∃ e s', Event.Inside e ∧ s.step e = some s' ∧ (s'.Inv ∧ 0 < s'.max) ∧ s'.work < s.work := by
  rcases Nat.eq_zero_or_pos s.running with hnone | hrunning
  · -- then nobody sleeps
    have hasleep : s.asleep = 0 := by
      by_contra hne
      have hfull := h.asleep (Nat.pos_of_ne_zero hne)
      omega
    have hwaitAsleep : s.waitAsleep = 0 := by
      by_contra hne
      have hsome := h.waitAsleep (Nat.pos_of_ne_zero hne)
      omega
    have hcurrent := h.current.trans hnone
    rcases Nat.eq_zero_or_pos s.starting with hnobody | hstarting
    · -- all operations have ended, and `wait_for_ret` returns
      have hwaiting : s.waiting ≠ 0 := fun hzero ↦ hbusy ⟨hnobody, hasleep, hnone, hzero, hwaitAsleep⟩
      have hstep : s.step .check = some
          { s with waiting := s.waiting - 1, returned := s.returned ++ [(s.results.length, s.ret)] } := by
        rw [step, if_neg hwaiting, if_neg (by omega)]
      refine ⟨.check, _, Or.inr (Or.inr rfl), hstep, ⟨inv_step h hstep, hmax⟩, ?_⟩
      simp only [work]
      omega
    · -- there is room for an operation
      have hstep : s.step .look = some
          { s with starting := s.starting - 1, current := s.current + 1, running := s.running + 1 } := by
        rw [step, if_neg (by omega), if_neg (by omega)]
      refine ⟨.look, _, Or.inl rfl, hstep, ⟨inv_step h hstep, hmax⟩, ?_⟩
      simp only [work]
      omega
  · -- an operation ends, and wakes all who sleep
    have hstep : s.step (.finish 0) = some (s.endOp 0) := by
      rw [step, if_neg (by omega)]
    refine ⟨.finish 0, _, Or.inr (Or.inl rfl), hstep, ⟨inv_step h hstep, hmax⟩, ?_⟩
    simp only [work, SimpleThrottle.endOp]
    omega

/-- **What the throttle promises**, for any number of threads and in every run. No more than `max`
operations run; `wait_for_ret` has returned the first error among the operations that had ended, and
`pending_error` tells whether there is one; a thread sleeps in `start_op` only while the throttle is
full, and in `wait_for_ret` only while an operation runs; and if it is not a throttle of 0, those
who are inside get through, provided that the operations end. -/
theorem holds_of_run {max : ℕ} {ignoreEnoent : Bool} {es : List Event}
    (hrun : Run.exec step ({ max, ignoreEnoent } : SimpleThrottle) es = some s) :
    s.current = s.running ∧ s.running ≤ s.max ∧
      (∀ x ∈ s.returned, x.2 = firstError s.ignoreEnoent (s.results.take x.1)) ∧
      (s.pendingError = true ↔ ∃ r ∈ s.results, isError s.ignoreEnoent r = true) ∧
      (0 < s.asleep → s.running = s.max) ∧ (0 < s.waitAsleep → 0 < s.running) ∧
      (0 < s.max → ∃ fs s', (∀ f ∈ fs, Event.Inside f) ∧ Run.exec step s fs = some s' ∧ s'.Quiet) := by
  have h : s.Inv := Run.invariant (fun _ _ _ ↦ inv_step) (inv_start max ignoreEnoent) hrun
  have hpending : s.pendingError = true ↔ ∃ r ∈ s.results, isError s.ignoreEnoent r = true := by
    rw [pendingError, decide_eq_true_iff, h.ret, firstError_neg_iff]
  refine ⟨h.current, h.le_max, fun x hx ↦ (h.returned x hx).2, hpending, h.asleep, h.waitAsleep, fun hmax ↦ ?_⟩
  have hmove (t : SimpleThrottle) (ht : t.Inv ∧ 0 < t.max) (hbusy : ¬ t.Quiet) :
      ∃ e t', Event.Inside e ∧ t.step e = some t' ∧ (t'.Inv ∧ 0 < t'.max) ∧ t'.work < t.work :=
    ht.1.exists_move ht.2 hbusy
  obtain ⟨fs, s', hfs, hexec, -, hquiet⟩ := Run.exists_of_measure work hmove ⟨h, hmax⟩
  exact ⟨fs, s', hfs, hexec, hquiet⟩

/-- Two operations are let in one after the other; the first ends with an error, and a thread waits
for both. -/
def twoOps : List Event := [.start, .start, .look, .look, .wait, .check, .finish (-5), .look]

theorem holds_of_twoOps :
    ∃ s, Run.exec step ({ max := 1 } : SimpleThrottle) twoOps = some s ∧ s.running = 1 ∧ s.running ≤ s.max ∧
      ∃ fs s', (∀ f ∈ fs, Event.Inside f) ∧ Run.exec step s fs = some s' ∧ s'.Quiet := by
  have hend : ((Run.exec step ({ max := 1 } : SimpleThrottle) twoOps).any fun s ↦
      s.running = 1 ∧ s.max = 1) = true := by decide
  obtain ⟨s, hrun, hs⟩ := (Option.any_eq_true _ _).mp hend
  obtain ⟨hrunning, hmax⟩ := of_decide_eq_true hs
  obtain ⟨-, hle, -, -, -, -, hquiet⟩ := holds_of_run hrun
  exact ⟨s, hrun, hrunning, hle, hquiet (hmax ▸ Nat.one_pos)⟩

end SimpleThrottle

end AsyncMessenger
