import Mathlib.Algebra.BigOperators.Group.List.Basic
import Mathlib.Data.List.Nodup
import Mathlib.Tactic.Linarith
import AsyncMessenger.Lib.Run

/-!
# A throttle with waiters

`Throttle` with its queue of waiters: threads that block, each on a condition variable of its own,
and callbacks. A waiter is woken by whoever is responsible at that moment, which is `put`, a new
maximum, or the waiter before it when it leaves the queue. That one has not added its own units yet.

## The steps

A thread gives up the lock only in `Wait` and at the end of a call; what happens in between is one
step. A thread may wake up without having been signalled. `count` is a `long`: sums wrap around.

## The invariant

`Sound` is about the books: what was granted, who waits for what, and that no grant went beyond the
maximum. `Settled` is about signals: the first waiter has to wait, or it was signalled and has not
run yet. So nobody who might pass is left asleep. Both are kept by every step that computes no sum
beyond a `long` (`Fits`), and from them follow the two results: with threads only, the throttle is
fair (`fair_of_run`), and with callbacks as well the books are right (`accounted_of_run`), as long
as no callback has to wait for units. One that has to is charged at once.
-/

namespace AsyncMessenger

/-- What a waiter in the queue waits for. -/
inductive Demand
  | get
  | wait
  | callback
  deriving DecidableEq, Repr

/-- `Waiter`. A thread keeps `c` in its own frame. -/
structure Waiter where
  /-- The number of the call, in the order of arrival. -/
  ticket : ℕ
  c : ℤ
  demand : Demand
  /-- The condition variable was signalled since the thread last tested its condition. -/
  signalled : Bool := false
  deriving DecidableEq, Repr

/-- The thread of this call has tested its condition. -/
def Waiter.tested (ticket : ℕ) (w : Waiter) : Waiter :=
  if w.ticket = ticket then { w with signalled := false } else w

@[simp] theorem Waiter.tested_ticket (ticket : ℕ) (w : Waiter) : (w.tested ticket).ticket = w.ticket := by
  rw [tested]
  split_ifs <;> rfl

@[simp] theorem Waiter.tested_c (ticket : ℕ) (w : Waiter) : (w.tested ticket).c = w.c := by
  rw [tested]
  split_ifs <;> rfl

@[simp] theorem Waiter.tested_demand (ticket : ℕ) (w : Waiter) : (w.tested ticket).demand = w.demand := by
  rw [tested]
  split_ifs <;> rfl

/-- Units that were granted, with the maximum then, and the count right after. -/
structure Grant where
  c : ℤ
  max : ℤ
  count : ℤ
  deriving DecidableEq, Repr

/-- `Throttle`, and what has become of the calls. -/
structure WaitingThrottle where
  count : ℤ := 0
  max : ℤ
  /-- `wait_queue`. -/
  queue : List Waiter := []
  /-- The number of the next call. -/
  next : ℕ := 0
  /-- The calls that did not have to wait or have left the queue, in this order. -/
  passed : List ℕ := []
  grants : List Grant := []
  taken : ℤ := 0
  returned : ℤ := 0
  /-- The callbacks that were queued, -/
  queuedCallbacks : List ℕ := []
  /-- and that were run. -/
  ran : List ℕ := []
  deriving DecidableEq, Repr

namespace WaitingThrottle

/-- What the threads do. -/
inductive Event
  | get (c m : ℤ)
  | wait (m : ℤ)
  | getCallback (c m : ℤ)
  | getOrFail (c : ℤ)
  | take (c : ℤ)
  | put (c : ℤ)
  /-- The thread of this call comes back from `Wait`. -/
  | wake (ticket : ℕ)
  deriving DecidableEq, Repr

/-- A sum as a `long`. -/
def long (x : ℤ) : ℤ := Int.bmod x (2 ^ 64)

/-- `_should_wait`. -/
def shouldWait (s : WaitingThrottle) (c : ℤ) : Prop :=
  s.max ≠ 0 ∧ (c ≤ s.max ∧ s.max < long (s.count + c) ∨ s.max ≤ c ∧ s.max < s.count)

instance (s : WaitingThrottle) (c : ℤ) : Decidable (s.shouldWait c) := inferInstanceAs (Decidable (_ ∧ _))

/-- `count.add`. -/
def add (s : WaitingThrottle) (c : ℤ) : WaitingThrottle := { s with count := long (s.count + c) }

/-- Units are granted. -/
def grant (s : WaitingThrottle) (c : ℤ) : WaitingThrottle :=
  { s.add c with grants := s.grants ++ [⟨c, s.max, (s.add c).count⟩] }

/-- `signal_first`, with what is left of the queue. A thread is signalled; a callback that does not have to wait is
granted its units and run, and so on. -/
def signalLoop (s : WaitingThrottle) : List Waiter → WaitingThrottle
  | [] => { s with queue := [] }
  | w :: ws =>
    if w.demand = .callback then
      if s.shouldWait w.c then { s with queue := w :: ws }
      else signalLoop { s.grant w.c with passed := s.passed ++ [w.ticket], ran := s.ran ++ [w.ticket] } ws
    else { s with queue := { w with signalled := true } :: ws }

/-- `signal_first`. -/
def signalFirst (s : WaitingThrottle) : WaitingThrottle := s.signalLoop s.queue

/-- The beginning of `get` and `wait`: another maximum, if there is one. -/
def reset (s : WaitingThrottle) (m : ℤ) : Option WaitingThrottle :=
  if m = 0 then some s else if 0 < m then some { s with max := m }.signalFirst else none

/-- A call has to wait behind the others. -/
def enqueue (s : WaitingThrottle) (c : ℤ) (demand : Demand) : WaitingThrottle :=
  { s with queue := s.queue ++ [{ ticket := s.next, c, demand }], next := s.next + 1 }

/-- A call does not have to wait. -/
def pass (s : WaitingThrottle) : WaitingThrottle := { s with passed := s.passed ++ [s.next], next := s.next + 1 }

/-- `get` adds its units, and `wait` does not. -/
def letIn (s : WaitingThrottle) (demand : Demand) (c : ℤ) : WaitingThrottle :=
  if demand = .wait then s else s.grant c

/-- The end of `get` and `wait`: `_wait` for a thread. -/
def enter (s : WaitingThrottle) (demand : Demand) (c : ℤ) : WaitingThrottle :=
  if s.shouldWait c ∨ s.queue ≠ [] then s.enqueue c demand else s.pass.letIn demand c

/-- `_wait` for a callback: the units are added in both cases. -/
def enterCallback (s : WaitingThrottle) (c : ℤ) : WaitingThrottle :=
  if s.shouldWait c ∨ s.queue ≠ [] then
    ({ s with queuedCallbacks := s.queuedCallbacks ++ [s.next] }.enqueue c .callback).add c
  else s.pass.grant c

/-- What the thread at the front of the queue does when it does not have to wait any longer. -/
def leave (s : WaitingThrottle) (w : Waiter) (ws : List Waiter) : WaitingThrottle :=
  { s with queue := ws, passed := s.passed ++ [w.ticket] }.signalFirst.letIn w.demand w.c

/-- A thread tests its condition and waits again. -/
def rest (s : WaitingThrottle) (ticket : ℕ) : WaitingThrottle :=
  { s with queue := s.queue.map (Waiter.tested ticket) }

/-- One step; `none` is a failed assertion. -/
def step (s : WaitingThrottle) : Event → Option WaitingThrottle
  | .get c m =>
    if s.max = 0 then some s
    else if c < 0 then none
    else (s.reset m).map fun s ↦ s.enter .get c
  | .wait m =>
    if s.max = 0 then some s
    else (s.reset m).map fun s ↦ s.enter .wait 0
  | .getCallback c m =>
    if s.max = 0 then some s
    else if c < 0 then none
    else (s.reset m).map fun s ↦ s.enterCallback c
  | .getOrFail c =>
    if s.max = 0 then some s
    else if c < 0 then none
    else if s.shouldWait c ∨ s.queue ≠ [] then some { s with next := s.next + 1 }
    else some (s.pass.grant c)
  | .take c =>
    if s.max = 0 then some s
    else if c < 0 then none
    else some { s.add c with taken := s.taken + c }
  | .put c =>
    if s.max = 0 then some s
    else if c < 0 then none
    else if c = 0 then some s
    else if s.count < c then none
    else some { s with count := long (s.count - c), returned := s.returned + c }.signalFirst
  | .wake ticket =>
    match s.queue with
    | [] => some s
    | w :: ws =>
      if w.ticket = ticket ∧ w.demand ≠ .callback ∧ ¬s.shouldWait w.c then some (s.leave w ws)
      else some (s.rest ticket)

/-! ## What holds between the calls

The queue holds the calls in the order of their arrival. Those who passed are numbered as well, so
that overtaking would show. -/

/-- The books are right, nothing has wrapped around, only `get` waits for units, and the calls that have passed and
those that wait are in the order of arrival. -/
structure Sound (s : WaitingThrottle) : Prop where
  max_pos : 0 < s.max
  books : s.count = (s.grants.map Grant.c).sum + s.taken - s.returned
  nonneg : 0 ≤ s.count
  small : s.count < 2 ^ 63
  waiter : ∀ w ∈ s.queue, 0 ≤ w.c ∧ s.count + w.c < 2 ^ 63 ∧ (w.demand ≠ .get → w.c = 0)
  bounded : ∀ g ∈ s.grants, g.c ≤ g.max → g.count ≤ g.max
  order : (s.passed ++ s.queue.map Waiter.ticket).Pairwise (· < ·)
  fresh : ∀ t ∈ s.passed ++ s.queue.map Waiter.ticket, t < s.next
  callbacks : s.queuedCallbacks.Perm
    (s.ran ++ (s.queue.filter fun w ↦ w.demand = .callback).map Waiter.ticket)
  once : s.queuedCallbacks.Nodup
  known : ∀ t ∈ s.queuedCallbacks, t < s.next

/-- The first waiter has to wait, or it is a thread that was signalled. -/
def Settled (s : WaitingThrottle) : Prop :=
  ∀ w ws, s.queue = w :: ws → ¬s.shouldWait w.c → w.demand ≠ .callback ∧ w.signalled = true

variable {s t : WaitingThrottle} {c : ℤ} {w : Waiter} {ws : List Waiter}

theorem long_eq {x : ℤ} (hnonneg : 0 ≤ x) (hlt : x < 2 ^ 63) : long x = x :=
  Int.bmod_eq_of_le (by omega) (by omega)

theorem shouldWait_iff (hmax : 0 < s.max) (hcount : 0 ≤ s.count) (hc : 0 ≤ c) (hsum : s.count + c < 2 ^ 63) :
    s.shouldWait c ↔ c ≤ s.max ∧ s.max < s.count + c ∨ s.max ≤ c ∧ s.max < s.count := by
  rw [shouldWait, long_eq (by omega) hsum]
  exact ⟨And.right, fun h ↦ ⟨hmax.ne', h⟩⟩

theorem Sound.add_count (h : Sound s) (hc : 0 ≤ c) (hsum : s.count + c < 2 ^ 63) : (s.add c).count = s.count + c :=
  long_eq (by have := h.nonneg; omega) hsum

theorem Sound.add_zero (h : Sound s) : s.add 0 = s := by
  rw [add, Int.add_zero, long_eq h.nonneg h.small]

/-- A grant that does not have to wait. -/
theorem Sound.grant (h : Sound s) (hc : 0 ≤ c) (hsum : s.count + c < 2 ^ 63) (hpass : ¬s.shouldWait c)
    (hqueue : ∀ w ∈ s.queue, s.count + c + w.c < 2 ^ 63) : Sound (s.grant c) := by
  have hcount : (s.grant c).count = s.count + c := h.add_count hc hsum
  have hnonneg := h.nonneg
  rw [shouldWait_iff h.max_pos hnonneg hc hsum] at hpass
  refine { h with books := ?_, nonneg := ?_, small := ?_, waiter := ?_, bounded := ?_ }
  · rw [hcount, h.books]
    change _ = ((s.grants ++ [_]).map Grant.c).sum + s.taken - s.returned
    rw [List.map_append, List.sum_append, List.map_singleton, List.sum_singleton]
    dsimp only
    omega
  · omega
  · omega
  · intro w hw
    obtain ⟨hwc, -, hdemand⟩ := h.waiter w hw
    rw [hcount]
    exact ⟨hwc, hqueue w hw, hdemand⟩
  · intro g hg hle
    rcases List.mem_append.mp hg with hg | hg
    · exact h.bounded g hg hle
    · obtain rfl := List.mem_singleton.mp hg
      have hadd := h.add_count hc hsum
      dsimp only at hle ⊢
      omega

/-! ## `signal_first`

The loop takes callbacks from the front of the queue as long as they do not have to wait, and
signals the first thread it meets. After it the first waiter has to wait, or was signalled. -/

/-- A callback has left the queue. -/
theorem Sound.run (h : Sound { s with queue := w :: ws }) (hw : w.demand = .callback) :
    Sound { s with queue := ws, passed := s.passed ++ [w.ticket], ran := s.ran ++ [w.ticket] } := by
  refine { h with waiter := ?_, order := ?_, fresh := ?_, callbacks := ?_ }
  · exact fun v hv ↦ h.waiter v (List.mem_cons_of_mem w hv)
  · have horder := h.order
    rwa [List.map_cons, List.append_cons] at horder
  · have hfresh := h.fresh
    rwa [List.map_cons, List.append_cons] at hfresh
  · have hperm := h.callbacks
    rwa [List.filter_cons_of_pos (by simpa using hw), List.map_cons, List.append_cons] at hperm

theorem Sound.signal (h : Sound { s with queue := w :: ws }) :
    Sound { s with queue := { w with signalled := true } :: ws } := by
  refine { h with waiter := ?_, callbacks := ?_ }
  · intro v hv
    rcases List.mem_cons.mp hv with rfl | hv
    · exact h.waiter w List.mem_cons_self
    · exact h.waiter v (List.mem_cons_of_mem w hv)
  · refine h.callbacks.trans (.of_eq ?_)
    by_cases hw : w.demand = .callback
    · rw [List.filter_cons_of_pos (by simpa using hw), List.filter_cons_of_pos (by simpa using hw)]
      rfl
    · rw [List.filter_cons_of_neg (by simpa using hw), List.filter_cons_of_neg (by simpa using hw)]

/-- What `signal_first` leaves as it is. -/
structure Kept (s t : WaitingThrottle) (ws : List Waiter) : Prop where
  count : t.count = s.count
  max : t.max = s.max
  next : t.next = s.next
  queue : ∀ v ∈ t.queue, ∃ w ∈ ws, v.c = w.c ∧ v.ticket = w.ticket

/-- After `signal_first` the first waiter has to wait or was signalled. -/
theorem signalLoop_spec (h : Sound { s with queue := ws }) :
    Sound (s.signalLoop ws) ∧ Settled (s.signalLoop ws) ∧ Kept s (s.signalLoop ws) ws := by
  induction ws generalizing s with
  | nil => exact ⟨h, by rintro w ws ⟨⟩, rfl, rfl, rfl, fun v hv ↦ absurd hv List.not_mem_nil⟩
  | cons w ws ih =>
    rw [signalLoop]
    by_cases hw : w.demand = .callback
    · rw [if_pos hw]
      by_cases hwait : s.shouldWait w.c
      · rw [if_pos hwait]
        refine ⟨h, ?_, rfl, rfl, rfl, fun v hv ↦ ⟨v, hv, rfl, rfl⟩⟩
        intro v vs hv hnot
        obtain ⟨rfl, -⟩ := List.cons.inj hv
        exact absurd hwait hnot
      · rw [if_neg hwait]
        have hzero : w.c = 0 := (h.waiter w List.mem_cons_self).2.2 (by rw [hw]; decide)
        have hrun := h.run hw
        have hsmall : s.count + w.c < 2 ^ 63 := (h.waiter w List.mem_cons_self).2.1
        have hgrant := hrun.grant hzero.ge hsmall hwait fun v hv ↦ by
          have := (hrun.waiter v hv).2.1
          rwa [hzero, Int.add_zero]
        obtain ⟨hsound, hsettled, hkept⟩ :=
          @ih { s.grant w.c with passed := s.passed ++ [w.ticket], ran := s.ran ++ [w.ticket] } hgrant
        refine ⟨hsound, hsettled, ?_, hkept.max, hkept.next, fun v hv ↦ ?_⟩
        · refine hkept.count.trans ((hrun.add_count hzero.ge hsmall).trans ?_)
          rw [hzero, Int.add_zero]
        · obtain ⟨u, hu, huv⟩ := hkept.queue v hv
          exact ⟨u, List.mem_cons_of_mem w hu, huv⟩
    · rw [if_neg hw]
      refine ⟨h.signal, ?_, rfl, rfl, rfl, fun v hv ↦ ?_⟩
      · intro v vs hv hnot
        obtain ⟨rfl, -⟩ := List.cons.inj hv
        exact ⟨hw, rfl⟩
      · rcases List.mem_cons.mp hv with rfl | hv
        · exact ⟨w, List.mem_cons_self, rfl, rfl⟩
        · exact ⟨v, List.mem_cons_of_mem w hv, rfl, rfl⟩

theorem signalFirst_spec (h : Sound s) :
    Sound s.signalFirst ∧ Settled s.signalFirst ∧ Kept s s.signalFirst s.queue :=
  signalLoop_spec h

/-! ## The calls

A lemma for each: to pass at once, to enter the queue, to leave it, to wait again, to put back, and
to take without asking. -/

/-- What holds whenever the lock is free. -/
def Inv (s : WaitingThrottle) : Prop := Sound s ∧ Settled s

/-- More units do not let anyone pass who had to wait. -/
theorem Settled.of_le (h : Settled s) (hs : Sound s) (ht : Sound t) (hqueue : t.queue = s.queue) (hmax : t.max = s.max)
    (hcount : s.count ≤ t.count) : Settled t := by
  intro w ws hw hnot
  rw [hqueue] at hw
  refine h w ws hw fun hwait ↦ hnot ?_
  have hmem : w ∈ s.queue := hw ▸ List.mem_cons_self
  have hmem' : w ∈ t.queue := hqueue ▸ hmem
  obtain ⟨hc, hsum, -⟩ := hs.waiter w hmem
  obtain ⟨-, hsum', -⟩ := ht.waiter w hmem'
  rw [shouldWait_iff hs.max_pos hs.nonneg hc hsum] at hwait
  rw [shouldWait_iff ht.max_pos ht.nonneg hc hsum', hmax]
  omega

theorem Sound.setMax (h : Sound s) {m : ℤ} (hm : 0 < m) : Sound { s with max := m } := { h with max_pos := hm }

theorem Inv.reset (h : s.Inv) {m : ℤ} (hm : 0 ≤ m) :
    ∃ t, s.reset m = some t ∧ t.Inv ∧ t.count = s.count ∧ t.next = s.next := by
  rw [WaitingThrottle.reset]
  by_cases hzero : m = 0
  · rw [if_pos hzero]
    exact ⟨s, rfl, h, rfl, rfl⟩
  · rw [if_neg hzero, if_pos (by omega)]
    obtain ⟨hsound, hsettled, hkept⟩ := signalFirst_spec (h.1.setMax (show 0 < m by omega))
    exact ⟨_, rfl, ⟨hsound, hsettled⟩, hkept.count, hkept.next⟩

/-- The next number goes to the end. -/
theorem append_next {l : List ℕ} {n : ℕ} (horder : l.Pairwise (· < ·)) (hfresh : ∀ t ∈ l, t < n) :
    (l ++ [n]).Pairwise (· < ·) ∧ ∀ t ∈ l ++ [n], t < n + 1 := by
  constructor
  · refine List.pairwise_append.mpr ⟨horder, List.pairwise_singleton _ _, fun t ht u hu ↦ ?_⟩
    rw [List.mem_singleton.mp hu]
    exact hfresh t ht
  · intro t ht
    rcases List.mem_append.mp ht with ht | ht
    · exact Nat.lt_succ_of_lt (hfresh t ht)
    · rw [List.mem_singleton.mp ht]
      exact Nat.lt_succ_self n

/-- A call that does not have to wait is the latest one. -/
theorem Sound.pass (h : Sound s) (hqueue : s.queue = []) : Sound s.pass := by
  have horder := h.order
  have hfresh := h.fresh
  rw [hqueue, List.map_nil, List.append_nil] at horder hfresh
  have htickets : s.passed ++ [s.next] ++ s.queue.map Waiter.ticket = s.passed ++ [s.next] := by
    rw [hqueue, List.map_nil, List.append_nil]
  refine { h with order := ?_, fresh := ?_, known := fun t ht ↦ Nat.lt_succ_of_lt (h.known t ht) }
  · exact htickets ▸ (append_next horder hfresh).1
  · exact htickets ▸ (append_next horder hfresh).2

/-- A call that has to wait is the last in the queue. -/
theorem Sound.enqueue (h : Sound s) {demand : Demand} (hc : 0 ≤ c) (hsum : s.count + c < 2 ^ 63)
    (hdemand : demand ≠ .get → c = 0) :
    Sound { s.enqueue c demand with
      queuedCallbacks := s.queuedCallbacks ++ if demand = .callback then [s.next] else [] } := by
  have htickets : s.passed ++ (s.queue ++ [(⟨s.next, c, demand, false⟩ : Waiter)]).map Waiter.ticket =
      s.passed ++ s.queue.map Waiter.ticket ++ [s.next] := by
    rw [List.map_append, ← List.append_assoc]
    rfl
  refine { h with waiter := ?_, order := ?_, fresh := ?_, callbacks := ?_, once := ?_, known := ?_ }
  · intro w hw
    rcases List.mem_append.mp hw with hw | hw
    · exact h.waiter w hw
    · rw [List.mem_singleton.mp hw]
      exact ⟨hc, hsum, hdemand⟩
  · exact htickets ▸ (append_next h.order h.fresh).1
  · exact htickets ▸ (append_next h.order h.fresh).2
  · change (s.queuedCallbacks ++ _).Perm
      (s.ran ++ ((s.queue ++ [(⟨s.next, c, demand, false⟩ : Waiter)]).filter _).map Waiter.ticket)
    rw [List.filter_append, List.map_append, ← List.append_assoc]
    refine (h.callbacks.append_right _).trans (.of_eq (congrArg _ ?_))
    by_cases hcallback : demand = .callback
    · rw [if_pos hcallback, List.filter_cons_of_pos (by simpa using hcallback)]
      rfl
    · rw [if_neg hcallback, List.filter_cons_of_neg (by simpa using hcallback)]
      rfl
  · split_ifs
    · refine List.nodup_append.mpr ⟨h.once, List.nodup_singleton _, fun t ht u hu ↦ ?_⟩
      rw [List.mem_singleton.mp hu]
      exact (h.known t ht).ne
    · rw [List.append_nil]
      exact h.once
  · intro t ht
    change t < s.next + 1
    rcases List.mem_append.mp ht with ht | ht
    · exact Nat.lt_succ_of_lt (h.known t ht)
    · split_ifs at ht
      · rw [List.mem_singleton.mp ht]
        exact Nat.lt_succ_self _
      · exact absurd ht List.not_mem_nil

/-- A waiter behind others, or one that has to wait. -/
theorem Settled.enqueue (h : Settled s) {demand : Demand} (hwait : s.shouldWait c ∨ s.queue ≠ []) :
    Settled (s.enqueue c demand) := by
  intro w ws hw hnot
  cases hqueue : s.queue with
  | nil =>
    have hfirst : s.queue ++ [{ ticket := s.next, c, demand }] = w :: ws := hw
    rw [hqueue] at hfirst
    obtain ⟨rfl, -⟩ := List.cons.inj hfirst
    exact absurd (hwait.resolve_right (not_not.mpr hqueue)) hnot
  | cons v vs =>
    have hfirst : s.queue ++ [{ ticket := s.next, c, demand }] = w :: ws := hw
    rw [hqueue] at hfirst
    obtain ⟨rfl, -⟩ := List.cons.inj hfirst
    exact h v vs hqueue hnot

theorem settled_of_nil (h : s.queue = []) : Settled s := by
  intro w ws hw
  rw [h] at hw
  exact absurd hw (by rintro ⟨⟩)

/-- `get` and `wait`. -/
theorem Inv.enter (h : s.Inv) {demand : Demand} (hc : 0 ≤ c) (hsum : s.count + c < 2 ^ 63)
    (hdemand : demand ≠ .get → c = 0) (hcallback : demand ≠ .callback) : (s.enter demand c).Inv := by
  rw [WaitingThrottle.enter]
  by_cases hwait : s.shouldWait c ∨ s.queue ≠ []
  · rw [if_pos hwait]
    refine ⟨?_, h.2.enqueue hwait⟩
    have hsound := h.1.enqueue hc hsum hdemand
    rwa [if_neg hcallback, List.append_nil] at hsound
  · rw [if_neg hwait]
    obtain ⟨hpass, hqueue⟩ := not_or.mp hwait
    have hnil : s.queue = [] := not_not.mp hqueue
    have hsound := h.1.pass hnil
    rw [letIn]
    split_ifs
    · exact ⟨hsound, settled_of_nil hnil⟩
    · refine ⟨hsound.grant hc hsum hpass fun w hw ↦ ?_, settled_of_nil hnil⟩
      exact absurd (hnil ▸ hw : w ∈ []) List.not_mem_nil

/-- A callback that does not have to wait, or asks for nothing. -/
theorem Inv.enterCallback (h : s.Inv) (hc : 0 ≤ c) (hsum : s.count + c < 2 ^ 63)
    (hpasses : c = 0 ∨ s.queue = [] ∧ ¬s.shouldWait c) : (s.enterCallback c).Inv := by
  rw [WaitingThrottle.enterCallback]
  by_cases hwait : s.shouldWait c ∨ s.queue ≠ []
  · rw [if_pos hwait]
    have hzero : c = 0 := hpasses.resolve_right fun hpass ↦ hwait.elim hpass.2 fun hne ↦ hne hpass.1
    have hsound : Sound ({ s with queuedCallbacks := s.queuedCallbacks ++ [s.next] }.enqueue c .callback) :=
      h.1.enqueue hc hsum fun _ ↦ hzero
    subst hzero
    rw [hsound.add_zero]
    exact ⟨hsound, @Settled.enqueue { s with queuedCallbacks := s.queuedCallbacks ++ [s.next] } 0 h.2 _ hwait⟩
  · rw [if_neg hwait]
    obtain ⟨hpass, hqueue⟩ := not_or.mp hwait
    have hnil : s.queue = [] := not_not.mp hqueue
    refine ⟨(h.1.pass hnil).grant hc hsum hpass fun w hw ↦ ?_, settled_of_nil hnil⟩
    exact absurd (hnil ▸ hw : w ∈ []) List.not_mem_nil

/-- A thread has left the queue. -/
theorem Sound.pop (h : Sound s) (hqueue : s.queue = w :: ws) (hw : w.demand ≠ .callback) :
    Sound { s with queue := ws, passed := s.passed ++ [w.ticket] } := by
  have horder := h.order
  have hfresh := h.fresh
  have hperm := h.callbacks
  rw [hqueue, List.map_cons, List.append_cons] at horder hfresh
  rw [hqueue, List.filter_cons_of_neg (by simpa using hw)] at hperm
  exact { h with
    waiter := fun v hv ↦ h.waiter v (hqueue ▸ List.mem_cons_of_mem w hv)
    order := horder
    fresh := hfresh
    callbacks := hperm }

/-- The thread at the front of the queue leaves. -/
theorem Inv.leave (h : s.Inv) (hqueue : s.queue = w :: ws) (hpass : ¬s.shouldWait w.c) (hw : w.demand ≠ .callback)
    (hfits : ∀ v ∈ ws, s.count + w.c + v.c < 2 ^ 63) : (s.leave w ws).Inv := by
  obtain ⟨hc, hsum, -⟩ := h.1.waiter w (hqueue ▸ List.mem_cons_self)
  obtain ⟨hsound, hsettled, hkept⟩ := signalFirst_spec (h.1.pop hqueue hw)
  rw [WaitingThrottle.leave]
  generalize signalFirst { s with queue := ws, passed := s.passed ++ [w.ticket] } = t at hsound hsettled hkept
  rw [letIn]
  split_ifs
  · exact ⟨hsound, hsettled⟩
  · have hcount : t.count = s.count := hkept.count
    have hmax : t.max = s.max := hkept.max
    have hpass' : ¬t.shouldWait w.c := by
      rwa [shouldWait, hcount, hmax]
    have hgrant := hsound.grant hc (by omega) hpass' fun v hv ↦ by
      obtain ⟨u, hu, huc, -⟩ := hkept.queue v hv
      rw [hcount, huc]
      exact hfits u hu
    refine ⟨hgrant, hsettled.of_le hsound hgrant rfl rfl ?_⟩
    have hadd : (t.grant w.c).count = t.count + w.c := hsound.add_count hc (by omega)
    omega

/-- A thread that waits again has to wait, or it is not the first one. -/
theorem Inv.rest (h : s.Inv) (ticket : ℕ) (hwaits : ∀ w ws, s.queue = w :: ws → w.ticket = ticket →
    w.demand ≠ .callback → s.shouldWait w.c) : (s.rest ticket).Inv := by
  have htickets : (s.queue.map (Waiter.tested ticket)).map Waiter.ticket = s.queue.map Waiter.ticket := by
    rw [List.map_map]
    exact List.map_congr_left fun w _ ↦ w.tested_ticket ticket
  constructor
  · refine { h.1 with waiter := ?_, order := ?_, fresh := ?_, callbacks := ?_ }
    · intro v hv
      obtain ⟨w, hw, rfl⟩ := List.mem_map.mp hv
      rw [Waiter.tested_c, Waiter.tested_demand]
      exact h.1.waiter w hw
    · exact htickets ▸ h.1.order
    · exact htickets ▸ h.1.fresh
    · refine h.1.callbacks.trans (.of_eq (congrArg _ ?_))
      rw [WaitingThrottle.rest, List.filter_map, List.map_map]
      simp only [Function.comp_def, Waiter.tested_demand, Waiter.tested_ticket]
  · intro v vs hv hnot
    obtain ⟨w, ws, hw, rfl, -⟩ := List.map_eq_cons_iff.mp hv
    rw [Waiter.tested_c] at hnot
    have hnot' : ¬s.shouldWait w.c := hnot
    obtain ⟨hthread, hsignalled⟩ := h.2 w ws hw hnot'
    rw [Waiter.tested, if_neg fun heq ↦ hnot' (hwaits w ws hw heq hthread)]
    exact ⟨hthread, hsignalled⟩

theorem Inv.put (h : s.Inv) (hc : 0 ≤ c) (hle : c ≤ s.count) :
    ({ s with count := long (s.count - c), returned := s.returned + c }.signalFirst).Inv := by
  have hsmall := h.1.small
  have hbooks := h.1.books
  have hsub : long (s.count - c) = s.count - c := long_eq (by omega) (by omega)
  rw [hsub]
  obtain ⟨hsound, hsettled, -⟩ := @signalFirst_spec { s with count := s.count - c, returned := s.returned + c }
    { h.1 with
      books := by dsimp only; omega
      nonneg := by dsimp only; omega
      small := by dsimp only; omega
      waiter := by
        intro w hw
        obtain ⟨hwc, hsum, hdemand⟩ := h.1.waiter w hw
        exact ⟨hwc, by dsimp only; omega, hdemand⟩ }
  exact ⟨hsound, hsettled⟩

theorem Inv.take (h : s.Inv) (hc : 0 ≤ c) (hsum : s.count + c < 2 ^ 63)
    (hfits : ∀ w ∈ s.queue, s.count + c + w.c < 2 ^ 63) : Inv { s.add c with taken := s.taken + c } := by
  have hcount := h.1.add_count hc hsum
  have hnonneg := h.1.nonneg
  have hbooks := h.1.books
  have hsound : Sound { s.add c with taken := s.taken + c } := { h.1 with
    books := by rw [hcount, hbooks]; dsimp only [add]; omega
    nonneg := by rw [hcount]; omega
    small := by rw [hcount]; omega
    waiter := by
      intro w hw
      obtain ⟨hwc, -, hdemand⟩ := h.1.waiter w hw
      rw [hcount]
      exact ⟨hwc, hfits w hw, hdemand⟩ }
  refine ⟨hsound, h.2.of_le h.1 hsound rfl rfl ?_⟩
  rw [hcount]
  omega

/-! ## Runs

What is asked of a run: no sum wraps around, and the arguments are those the assertions ask for.
Then every call succeeds, unless more is put back than there is. -/

/-- When the first of these waiters leaves as the thread of this call, no sum of the others wraps around. -/
def FitsBehind (s : WaitingThrottle) (ticket : ℕ) : List Waiter → Prop
  | [] => True
  | w :: ws => w.ticket = ticket → ¬s.shouldWait w.c → ∀ v ∈ ws, s.count + w.c + v.c < 2 ^ 63

/-- No sum that a call computes goes beyond a `long`: neither `cur + c` in `_should_wait` nor `count` itself, as the
waiting threads will see it. -/
def Fits (s : WaitingThrottle) : Event → Prop
  | .get c _ | .getCallback c _ | .getOrFail c => s.count + c < 2 ^ 63
  | .take c => s.count + c < 2 ^ 63 ∧ ∀ w ∈ s.queue, s.count + c + w.c < 2 ^ 63
  | .wake ticket => s.FitsBehind ticket s.queue
  | .wait _ | .put _ => True

/-- The arguments that the assertions ask for. -/
def Asked : Event → Prop
  | .get c m | .getCallback c m => 0 ≤ c ∧ 0 ≤ m
  | .wait m => 0 ≤ m
  | .getOrFail c | .take c | .put c => 0 ≤ c
  | .wake _ => True

instance : (e : Event) → Decidable (Asked e)
  | .get c m | .getCallback c m => inferInstanceAs (Decidable (0 ≤ c ∧ 0 ≤ m))
  | .wait m => inferInstanceAs (Decidable (0 ≤ m))
  | .getOrFail c | .take c | .put c => inferInstanceAs (Decidable (0 ≤ c))
  | .wake _ => .isTrue trivial

instance (s : WaitingThrottle) (ticket : ℕ) : (ws : List Waiter) → Decidable (s.FitsBehind ticket ws)
  | [] => .isTrue trivial
  | w :: ws => inferInstanceAs
    (Decidable (w.ticket = ticket → ¬s.shouldWait w.c → ∀ v ∈ ws, s.count + w.c + v.c < 2 ^ 63))

instance (s : WaitingThrottle) : (e : Event) → Decidable (s.Fits e)
  | .get c _ | .getCallback c _ | .getOrFail c => inferInstanceAs (Decidable (s.count + c < 2 ^ 63))
  | .take c => inferInstanceAs
    (Decidable (s.count + c < 2 ^ 63 ∧ ∀ w ∈ s.queue, s.count + c + w.c < 2 ^ 63))
  | .wake ticket => inferInstanceAs (Decidable (s.FitsBehind ticket s.queue))
  | .wait _ | .put _ => .isTrue trivial

/-- No callback has to wait for units. -/
def Passes (s : WaitingThrottle) : Event → Prop
  | .getCallback c m => c = 0 ∨ ∀ t ∈ s.reset m, t.queue = [] ∧ ¬t.shouldWait c
  | _ => True

instance (s : WaitingThrottle) : (e : Event) → Decidable (s.Passes e)
  | .getCallback c m =>
    inferInstanceAs (Decidable (c = 0 ∨ ∀ t ∈ s.reset m, t.queue = [] ∧ ¬t.shouldWait c))
  | .get .. | .wait _ | .getOrFail _ | .take _ | .put _ | .wake _ => .isTrue trivial

/-- Every call succeeds, unless more is put back than there is. -/
theorem Inv.step (h : s.Inv) {e : Event} (hasked : Asked e) (hfits : s.Fits e) (hpasses : s.Passes e) :
    (∃ t, s.step e = some t ∧ t.Inv) ∨ ∃ c, e = .put c ∧ s.count < c ∧ s.step e = none := by
  have hmax : ¬s.max = 0 := h.1.max_pos.ne'
  cases e with
  | get c m =>
    obtain ⟨t, ht, hinv, hcount, -⟩ := h.reset hasked.2
    refine .inl ⟨t.enter .get c, ?_, hinv.enter hasked.1 (hcount ▸ hfits) (fun hne ↦ absurd rfl hne) (by decide)⟩
    rw [WaitingThrottle.step, if_neg hmax, if_neg (not_lt.mpr hasked.1), ht]
    rfl
  | wait m =>
    obtain ⟨t, ht, hinv, -⟩ := h.reset hasked
    refine .inl ⟨t.enter .wait 0, ?_, hinv.enter le_rfl ?_ (fun _ ↦ rfl) (by decide)⟩
    · rw [WaitingThrottle.step, if_neg hmax, ht]
      rfl
    · rw [Int.add_zero]
      exact hinv.1.small
  | getCallback c m =>
    obtain ⟨t, ht, hinv, hcount, -⟩ := h.reset hasked.2
    refine .inl ⟨_, ?_, hinv.enterCallback hasked.1 (hcount ▸ hfits) (hpasses.imp_right fun hp ↦ hp t ht)⟩
    rw [WaitingThrottle.step, if_neg hmax, if_neg (not_lt.mpr hasked.1), ht]
    rfl
  | getOrFail c =>
    left
    rw [WaitingThrottle.step, if_neg hmax, if_neg (not_lt.mpr hasked)]
    by_cases hwait : s.shouldWait c ∨ s.queue ≠ []
    · rw [if_pos hwait]
      refine ⟨_, rfl, { h.1 with fresh := ?_, known := ?_ }, h.2⟩
      · exact fun t ht ↦ Nat.lt_succ_of_lt (h.1.fresh t ht)
      · exact fun t ht ↦ Nat.lt_succ_of_lt (h.1.known t ht)
    · rw [if_neg hwait]
      obtain ⟨hpass, hqueue⟩ := not_or.mp hwait
      have hnil : s.queue = [] := not_not.mp hqueue
      refine ⟨_, rfl, (h.1.pass hnil).grant hasked hfits hpass fun w hw ↦ ?_, settled_of_nil hnil⟩
      exact absurd (hnil ▸ hw : w ∈ []) List.not_mem_nil
  | take c =>
    left
    rw [WaitingThrottle.step, if_neg hmax, if_neg (not_lt.mpr hasked)]
    exact ⟨_, rfl, h.take hasked hfits.1 hfits.2⟩
  | put c =>
    rw [WaitingThrottle.step, if_neg hmax, if_neg (not_lt.mpr hasked)]
    by_cases hzero : c = 0
    · rw [if_pos hzero]
      exact .inl ⟨s, rfl, h⟩
    · rw [if_neg hzero]
      by_cases hlt : s.count < c
      · rw [if_pos hlt]
        exact .inr ⟨c, rfl, hlt, rfl⟩
      · rw [if_neg hlt]
        exact .inl ⟨_, rfl, h.put hasked (not_lt.mp hlt)⟩
  | wake ticket =>
    left
    rw [WaitingThrottle.step]
    cases hqueue : s.queue with
    | nil => exact ⟨s, rfl, h⟩
    | cons w ws =>
      dsimp only
      -- the waiter at the front leaves if it was woken and fits; any other goes back to sleep
      by_cases hleave : w.ticket = ticket ∧ w.demand ≠ .callback ∧ ¬s.shouldWait w.c
      · rw [if_pos hleave]
        obtain ⟨hticket, hthread, hpass⟩ := hleave
        have hbehind : s.FitsBehind ticket (w :: ws) := hqueue ▸ hfits
        exact ⟨_, rfl, h.leave hqueue hpass hthread (hbehind hticket hpass)⟩
      · rw [if_neg hleave]
        refine ⟨_, rfl, h.rest ticket fun v vs hv hticket hthread ↦ ?_⟩
        obtain ⟨rfl, rfl⟩ := List.cons.inj (hqueue.symm.trans hv)
        by_contra hpass
        exact hleave ⟨hticket, hthread, hpass⟩

/-- The start: nothing was taken, and nobody waits. -/
theorem inv_init {m : ℤ} (hm : 0 < m) : Inv { max := m } := by
  refine ⟨⟨hm, rfl, le_rfl, by norm_num, ?_, ?_, .nil, ?_, .nil, .nil, ?_⟩, settled_of_nil rfl⟩ <;>
    exact fun _ h ↦ absurd h List.not_mem_nil

/-- The units that are out. -/
def out (s : WaitingThrottle) : ℤ := (s.grants.map Grant.c).sum + s.taken - s.returned

/-! ## Threads only -/

/-- What is asked of the callers: no callbacks, and nothing is put back that was not obtained. -/
def Threads (s : WaitingThrottle) : Event → Prop
  | .getCallback .. => False
  | .put c => 0 ≤ c ∧ c ≤ s.out
  | e => Asked e

instance (s : WaitingThrottle) : (e : Event) → Decidable (s.Threads e)
  | .getCallback .. => .isFalse id
  | .put c => inferInstanceAs (Decidable (0 ≤ c ∧ c ≤ s.out))
  | .get c m => inferInstanceAs (Decidable (Asked (.get c m)))
  | .wait m => inferInstanceAs (Decidable (Asked (.wait m)))
  | .getOrFail c => inferInstanceAs (Decidable (Asked (.getOrFail c)))
  | .take c => inferInstanceAs (Decidable (Asked (.take c)))
  | .wake ticket => inferInstanceAs (Decidable (Asked (.wake ticket)))

/-- The count is what is out, a grant of no more than the maximum stays below it, the calls pass in the order of
arrival without overtaking those that wait, and no wakeup is lost. -/
structure Fair (s : WaitingThrottle) : Prop where
  books : s.count = s.out
  bounded : ∀ g ∈ s.grants, g.c ≤ g.max → g.count ≤ g.max
  order : (s.passed ++ s.queue.map Waiter.ticket).Pairwise (· < ·)
  wakeup : ∀ w ws, s.queue = w :: ws → ¬s.shouldWait w.c → w.signalled = true

theorem Inv.fair (h : s.Inv) : s.Fair := ⟨h.1.books, h.1.bounded, h.1.order, fun w ws hw hnot ↦ (h.2 w ws hw hnot).2⟩

/-- Every step of a thread succeeds. -/
theorem Inv.step_thread (h : s.Inv) {e : Event} (hthreads : s.Threads e) (hfits : s.Fits e) :
    ∃ t, s.step e = some t ∧ t.Inv := by
  have hasked : Asked e := by
    cases e with
    | getCallback c m => exact hthreads.elim
    | put c => exact hthreads.1
    | get c m => exact hthreads
    | wait m => exact hthreads
    | getOrFail c => exact hthreads
    | take c => exact hthreads
    | wake ticket => exact hthreads
  have hpasses : s.Passes e := by
    cases e with
    | getCallback c m => exact hthreads.elim
    | _ => exact trivial
  obtain hstep | ⟨c, rfl, hlt, -⟩ := h.step hasked hfits hpasses
  · exact hstep
  · have hbooks : s.count = s.out := h.1.books
    have hle : c ≤ s.out := hthreads.2
    omega

/-- However the threads are interleaved, the throttle is fair as long as no sum wraps around. -/
theorem fair_of_run {m : ℤ} (hm : 0 < m) {es : List Event}
    (hrun : Run.Meets step (fun s e ↦ s.Threads e ∧ s.Fits e) { max := m } es) :
    ∃ s, Run.exec step { max := m } es = some s ∧ s.Fair := by
  have hstep : ∀ s e, Inv s → s.Threads e ∧ s.Fits e → ∃ t, s.step e = some t ∧ t.Inv :=
    fun s e h hlegal ↦ h.step_thread hlegal.1 hlegal.2
  obtain ⟨s, hs, hinv⟩ := Run.exists_of_meets hstep (inv_init hm) hrun
  exact ⟨s, hs, hinv.fair⟩

/-- Two threads wait behind the units of a third one; the first of them leaves when these are put back, and the
second one when the first gives back its own. -/
def handOver : List Event :=
  [.get 3 0, .get 2 0, .get 2 0, .put 3, .wake 1, .wake 2, .put 2, .wake 2]

theorem fair_handOver : ∃ s, Run.exec step { max := 3 } handOver = some s ∧ s.Fair := by
  have hcheck : Run.check step (fun s e ↦ decide (s.Threads e ∧ s.Fits e)) { max := 3 } handOver = true := by decide
  exact fair_of_run (by decide) (Run.Meets.of_check (fun _ _ ↦ of_decide_eq_true) hcheck)

/-- Two `take`s make the count negative. -/
theorem take_wraps : ¬∀ (m : ℤ) (es : List Event) (s : WaitingThrottle), 0 < m →
    Run.Meets step (fun s e ↦ s.Threads e) { max := m } es → Run.exec step { max := m } es = some s → s.Fair := by
  intro hall
  have hfair := hall 1 [.take (2 ^ 63 - 1), .take 1] _ (by decide) ?_ rfl
  · exact absurd hfair.books (by decide)
  · refine .cons ?_ rfl (.cons ?_ rfl trivial)
    · decide
    · decide

/-! ## Callbacks -/

/-- The count is what is out, a grant of no more than the maximum stays below it, every queued callback has run or is
in the queue, once, and the first one in the queue has to wait. -/
structure Accounted (s : WaitingThrottle) : Prop where
  books : s.count = s.out
  bounded : ∀ g ∈ s.grants, g.c ≤ g.max → g.count ≤ g.max
  once : s.queuedCallbacks.Nodup
  callbacks : s.queuedCallbacks.Perm
    (s.ran ++ (s.queue.filter fun w ↦ w.demand = .callback).map Waiter.ticket)
  first : ∀ w ws, s.queue = w :: ws → w.demand = .callback → s.shouldWait w.c

theorem Inv.accounted (h : s.Inv) : s.Accounted where
  books := h.1.books
  bounded := h.1.bounded
  once := h.1.once
  callbacks := h.1.callbacks
  first w ws hw hcallback := by
    by_contra hnot
    exact (h.2 w ws hw hnot).1 hcallback

/-- The books of a throttle with callbacks are right as long as no callback has to wait for units and no sum wraps
around. -/
theorem accounted_of_run {m : ℤ} (hm : 0 < m) {es : List Event} {s : WaitingThrottle}
    (hmeets : Run.Meets step (fun s e ↦ Asked e ∧ s.Fits e ∧ s.Passes e) { max := m } es)
    (hrun : Run.exec step { max := m } es = some s) : s.Accounted := by
  refine (Run.invariant_of_meets (fun s e t h hlegal hstep ↦ ?_) (inv_init hm) hmeets hrun).accounted
  obtain ⟨u, hu, hinv⟩ | ⟨-, -, -, hnone⟩ := h.step hlegal.1 hlegal.2.1 hlegal.2.2
  · exact Option.some.inj (hu.symm.trans hstep) ▸ hinv
  · exact absurd (hnone.symm.trans hstep) (by simp)

/-- A callback passes, and another one that asks for nothing waits for a thread that waits for units. -/
def zeroCallback : List Event := [.getCallback 3 0, .get 2 0, .getCallback 0 0, .put 3, .wake 1]

theorem accounted_zeroCallback : ∃ s, Run.exec step { max := 3 } zeroCallback = some s ∧ s.Accounted := by
  have hcheck : Run.check step (fun s e ↦ decide (Asked e ∧ s.Fits e ∧ s.Passes e)) { max := 3 } zeroCallback = true := by
    decide
  have hmax : (0 : ℤ) < 3 := by decide
  exact ⟨_, rfl, accounted_of_run hmax (Run.Meets.of_check (fun _ _ ↦ of_decide_eq_true) hcheck) rfl⟩

/-- A callback that has to wait is charged at once. -/
theorem waiting_callback_is_charged : ¬∀ (m : ℤ) (es : List Event) (s : WaitingThrottle), 0 < m →
    Run.Meets step (fun _ e ↦ Asked e) { max := m } es → Run.exec step { max := m } es = some s → s.Accounted := by
  intro hall
  have hbooks := (hall 1 [.getCallback 1 0, .getCallback 1 0] _ (by decide)
    (.cons (by decide) rfl (.cons (by decide) rfl trivial)) rfl).books
  exact absurd hbooks (by decide)

end WaitingThrottle

end AsyncMessenger
