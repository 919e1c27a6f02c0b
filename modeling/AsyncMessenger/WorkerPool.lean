import AsyncMessenger.EventCenter
import Mathlib.Algebra.BigOperators.Group.Finset.Piecewise
import Mathlib.Algebra.BigOperators.Group.Finset.Basic
import Mathlib.Algebra.Order.BigOperators.Group.Finset
import Mathlib.Data.Fintype.Basic
import Mathlib.Algebra.Ring.Int.Defs
import Mathlib.Algebra.Order.Group.Int

/-!
# The barrier of the worker pool

`WorkerPool::barrier` gives every worker an event that counts `barrier_count` down, and counts it up
for each of them; then it waits until the count is zero. It is what `shutdown` relies on: when it
returns, every worker is done with what it had been given before.

## The count

The count goes up only after the event has been dispatched, so it can be negative meanwhile. What it
says is

`barrier_count` + (threads between a dispatch and the increment) = (barrier events not executed
yet),

and this holds in every run. So a thread that finds zero may go on when no thread is between the
two.

## More than one barrier

When two threads use the barrier at the same time, this can fail, in both ways: one may go on too
early, and one may fall asleep after the last signal. `Alone` is the condition that they do not
overlap. Then a thread that sleeps has events before it that have still to be executed, and the
workers, by themselves, come to the end of what they have been given: each has its own loop, of
which a module of its own shows that it gets through the list of events it was handed.
-/

namespace AsyncMessenger

/-- What the workers are given. -/
inductive PoolEvent
  /-- `C_barrier`. -/
  | barrier
  | other (id : ℕ)
  deriving DecidableEq

/-- Where a thread is. -/
inductive ThreadPos (n : ℕ)
  | outside
  /-- In `dispatch_event_external`, with the event in the list of the worker. -/
  | handing (w : Fin n)
  /-- In the loop of `barrier`, at the worker of this index. -/
  | dispatching (i : ℕ)
  /-- In the `dispatch_event_external` of `barrier`. -/
  | waking (w : Fin n)
  /-- Before `barrier_count.inc()`. -/
  | counting (w : Fin n)
  /-- Before the condition of the last loop of `barrier`. -/
  | checking
  /-- In `barrier_cond.Wait`. -/
  | sleeping
  deriving DecidableEq

/-- `WorkerPool`, with the centers of its `n` workers, and the threads `τ` that use it. They are not
the threads of the workers, as `barrier` asserts. -/
structure WorkerPool (n : ℕ) (τ : Type) where
  center : Fin n → EventCenter PoolEvent := fun _ ↦ {}
  barrierCount : ℤ := 0
  pos : τ → ThreadPos n := fun _ ↦ .outside
  /-- History: what the workers had been given when the thread called `barrier`. -/
  mark : τ → Fin n → List PoolEvent := fun _ _ ↦ []

namespace ThreadPos

variable {n : ℕ}

/-- Between the dispatch of a barrier event and the increment. -/
def inFlight : ThreadPos n → ℤ
  | .waking _ => 1
  | .counting _ => 1
  | _ => 0

/-- How many workers have been given their event by this call of `barrier`. -/
def begun : ThreadPos n → ℕ
  | .outside => 0
  | .handing _ => 0
  | .dispatching i => i
  | .waking w => w + 1
  | .counting w => w + 1
  | .checking => n
  | .sleeping => n

/-- In a call of `barrier`. -/
def inBarrier : ThreadPos n → Bool
  | .outside => false
  | .handing _ => false
  | _ => true

/-- `barrier_cond.Signal()`, which wakes all who wait. -/
def signal : ThreadPos n → ThreadPos n
  | .sleeping => .checking
  | x => x

@[simp] theorem inFlight_signal (x : ThreadPos n) : x.signal.inFlight = x.inFlight := by
  cases x <;> rfl

@[simp] theorem begun_signal (x : ThreadPos n) : x.signal.begun = x.begun := by
  cases x <;> rfl

@[simp] theorem inBarrier_signal (x : ThreadPos n) : x.signal.inBarrier = x.inBarrier := by
  cases x <;> rfl

theorem signal_ne_sleeping (x : ThreadPos n) : x.signal ≠ .sleeping := by
  cases x <;> simp [signal]

theorem inFlight_eq_zero_of_outside {x : ThreadPos n} (h : x.inBarrier = false) : x.inFlight = 0 := by
  cases x <;> simp_all [inFlight, inBarrier]

end ThreadPos

namespace WorkerPool

variable {n : ℕ} {τ : Type} {p p' : WorkerPool n τ}

/-- What happens at the pool. -/
inductive Event (n : ℕ) (τ : Type)
  /-- A thread gives a worker some event. -/
  | dispatch (t : τ) (w : Fin n) (id : ℕ)
  /-- A thread calls `barrier`. -/
  | barrier (t : τ)
  /-- The next move of a thread that is inside a call. -/
  | advance (t : τ)
  /-- `Wait` returns without a signal. -/
  | rouse (t : τ)
  /-- The next move of a worker. -/
  | loop (w : Fin n) (other : Bool)

section Steps

variable [DecidableEq τ]

/-- The thread goes somewhere. -/
def go (p : WorkerPool n τ) (t : τ) (x : ThreadPos n) : WorkerPool n τ :=
  { p with pos := Function.update p.pos t x }

/-- The center of a worker changes. -/
def setCenter (p : WorkerPool n τ) (w : Fin n) (c : EventCenter PoolEvent) : WorkerPool n τ :=
  { p with center := Function.update p.center w c }

/-- The next move of a thread that is inside a call; `none` if it waits, or is in no call. -/
def advance (p : WorkerPool n τ) (t : τ) : Option (WorkerPool n τ) :=
  match p.pos t with
  | .outside => none
  | .handing w => some ((p.setCenter w (p.center w).wakeup).go t .outside)
  | .dispatching i =>
    if h : i < n then
      some ((p.setCenter ⟨i, h⟩ ((p.center ⟨i, h⟩).push .barrier)).go t (.waking ⟨i, h⟩))
    else some (p.go t .checking)
  | .waking w => some ((p.setCenter w (p.center w).wakeup).go t (.counting w))
  | .counting w => some ({ p with barrierCount := p.barrierCount + 1 }.go t (.dispatching (w + 1)))
  | .checking => some (p.go t (if p.barrierCount = 0 then .outside else .sleeping))
  | .sleeping => none

/-- `C_barrier::do_request`: under `barrier_lock`, the count goes down and the waiting threads are
woken. -/
def doRequest (p : WorkerPool n τ) : WorkerPool n τ :=
  { p with barrierCount := p.barrierCount - 1, pos := fun t ↦ (p.pos t).signal }

/-- One step. -/
def step (p : WorkerPool n τ) : Event n τ → Option (WorkerPool n τ)
  | .dispatch t w id =>
    if p.pos t = .outside then
      some ((p.setCenter w ((p.center w).push (.other id))).go t (.handing w))
    else none
  | .barrier t =>
    if p.pos t = .outside then
      some ({ p with mark := Function.update p.mark t fun w ↦ (p.center w).dispatched }.go t
        (.dispatching 0))
    else none
  | .advance t => p.advance t
  | .rouse t => if p.pos t = .sleeping then some (p.go t .checking) else none
  | .loop w other => ((p.center w).advance other).map fun c ↦
      (if (p.center w).loop = .running .barrier then p.doRequest else p).setCenter w c

end Steps

/-- The barrier events that a worker has still to execute. -/
def barriers (c : EventCenter PoolEvent) : ℤ := c.pending.count .barrier

/-- The threads between a dispatch and the increment. -/
def inFlight [Fintype τ] (p : WorkerPool n τ) : ℤ := ∑ t, (p.pos t).inFlight

/-- The barrier events that have still to be executed. -/
def owing (p : WorkerPool n τ) : ℤ := ∑ w, barriers (p.center w)

/-! ## Counting

Sums over the workers, of which a step changes one. -/

theorem sum_update {ι α : Type} [Fintype ι] [DecidableEq ι] (F : α → ℤ) (g : ι → α) (i : ι) (x : α) :
    ∑ j, F (Function.update g i x j) = ∑ j, F (g j) + F x - F (g i) := by
  have hupdate : (fun j ↦ F (Function.update g i x j)) = Function.update (fun j ↦ F (g j)) i (F x) := by
    funext j
    exact Function.apply_update (fun _ ↦ F) g i x j
  have hsplit := Finset.add_sum_erase Finset.univ (fun j ↦ F (g j)) (Finset.mem_univ i)
  rw [hupdate, Finset.sum_update_of_mem (Finset.mem_univ i), Finset.sdiff_singleton_eq_erase]
  omega

theorem owing_setCenter (p : WorkerPool n τ) (w : Fin n) (c : EventCenter PoolEvent) :
    (p.setCenter w c).owing = p.owing + barriers c - barriers (p.center w) :=
  sum_update barriers p.center w c

theorem barriers_nonneg (c : EventCenter PoolEvent) : 0 ≤ barriers c := Int.natCast_nonneg _

theorem barriers_push_barrier (c : EventCenter PoolEvent) : barriers
    (c.push .barrier) = barriers c + 1 := by
  simp only [barriers, EventCenter.pending, EventCenter.push, List.count_append, List.count_singleton_self]
  push_cast
  omega

theorem barriers_push_other (c : EventCenter PoolEvent) (id : ℕ) :
    barriers (c.push (.other id)) = barriers c := by
  simp [barriers, EventCenter.pending, EventCenter.push]

@[simp] theorem barriers_wakeup (c : EventCenter PoolEvent) : barriers c.wakeup = barriers c := rfl

/-- A barrier event has been executed when the loop leaves it. -/
theorem barriers_advance {c c' : EventCenter PoolEvent} {other : Bool} (h : c.advance other = some c') :
    barriers c' = barriers c - if c.loop = .running .barrier then 1 else 0 := by
  rcases EventCenter.advance_cases h with ⟨hloop, rfl⟩ | ⟨hloop, hevents, rfl⟩ |
    ⟨e, rest, hloop, hevents, rfl⟩ | ⟨e, hloop, rfl⟩
  · simp [barriers, EventCenter.pending, hloop, LoopPos.held]
  · simp [barriers, EventCenter.pending, hloop, LoopPos.held]
  · simp [barriers, EventCenter.pending, hloop, hevents, LoopPos.held]
  · cases e with
    | barrier => simp [barriers, EventCenter.pending, hloop, LoopPos.held]
    | other id => simp [barriers, EventCenter.pending, hloop, LoopPos.held]

/-! ## What holds in every run

`Marked` follows a single thread through its barrier: which workers have got its event, and what
they had been given before. The invariant is that of all the threads together, with the count. -/

/-- What a thread has done at position `x` in its call of `barrier`. -/
structure Marked (center : Fin n → EventCenter PoolEvent) (x : ThreadPos n) (mark : Fin n → List PoolEvent) :
    Prop where
  kept : x.inBarrier = true → ∀ w, mark w <+: (center w).dispatched
  begun : ∀ w : Fin n, ↑w < x.begun → ∃ l, mark w ++ l ++ [.barrier] <+: (center w).dispatched

theorem Marked.mono {center center' : Fin n → EventCenter PoolEvent} {x x' : ThreadPos n}
    {mark : Fin n → List PoolEvent} (h : Marked center x mark)
    (hgrow : ∀ w, (center w).dispatched <+: (center' w).dispatched) (hbegun : x'.begun ≤ x.begun)
    (hin : x'.inBarrier = true → x.inBarrier = true) : Marked center' x' mark := by
  refine ⟨fun hx w ↦ (h.kept (hin hx) w).trans (hgrow w), fun w hw ↦ ?_⟩
  obtain ⟨l, hl⟩ := h.begun w (lt_of_lt_of_le hw hbegun)
  exact ⟨l, hl.trans (hgrow w)⟩

theorem Marked.of_outside {center : Fin n → EventCenter PoolEvent} {x : ThreadPos n}
    {mark : Fin n → List PoolEvent} (hx : x.inBarrier = false) : Marked center x mark := by
  refine ⟨fun h ↦ absurd (hx.symm.trans h) (by decide), fun w hw ↦ ?_⟩
  cases x <;> simp_all [ThreadPos.inBarrier, ThreadPos.begun]

/-- The next worker gets its event. -/
theorem Marked.push {center : Fin n → EventCenter PoolEvent} {mark : Fin n → List PoolEvent} {i : Fin n}
    (h : Marked center (.dispatching i) mark) :
    Marked (Function.update center i ((center i).push .barrier)) (.waking i) mark := by
  have hgrow (w : Fin n) : (center w).dispatched <+:
      (Function.update center i ((center i).push .barrier) w).dispatched := by
    rcases eq_or_ne w i with rfl | hne
    · rw [Function.update_self]
      exact List.prefix_append _ _
    · rw [Function.update_of_ne hne]
  refine ⟨fun _ w ↦ (h.kept rfl w).trans (hgrow w), fun w hw ↦ ?_⟩
  rcases eq_or_ne w i with rfl | hne
  · -- what lies between is what others have dispatched since the call
    obtain ⟨l, hl⟩ := h.kept rfl w
    refine ⟨l, ?_⟩
    rw [Function.update_self, hl]
    exact List.prefix_rfl
  · obtain ⟨l, hl⟩ := h.begun w (lt_of_le_of_ne (Nat.le_of_lt_succ hw) (Fin.val_ne_of_ne hne))
    exact ⟨l, hl.trans (hgrow w)⟩

@[simp] theorem setCenter_center_self (p : WorkerPool n τ) (w : Fin n) (c : EventCenter PoolEvent) :
    (p.setCenter w c).center w = c := by
  dsimp only [setCenter]
  rw [Function.update_self]

theorem setCenter_center_of_ne (p : WorkerPool n τ) {v w : Fin n} (c : EventCenter PoolEvent)
    (h : v ≠ w) :
    (p.setCenter w c).center v = p.center v := by
  dsimp only [setCenter]
  rw [Function.update_of_ne h]

theorem centers_setCenter (h : ∀ w, (p.center w).Inv) {w : Fin n} {c : EventCenter PoolEvent}
    (hc : c.Inv)
    (v : Fin n) : ((p.setCenter w c).center v).Inv := by
  rcases eq_or_ne v w with rfl | hne
  · rw [setCenter_center_self]
    exact hc
  · rw [setCenter_center_of_ne _ _ hne]
    exact h v

theorem dispatched_setCenter {w : Fin n} {c : EventCenter PoolEvent}
    (hc : (p.center w).dispatched <+: c.dispatched) (v : Fin n) :
    (p.center v).dispatched <+: ((p.setCenter w c).center v).dispatched := by
  rcases eq_or_ne v w with rfl | hne
  · rw [setCenter_center_self]
    exact hc
  · rw [setCenter_center_of_ne _ _ hne]

section Moves

variable [DecidableEq τ]

@[simp] theorem go_center (p : WorkerPool n τ) (t : τ) (x : ThreadPos n) :
    (p.go t x).center = p.center := rfl

@[simp] theorem go_mark (p : WorkerPool n τ) (t : τ) (x : ThreadPos n) : (p.go t x).mark = p.mark := rfl

@[simp] theorem go_barrierCount (p : WorkerPool n τ) (t : τ) (x : ThreadPos n) :
    (p.go t x).barrierCount = p.barrierCount := rfl

theorem go_pos_self (p : WorkerPool n τ) (t : τ) (x : ThreadPos n) : (p.go t x).pos t = x := by
  dsimp only [go]
  rw [Function.update_self]

theorem go_pos_of_ne (p : WorkerPool n τ) {t u : τ} (x : ThreadPos n) (h : u ≠ t) :
    (p.go t x).pos u = p.pos u := by
  dsimp only [go]
  rw [Function.update_of_ne h]

/-- A move of one thread, which leaves the marks of the others alone. -/
theorem marked_go (h : ∀ t, Marked p.center (p.pos t) (p.mark t)) {q : WorkerPool n τ} {t : τ}
    {x : ThreadPos n} (hgrow : ∀ w, (p.center w).dispatched <+: (q.center w).dispatched)
    (hpos : q.pos = p.pos) (hmark : ∀ u, u ≠ t → q.mark u = p.mark u) (ht : Marked q.center x (q.mark t)) :
    ∀ u, Marked (q.go t x).center ((q.go t x).pos u) ((q.go t x).mark u) := by
  intro u
  rcases eq_or_ne u t with rfl | hne
  · rw [go_pos_self]
    exact ht
  · rw [go_pos_of_ne _ _ hne, hpos, go_mark, hmark u hne]
    exact (h u).mono hgrow le_rfl id

@[simp] theorem owing_go (p : WorkerPool n τ) (t : τ) (x : ThreadPos n) :
    (p.go t x).owing = p.owing := rfl

/-- What a thread inside a call can do next. -/
theorem advance_cases {t : τ} (h : p.advance t = some p') :
    (∃ w, p.pos t = .handing w ∧ p' = (p.setCenter w (p.center w).wakeup).go t .outside) ∨
    (∃ i : Fin n, p.pos t = .dispatching i ∧
      p' = (p.setCenter i ((p.center i).push .barrier)).go t (.waking i)) ∨
    (∃ i, p.pos t = .dispatching i ∧ n ≤ i ∧ p' = p.go t .checking) ∨
    (∃ w, p.pos t = .waking w ∧ p' = (p.setCenter w (p.center w).wakeup).go t (.counting w)) ∨
    (∃ w, p.pos t = .counting w ∧
      p' = { p with barrierCount := p.barrierCount + 1 }.go t (.dispatching (w + 1))) ∨
    (p.pos t = .checking ∧ p' = p.go t (if p.barrierCount = 0 then .outside else .sleeping)) := by
  rw [advance] at h
  split at h <;> rename_i hpos
  · cases h
  · exact Or.inl ⟨_, hpos, (Option.some_inj.mp h).symm⟩
  · split at h <;> rename_i i hi
    · exact Or.inr (Or.inl ⟨⟨_, hi⟩, hpos, (Option.some_inj.mp h).symm⟩)
    · exact Or.inr (Or.inr (Or.inl ⟨_, hpos, not_lt.mp hi, (Option.some_inj.mp h).symm⟩))
  · exact Or.inr (Or.inr (Or.inr (Or.inl ⟨_, hpos, (Option.some_inj.mp h).symm⟩)))
  · exact Or.inr (Or.inr (Or.inr (Or.inr (Or.inl ⟨_, hpos, (Option.some_inj.mp h).symm⟩))))
  · exact Or.inr (Or.inr (Or.inr (Or.inr (Or.inr ⟨hpos, (Option.some_inj.mp h).symm⟩))))
  · cases h

theorem sleeping_of_go {t u : τ} {x : ThreadPos n} (h : (p.go t x).pos u = .sleeping)
    (hx : x ≠ .sleeping) : u ≠ t ∧ p.pos u = .sleeping := by
  rcases eq_or_ne u t with rfl | hne
  · rw [go_pos_self] at h
    exact absurd h hx
  · rw [go_pos_of_ne _ _ hne] at h
    exact ⟨hne, h⟩

theorem inBarrier_of_go {t u : τ} {x : ThreadPos n}
    (hx : x.inBarrier = true → (p.pos t).inBarrier = true) (h : ((p.go t x).pos u).inBarrier = true) :
    (p.pos u).inBarrier = true := by
  rcases eq_or_ne u t with rfl | hne
  · rw [go_pos_self] at h
    exact hx h
  · rwa [go_pos_of_ne _ _ hne] at h

end Moves

variable [Fintype τ]

@[simp] theorem inFlight_setCenter (p : WorkerPool n τ) (w : Fin n) (c : EventCenter PoolEvent) :
    (p.setCenter w c).inFlight = p.inFlight := rfl

@[simp] theorem inFlight_doRequest (p : WorkerPool n τ) : p.doRequest.inFlight = p.inFlight :=
  Finset.sum_congr rfl fun t _ ↦ ThreadPos.inFlight_signal (p.pos t)

/-- What holds in every run. -/
structure Inv (p : WorkerPool n τ) : Prop where
  centers : ∀ w, (p.center w).Inv
  count : p.barrierCount + p.inFlight = p.owing
  marked : ∀ t, Marked p.center (p.pos t) (p.mark t)

theorem inv_start : ({} : WorkerPool n τ).Inv :=
  ⟨fun _ ↦ EventCenter.inv_start,
    by simp [inFlight, owing, ThreadPos.inFlight, barriers, EventCenter.pending, LoopPos.held],
    fun _ ↦ Marked.of_outside rfl⟩

variable [DecidableEq τ]

theorem inFlight_go (p : WorkerPool n τ) (t : τ) (x : ThreadPos n) :
    (p.go t x).inFlight = p.inFlight + x.inFlight - (p.pos t).inFlight :=
  sum_update ThreadPos.inFlight p.pos t x

/-- A thread that is in no call of `barrier`, before and after, gives a worker something. -/
theorem Inv.hand (h : p.Inv) {t : τ} {w : Fin n} {c : EventCenter PoolEvent} {x : ThreadPos n}
    (hc : c.Inv)
    (hgrow : (p.center w).dispatched <+: c.dispatched) (hbarriers : barriers c = barriers (p.center w))
    (hpos : (p.pos t).inBarrier = false) (hx : x.inBarrier = false) : ((p.setCenter w c).go t x).Inv := by
  refine ⟨centers_setCenter h.centers hc, ?_,
    marked_go h.marked (dispatched_setCenter hgrow) rfl (fun _ _ ↦ rfl) (Marked.of_outside hx)⟩
  have hcount := h.count
  rw [go_barrierCount, inFlight_go, owing_go, owing_setCenter, hbarriers, inFlight_setCenter,
    ThreadPos.inFlight_eq_zero_of_outside hx]
  have hflight : ((p.setCenter w c).pos t).inFlight = 0 := ThreadPos.inFlight_eq_zero_of_outside hpos
  have hkeep : (p.setCenter w c).barrierCount = p.barrierCount := rfl
  omega

theorem Inv.advance (h : p.Inv) {t : τ} (hstep : p.advance t = some p') : p'.Inv := by
  have hcount := h.count
  have ht := h.marked t
  rcases advance_cases hstep with ⟨w, hpos, rfl⟩ | ⟨i, hpos, rfl⟩ | ⟨i, hpos, hi, rfl⟩ | ⟨w, hpos, rfl⟩ |
    ⟨w, hpos, rfl⟩ | ⟨hpos, rfl⟩
  · exact h.hand (h.centers w).wakeup List.prefix_rfl (barriers_wakeup _) (hpos ▸ rfl) rfl
  · rw [hpos] at ht
    refine ⟨centers_setCenter h.centers ((h.centers i).push .barrier), ?_,
      marked_go h.marked (dispatched_setCenter (List.prefix_append _ _)) rfl (fun _ _ ↦ rfl) ht.push⟩
    -- both sides go up by one: there is one more event, and one more thread in flight
    have hflight : (p.pos t).inFlight = 0 := hpos ▸ rfl
    change p.barrierCount + _ = _
    rw [inFlight_go, owing_go, owing_setCenter, barriers_push_barrier, inFlight_setCenter]
    change p.barrierCount + (p.inFlight + 1 - (p.pos t).inFlight) = _
    omega
  · rw [hpos] at ht
    refine ⟨h.centers, ?_, marked_go h.marked (fun _ ↦ List.prefix_rfl) rfl (fun _ _ ↦ rfl)
      (ht.mono (fun _ ↦ List.prefix_rfl) hi fun _ ↦ rfl)⟩
    rw [go_barrierCount, inFlight_go, owing_go, hpos]
    change p.barrierCount + (p.inFlight + 0 - 0) = _
    omega
  · rw [hpos] at ht
    refine ⟨centers_setCenter h.centers (h.centers w).wakeup, ?_, marked_go h.marked
      (dispatched_setCenter List.prefix_rfl) rfl (fun _ _ ↦ rfl)
      (ht.mono (dispatched_setCenter List.prefix_rfl) le_rfl fun _ ↦ rfl)⟩
    have hflight : (p.pos t).inFlight = 1 := hpos ▸ rfl
    change p.barrierCount + _ = _
    rw [inFlight_go, owing_go, owing_setCenter, barriers_wakeup, inFlight_setCenter]
    change p.barrierCount + (p.inFlight + 1 - (p.pos t).inFlight) = _
    omega
  · rw [hpos] at ht
    refine ⟨h.centers, ?_, marked_go h.marked (fun _ ↦ List.prefix_rfl) rfl (fun _ _ ↦ rfl)
      (ht.mono (fun _ ↦ List.prefix_rfl) le_rfl fun _ ↦ rfl)⟩
    -- the thread is no longer in flight, and the count says so
    have hflight : (p.pos t).inFlight = 1 := hpos ▸ rfl
    rw [inFlight_go, owing_go]
    change p.barrierCount + 1 + (p.inFlight + 0 - (p.pos t).inFlight) = p.owing
    omega
  · rw [hpos] at ht
    have hflight : (p.pos t).inFlight = 0 := hpos ▸ rfl
    by_cases hzero : p.barrierCount = 0
    · rw [if_pos hzero]
      refine ⟨h.centers, ?_, marked_go h.marked (fun _ ↦ List.prefix_rfl) rfl (fun _ _ ↦ rfl)
        (Marked.of_outside rfl)⟩
      rw [inFlight_go, owing_go]
      change p.barrierCount + (p.inFlight + 0 - (p.pos t).inFlight) = _
      omega
    · rw [if_neg hzero]
      refine ⟨h.centers, ?_, marked_go h.marked (fun _ ↦ List.prefix_rfl) rfl (fun _ _ ↦ rfl)
        (ht.mono (fun _ ↦ List.prefix_rfl) le_rfl fun _ ↦ rfl)⟩
      rw [inFlight_go, owing_go]
      change p.barrierCount + (p.inFlight + 0 - (p.pos t).inFlight) = _
      omega

omit [DecidableEq τ] in
theorem Inv.doRequest_setCenter (h : p.Inv) {w : Fin n} {c : EventCenter PoolEvent} {other : Bool}
    (hstep : (p.center w).advance other = some c) (hloop : (p.center w).loop = .running .barrier) :
    (p.doRequest.setCenter w c).Inv := by
  have hgrow : (p.center w).dispatched <+: c.dispatched := by
    rw [EventCenter.dispatched_advance hstep]
  refine ⟨centers_setCenter h.centers ((h.centers w).advance hstep), ?_, fun t ↦ ?_⟩
  · have hcount := h.count
    have hbarriers := barriers_advance hstep
    rw [if_pos hloop] at hbarriers
    rw [inFlight_setCenter, inFlight_doRequest, owing_setCenter, hbarriers]
    change p.barrierCount - 1 + p.inFlight = p.owing + _ - barriers (p.center w)
    omega
  · exact (h.marked t).mono (dispatched_setCenter (p := p.doRequest) hgrow)
      (ThreadPos.begun_signal (p.pos t)).le fun hin ↦ (ThreadPos.inBarrier_signal (p.pos t)).symm.trans hin

omit [DecidableEq τ] in
theorem Inv.loop (h : p.Inv) {w : Fin n} {c : EventCenter PoolEvent} {other : Bool}
    (hstep : (p.center w).advance other = some c) :
    ((if (p.center w).loop = .running .barrier then p.doRequest else p).setCenter w c).Inv := by
  by_cases hloop : (p.center w).loop = .running .barrier
  · rw [if_pos hloop]
    exact h.doRequest_setCenter hstep hloop
  · have hgrow : (p.center w).dispatched <+: c.dispatched := by
      rw [EventCenter.dispatched_advance hstep]
    rw [if_neg hloop]
    refine ⟨centers_setCenter h.centers ((h.centers w).advance hstep), ?_, fun t ↦
      (h.marked t).mono (dispatched_setCenter hgrow) le_rfl id⟩
    have hcount := h.count
    have hbarriers := barriers_advance hstep
    rw [if_neg hloop] at hbarriers
    rw [inFlight_setCenter, owing_setCenter, hbarriers]
    change p.barrierCount + p.inFlight = _
    omega

theorem inv_step {e : Event n τ} (h : p.Inv) (hstep : p.step e = some p') : p'.Inv := by
  cases e with
  | dispatch t w id =>
    rw [step] at hstep
    split_ifs at hstep with hpos
    obtain rfl := Option.some_inj.mp hstep
    exact h.hand ((h.centers w).push _) (List.prefix_append _ _) (barriers_push_other _ id) (hpos ▸ rfl) rfl
  | barrier t =>
    rw [step] at hstep
    split_ifs at hstep with hpos
    obtain rfl := Option.some_inj.mp hstep
    refine ⟨h.centers, ?_, marked_go h.marked (fun _ ↦ List.prefix_rfl) rfl
      (fun u hne ↦ Function.update_of_ne hne _ p.mark) ⟨fun _ w ↦ ?_, fun w hw ↦ absurd hw (Nat.not_lt_zero _)⟩⟩
    · have hcount := h.count
      have hflight : (p.pos t).inFlight = 0 := hpos ▸ rfl
      rw [inFlight_go, owing_go]
      change p.barrierCount + (p.inFlight + 0 - (p.pos t).inFlight) = p.owing
      omega
    · dsimp only
      rw [Function.update_self]
  | advance t => exact h.advance hstep
  | rouse t =>
    rw [step] at hstep
    split_ifs at hstep with hpos
    obtain rfl := Option.some_inj.mp hstep
    have ht := h.marked t
    rw [hpos] at ht
    refine ⟨h.centers, ?_, marked_go h.marked (fun _ ↦ List.prefix_rfl) rfl (fun _ _ ↦ rfl)
      (ht.mono (fun _ ↦ List.prefix_rfl) le_rfl fun _ ↦ rfl)⟩
    have hcount := h.count
    have hflight : (p.pos t).inFlight = 0 := hpos ▸ rfl
    rw [inFlight_go, owing_go]
    change p.barrierCount + (p.inFlight + 0 - (p.pos t).inFlight) = p.owing
    omega
  | loop w other =>
    rw [step, Option.map_eq_some_iff] at hstep
    obtain ⟨c, hc, rfl⟩ := hstep
    exact h.loop hc

omit [DecidableEq τ] in
/-- A thread that finds the count at zero, while no thread is in flight, has waited for everything
that was dispatched before it called `barrier`. -/
theorem Inv.executed (h : p.Inv) {t : τ} (hpos : p.pos t = .checking) (hzero : p.barrierCount = 0)
    (hflight : p.inFlight = 0) (w : Fin n) : p.mark t w <+: (p.center w).executed := by
  have hcount := h.count
  rw [hzero, hflight, add_zero] at hcount
  -- no worker has a barrier event to execute
  have hnone : barriers (p.center w) = 0 :=
    (Finset.sum_eq_zero_iff_of_nonneg fun v _ ↦ barriers_nonneg (p.center v)).mp hcount.symm w
      (Finset.mem_univ w)
  have hbegun : ↑w < (p.pos t).begun := by
    rw [hpos]
    exact w.isLt
  obtain ⟨l, hl⟩ := (h.marked t).begun w hbegun
  rw [(h.centers w).accounts] at hl
  have hmark : p.mark t w <+: p.mark t w ++ l := List.prefix_append _ _
  rcases List.prefix_or_prefix_of_prefix ((List.prefix_append _ _).trans hl)
    (List.prefix_append (p.center w).executed _) with hle | ⟨rest, hrest⟩
  · exact hmark.trans hle
  · -- the barrier event would have to be among the pending ones
    rw [← hrest, List.append_assoc, List.prefix_append_right_inj] at hl
    have hmem : PoolEvent.barrier ∈ (p.center w).pending :=
      hl.subset (List.mem_append_right _ List.mem_cons_self)
    rw [barriers, Int.natCast_eq_zero, List.count_eq_zero] at hnone
    exact absurd hmem hnone

/-! ## One barrier at a time

With no other thread inside, the count is never negative where it is looked at, and zero only when
all is done. -/

/-- A thread calls `barrier` only while no other thread is in it. -/
def Alone (p : WorkerPool n τ) : Event n τ → Prop
  | .barrier t => ∀ u, u ≠ t → (p.pos u).inBarrier = false
  | _ => True

instance (p : WorkerPool n τ) : ∀ e, Decidable (p.Alone e)
  | .barrier t => inferInstanceAs (Decidable (∀ u, u ≠ t → (p.pos u).inBarrier = false))
  | .dispatch _ _ _ => isTrue trivial
  | .advance _ => isTrue trivial
  | .rouse _ => isTrue trivial
  | .loop _ _ => isTrue trivial

/-- What holds as long as the barriers do not overlap. -/
structure Single (p : WorkerPool n τ) : Prop extends p.Inv where
  alone : ∀ t u, (p.pos t).inBarrier = true → (p.pos u).inBarrier = true → t = u
  /-- A waiting thread has something to wait for. -/
  waits : ∀ t, p.pos t = .sleeping → p.barrierCount ≠ 0

omit [DecidableEq τ] in
theorem Single.inFlight_eq_zero (h : p.Single) {t : τ} (hin : (p.pos t).inBarrier = true)
    (hflight : (p.pos t).inFlight = 0) : p.inFlight = 0 := by
  refine Finset.sum_eq_zero fun u _ ↦ ?_
  rcases eq_or_ne t u with rfl | hne
  · exact hflight
  · -- another thread is in no call of the barrier
    have hout : (p.pos u).inBarrier = false := by
      by_contra hu
      exact hne (h.alone t u hin (Bool.not_eq_false _ ▸ hu))
    exact ThreadPos.inFlight_eq_zero_of_outside hout

omit [DecidableEq τ] in
theorem Single.alone_of_le (h : p.Single)
    (hle : ∀ u, (p'.pos u).inBarrier = true → (p.pos u).inBarrier = true) (t u : τ)
    (ht : (p'.pos t).inBarrier = true) (hu : (p'.pos u).inBarrier = true) : t = u :=
  h.alone t u (hle t ht) (hle u hu)

theorem Single.advance (h : p.Single) {t : τ} (hstep : p.advance t = some p') : p'.Single := by
  have hinv := h.toInv.advance hstep
  rcases advance_cases hstep with ⟨w, hpos, rfl⟩ | ⟨i, hpos, rfl⟩ | ⟨i, hpos, hi, rfl⟩ | ⟨w, hpos, rfl⟩ |
    ⟨w, hpos, rfl⟩ | ⟨hpos, rfl⟩
  · exact ⟨hinv, h.alone_of_le fun _ ↦ inBarrier_of_go (fun hx ↦ (nomatch hx)),
      fun u hu ↦ h.waits u (sleeping_of_go hu nofun).2⟩
  · exact ⟨hinv, h.alone_of_le fun _ ↦ inBarrier_of_go fun _ ↦ hpos ▸ rfl,
      fun u hu ↦ h.waits u (sleeping_of_go hu nofun).2⟩
  · exact ⟨hinv, h.alone_of_le fun _ ↦ inBarrier_of_go fun _ ↦ hpos ▸ rfl,
      fun u hu ↦ h.waits u (sleeping_of_go hu nofun).2⟩
  · exact ⟨hinv, h.alone_of_le fun _ ↦ inBarrier_of_go fun _ ↦ hpos ▸ rfl,
      fun u hu ↦ h.waits u (sleeping_of_go hu nofun).2⟩
  · refine ⟨hinv, h.alone_of_le fun _ ↦ inBarrier_of_go fun _ ↦ hpos ▸ rfl, fun u hu ↦ ?_⟩
    -- the only thread in the barrier is the one that counts, so no thread sleeps
    obtain ⟨hne, hsleep⟩ := sleeping_of_go hu nofun
    exact absurd (h.alone u t (hsleep ▸ rfl) (hpos ▸ rfl)) hne
  · refine ⟨hinv, h.alone_of_le fun _ ↦ inBarrier_of_go fun _ ↦ hpos ▸ rfl, fun u hu ↦ ?_⟩
    by_cases hzero : p.barrierCount = 0
    · rw [if_pos hzero] at hu
      exact h.waits u (sleeping_of_go hu nofun).2
    · exact hzero

theorem single_step {e : Event n τ} (h : p.Single) (halone : p.Alone e) (hstep : p.step e = some p') :
    p'.Single := by
  have hinv := inv_step h.toInv hstep
  cases e with
  | dispatch t w id =>
    rw [step] at hstep
    split_ifs at hstep with hpos
    obtain rfl := Option.some_inj.mp hstep
    exact ⟨hinv, h.alone_of_le fun _ ↦ inBarrier_of_go (fun hx ↦ (nomatch hx)),
      fun u hu ↦ h.waits u (sleeping_of_go hu nofun).2⟩
  | barrier t =>
    rw [step] at hstep
    split_ifs at hstep with hpos
    obtain rfl := Option.some_inj.mp hstep
    have honly (u : τ) (hu : ((p.go t (.dispatching 0)).pos u).inBarrier = true) : u = t := by
      by_contra hne
      rw [go_pos_of_ne _ _ hne] at hu
      exact absurd (hu.symm.trans (halone u hne)) (by decide)
    exact ⟨hinv, fun u v hu hv ↦ (honly u hu).trans (honly v hv).symm,
      fun u hu ↦ h.waits u (sleeping_of_go hu nofun).2⟩
  | advance t => exact h.advance hstep
  | rouse t =>
    rw [step] at hstep
    split_ifs at hstep with hpos
    obtain rfl := Option.some_inj.mp hstep
    exact ⟨hinv, h.alone_of_le fun _ ↦ inBarrier_of_go fun _ ↦ hpos ▸ rfl,
      fun u hu ↦ h.waits u (sleeping_of_go hu nofun).2⟩
  | loop w other =>
    rw [step, Option.map_eq_some_iff] at hstep
    obtain ⟨c, hc, rfl⟩ := hstep
    by_cases hloop : (p.center w).loop = .running .barrier
    · rw [if_pos hloop] at hinv ⊢
      -- `Signal` leaves nobody asleep
      refine ⟨hinv, h.alone_of_le fun u hu ↦ ?_, fun u hu ↦ absurd hu (p.pos u).signal_ne_sleeping⟩
      exact (ThreadPos.inBarrier_signal (p.pos u)).symm.trans hu
    · rw [if_neg hloop] at hinv ⊢
      exact ⟨hinv, h.alone_of_le fun _ ↦ id, h.waits⟩

/-! ## The barrier comes to an end

Progress. The loops of the workers are run one after the other until nothing is left, which wakes
the thread, if it sleeps. -/

/-- The thread is at the end of its barrier, and no thread is inside `dispatch_event_external`. -/
structure Ending (p : WorkerPool n τ) (t : τ) : Prop extends p.Single where
  atEnd : p.pos t = .checking ∨ p.pos t = .sleeping
  handed : ∀ w, (p.center w).waking = 0

/-- A worker's own moves, seen in the pool. -/
theorem exists_run_loops {t : τ} {w : Fin n} {k : ℕ} {c : EventCenter PoolEvent} (h : p.Single)
    (hend : p.pos t = .checking ∨ p.pos t = .sleeping)
    (hrun : Run.exec EventCenter.step (p.center w) (List.replicate k (.loop false)) = some c) :
    ∃ p', Run.exec step p (List.replicate k (.loop w false)) = some p' ∧ p'.Single ∧
      (p'.pos t = .checking ∨ p'.pos t = .sleeping) ∧ p'.center = Function.update p.center w c := by
  induction k generalizing p with
  | zero =>
    obtain rfl := Option.some_inj.mp hrun
    exact ⟨p, rfl, h, hend, (Function.update_eq_self w p.center).symm⟩
  | succ k ih =>
    rw [List.replicate_succ, Run.exec_cons, Option.bind_eq_some_iff] at hrun
    obtain ⟨d, hd, hrest⟩ := hrun
    have hd' : (p.center w).advance false = some d := hd
    have hstep : p.step (.loop w false) = some
        ((if (p.center w).loop = .running .barrier then p.doRequest else p).setCenter w d) := by
      rw [step, hd', Option.map_some]
    generalize hq : (if (p.center w).loop = .running .barrier then p.doRequest else p).setCenter w d = q at hstep
    have hcenter : q.center = Function.update p.center w d := by
      rw [← hq]
      split_ifs <;> rfl
    have hpos : q.pos t = .checking ∨ q.pos t = .sleeping := by
      rw [← hq]
      split_ifs
      · left
        change (p.pos t).signal = .checking
        rcases hend with hend | hend <;> rw [hend] <;> rfl
      · exact hend
    rw [← Function.update_self w d p.center, ← hcenter] at hrest
    obtain ⟨p', hrun', hsingle, hend', hcenter'⟩ :=
      ih (single_step (e := .loop w false) h trivial hstep) hpos hrest
    refine ⟨p', ?_, hsingle, hend', ?_⟩
    · rw [List.replicate_succ, Run.exec_cons, hstep, Option.bind_some, hrun']
    · rw [hcenter', hcenter, Function.update_idem]

/-- The workers by themselves come to the end of what they have been given. -/
theorem Ending.exists_emptied {t : τ} (h : p.Ending t) (ws : List (Fin n)) :
    ∃ es p', (∀ e ∈ es, ∃ w, e = Event.loop w false) ∧ Run.exec step p es = some p' ∧ p'.Ending t ∧
      ∀ w ∈ ws, (p'.center w).pending = [] := by
  induction ws with
  | nil =>
    exact ⟨[], p, fun _ hmem ↦ absurd hmem List.not_mem_nil, rfl, h,
      fun _ hmem ↦ absurd hmem List.not_mem_nil⟩
  | cons w ws ih =>
    obtain ⟨es, q, hloops, hrun, hq, hempty⟩ := ih
    obtain ⟨k, c, hc, hpending, hwaking⟩ := (hq.centers w).exists_emptied (hq.handed w)
    obtain ⟨p', hrun', hsingle, hend, hcenter⟩ := exists_run_loops hq.toSingle hq.atEnd hc
    refine ⟨es ++ List.replicate k (.loop w false), p', fun e he ↦ ?_, ?_, ⟨hsingle, hend, fun v ↦ ?_⟩,
      fun v hv ↦ ?_⟩
    · rcases List.mem_append.mp he with he | he
      · exact hloops e he
      · exact ⟨w, List.eq_of_mem_replicate he⟩
    · rw [Run.exec_append, hrun, Option.bind_some, hrun']
    · rcases eq_or_ne v w with rfl | hne
      · rw [hcenter, Function.update_self, hwaking]
      · rw [hcenter, Function.update_of_ne hne, hq.handed v]
    · rcases eq_or_ne v w with rfl | hne
      · rw [hcenter, Function.update_self, hpending]
      · rw [hcenter, Function.update_of_ne hne]
        exact hempty v ((List.mem_cons.mp hv).resolve_left hne)

theorem Ending.exists_returned {t : τ} (h : p.Ending t) :
    ∃ es p', (∀ e ∈ es, ∃ w, e = Event.loop w false) ∧
      Run.exec step p (es ++ [.advance t]) = some p' ∧ p'.pos t = .outside := by
  obtain ⟨es, q, hloops, hrun, hq, hempty⟩ := h.exists_emptied (List.finRange n)
  have howing : q.owing = 0 := Finset.sum_eq_zero fun w _ ↦ by
    rw [barriers, hempty w (List.mem_finRange w), List.count_nil, Nat.cast_zero]
  have hin : (q.pos t).inBarrier = true := by
    rcases hq.atEnd with hpos | hpos <;> rw [hpos] <;> rfl
  have hflight : q.inFlight = 0 := hq.inFlight_eq_zero hin (by
    rcases hq.atEnd with hpos | hpos <;> rw [hpos] <;> rfl)
  have hcount := hq.count
  have hzero : q.barrierCount = 0 := by omega
  have hpos : q.pos t = .checking := hq.atEnd.resolve_right fun hsleep ↦ hq.waits t hsleep hzero
  have hstep : q.step (.advance t) = some (q.go t .outside) := by
    rw [step, WorkerPool.advance, hpos, hzero]
    rfl
  refine ⟨es, q.go t .outside, hloops, ?_, go_pos_self _ _ _⟩
  rw [Run.exec_append, hrun, Option.bind_some, Run.exec_cons, hstep, Option.bind_some, Run.exec_nil]

omit [DecidableEq τ] in
theorem single_start : ({} : WorkerPool n τ).Single :=
  ⟨inv_start, fun _ _ h ↦ (nomatch h), fun _ h ↦ (nomatch h)⟩

/-- **The barrier.** In every run in which barriers do not overlap: when a thread leaves its
barrier, every worker has executed all that had been dispatched to it before the call; and from
wherever a thread checks the count or waits, with no thread inside `dispatch_event_external`, the
workers' loops by themselves bring it out of the barrier. -/
theorem barrier_flushes {es : List (Event n τ)} {t : τ}
    (halone : Run.Meets step Alone ({} : WorkerPool n τ) es)
    (hrun : Run.exec step ({} : WorkerPool n τ) es = some p) :
    (∀ p', p.pos t = .checking → p.step (.advance t) = some p' → p'.pos t = .outside →
      ∀ w, p.mark t w <+: (p.center w).executed) ∧
    ((p.pos t = .checking ∨ p.pos t = .sleeping) → (∀ w, (p.center w).waking = 0) →
      ∃ fs p', (∀ e ∈ fs, ∃ w, e = Event.loop w false) ∧
        Run.exec step p (fs ++ [.advance t]) = some p' ∧ p'.pos t = .outside) := by
  have hsingle : p.Single := Run.invariant_of_meets (fun _ _ _ ↦ single_step) single_start halone hrun
  refine ⟨fun p' hpos hstep hout w ↦ ?_, fun hend hhanded ↦
    Ending.exists_returned ⟨hsingle, hend, hhanded⟩⟩
  have hflight : p.inFlight = 0 := hsingle.inFlight_eq_zero (by rw [hpos]; rfl) (by rw [hpos]; rfl)
  -- it leaves only if the count is zero
  have hzero : p.barrierCount = 0 := by
    by_contra hne
    rw [step, WorkerPool.advance, hpos] at hstep
    dsimp only at hstep
    rw [if_neg hne, Option.some_inj] at hstep
    rw [← hstep, go_pos_self] at hout
    cases hout
  exact hsingle.executed hpos hzero hflight w

/-- Another thread gives the first of two workers an event; then a thread uses the barrier, and
falls asleep before the workers begin. -/
def flushRun : List (Event 2 (Fin 2)) :=
  [.dispatch 1 0 7, .advance 1, .barrier 0] ++ List.replicate 8 (.advance 0) ++
    List.replicate 5 (.loop 0 false) ++ List.replicate 3 (.loop 1 false)

theorem barrier_flushes_two_workers :
    ∃ p, Run.exec step ({} : WorkerPool 2 (Fin 2)) flushRun = some p ∧ p.mark 0 0 = [.other 7] ∧
      p.mark 0 0 <+: (p.center 0).executed ∧
      ∃ fs p', (∀ e ∈ fs, ∃ w, e = Event.loop w false) ∧
        Run.exec step p (fs ++ [.advance 0]) = some p' ∧ p'.pos 0 = .outside := by
  have htest (p : WorkerPool 2 (Fin 2)) (e : Event 2 (Fin 2)) (h : decide (Alone p e) = true) : Alone p e :=
    of_decide_eq_true h
  have halone : Run.Meets step Alone ({} : WorkerPool 2 (Fin 2)) flushRun :=
    Run.Meets.of_check htest (by decide +kernel)
  have hend : ((Run.exec step ({} : WorkerPool 2 (Fin 2)) flushRun).any fun p ↦
      p.pos 0 = .checking ∧ p.barrierCount = 0 ∧ p.mark 0 0 = [.other 7] ∧
        ∀ w, (p.center w).waking = 0) = true := by decide +kernel
  obtain ⟨p, hrun, hp⟩ := (Option.any_eq_true _ _).mp hend
  obtain ⟨hpos, hzero, hmark, hhanded⟩ := of_decide_eq_true hp
  have hstep : p.step (.advance 0) = some (p.go 0 .outside) := by
    rw [step, WorkerPool.advance, hpos, hzero]
    rfl
  obtain ⟨hflush, hreturn⟩ := barrier_flushes halone hrun
  exact ⟨p, hrun, hmark, hflush _ hpos hstep (go_pos_self _ _ _) 0, hreturn (Or.inl hpos) hhanded⟩

/-- When two barriers overlap, one can end too early: its event is in the list of the second worker,
and the event of the other barrier has been counted down before it was counted up. -/
example : ((Run.exec step ({} : WorkerPool 2 (Fin 2))
    ([.barrier 0] ++ List.replicate 7 (.advance 0) ++ List.replicate 4 (.loop 0 false) ++
      [.barrier 1, .advance 1, .advance 1, .loop 0 false, .loop 0 false, .loop 0 false, .advance 0])).any
    fun p ↦ p.pos 0 = .outside ∧ (p.center 1).executed = [] ∧ (p.center 1).pending = [.barrier]) = true := by
  decide +kernel

/-- Or it can sleep on, when the count comes to zero without a signal. -/
example : ((Run.exec step ({} : WorkerPool 1 (Fin 2))
    ([.barrier 0] ++ List.replicate 4 (.advance 0) ++ List.replicate 4 (.loop 0 false) ++
      [.barrier 1, .advance 1, .advance 1, .loop 0 false, .loop 0 false, .loop 0 false, .loop 0 false,
        .advance 0] ++ List.replicate 3 (.advance 1))).any
    fun p ↦ p.pos 0 = .sleeping ∧ p.pos 1 = .outside ∧ p.barrierCount = 0 ∧
      (p.center 0).pending = []) = true := by
  decide +kernel

end WorkerPool

end AsyncMessenger
