import AsyncMessenger.Lib.Run
import Mathlib.Algebra.Order.Ring.Int
import Mathlib.Logic.Function.Basic

/-!
# Mutexes

`Mutex` wraps a lock of the system and keeps books of its own beside it: how often it is locked, and
by whom. Every function that needs a lock asserts `is_locked_by_me`, and reads the books without
holding anything. The books are written by the holder, one variable after the other, while other
threads may be anywhere.

A step below is one access to a shared variable, but for `Cond::Signal`, which asserts
`waiter_mutex == NULL || waiter_mutex->is_locked()` at once: `waiter_mutex` is never cleared, so the
second access sees what both would. The mutex is not a recursive one, so the lock under
it is of the normal kind: a thread that locks it twice waits for itself, and what happens when a
thread unlocks it that does not hold it is undefined. A thread may call anything here whether it
holds the mutex or not; `Proper` says what callers promise. A failed assertion ends the run.
-/

namespace AsyncMessenger

/-- Where a thread is in the calls of a mutex; `wait` says that `_pre_unlock` is that of `Cond::Wait`. -/
inductive Place
  | out
  /-- In `pthread_mutex_lock`. -/
  | locking
  /-- It has the lock, and nothing is written yet. -/
  | entered
  | foundFree
  | named
  /-- It has the mutex. -/
  | inside
  /-- In `pthread_mutex_lock` with the lock in hand. -/
  | relocking
  /-- In `Cond::Wait`, with `waiter_mutex` set. -/
  | waiting
  | unlocking (wait : Bool)
  | foundLocked (wait : Bool)
  | lowered (wait : Bool)
  | foundMine (wait : Bool)
  | unnamed (wait : Bool)
  /-- All is written, and the lock comes next. -/
  | emptied (wait : Bool)
  /-- In `pthread_cond_wait`, without the lock. -/
  | asleep
  deriving DecidableEq, Repr

/-- A mutex that is not recursive, the threads that use it, and a condition variable. -/
structure Mutex (τ : Type) where
  place : τ → Place := fun _ ↦ .out
  /-- The lock of the system, `_m`. -/
  holder : Option τ := none
  nlock : ℤ := 0
  lockedBy : Option τ := none
  /-- The `waiter_mutex` of the condition variable is set. -/
  waiterMutex : Bool := false
  /-- An assertion has failed. -/
  failed : Bool := false

namespace Mutex

variable {τ : Type} [DecidableEq τ]

/-- `is_locked`. -/
def isLocked (s : Mutex τ) : Bool := 0 < s.nlock

/-- `is_locked_by_me`, asked by the thread `t`. -/
def isLockedByMe (s : Mutex τ) (t : τ) : Bool := 0 < s.nlock && s.lockedBy = some t

def goto (s : Mutex τ) (t : τ) (p : Place) : Mutex τ := { s with place := Function.update s.place t p }

/-- `assert`, on the way to `p`. -/
def expect (s : Mutex τ) (holds : Bool) (t : τ) (p : Place) : Mutex τ :=
  if holds then s.goto t p else { s with failed := true }

/-- The next access of a thread in a call: `pthread_mutex_lock` returns, `_post_lock`, the assertion
of `Cond::Wait`, `_pre_unlock`, and `pthread_mutex_unlock` or the beginning of `pthread_cond_wait`. -/
def advance (s : Mutex τ) (t : τ) : Option (Mutex τ) :=
  match s.place t with
  | .out | .inside | .relocking | .asleep => none
  | .locking => if s.holder = none then some { s.goto t .entered with holder := some t } else none
  | .entered => some (s.expect (s.nlock = 0) t .foundFree)
  | .foundFree => some { s.goto t .named with lockedBy := some t }
  | .named => some { s.goto t .inside with nlock := s.nlock + 1 }
  | .waiting => some (s.expect s.isLocked t (.unlocking true))
  | .unlocking wait => some (s.expect (0 < s.nlock) t (.foundLocked wait))
  | .foundLocked wait => some { s.goto t (.lowered wait) with nlock := s.nlock - 1 }
  | .lowered wait => some (s.expect (s.lockedBy = some t) t (.foundMine wait))
  | .foundMine wait => some { s.goto t (.unnamed wait) with lockedBy := none }
  | .unnamed wait => some (s.expect (s.nlock = 0) t (.emptied wait))
  | .emptied wait => some { s.goto t (if wait then .asleep else .out) with holder := none }

/-- What may happen next. -/
inductive Event (τ : Type)
  | lock (t : τ)
  | tryLock (t : τ)
  | unlock (t : τ)
  /-- `Cond::Wait`. -/
  | wait (t : τ)
  /-- `Cond::Signal` or `SignalOne`. -/
  | signal (t : τ)
  /-- `pthread_cond_wait` goes for the lock again, for whatever reason. -/
  | wake (t : τ)
  | advance (t : τ)

/-- A thread that is in no call. -/
def Idle (s : Mutex τ) (t : τ) : Prop := s.place t = .out ∨ s.place t = .inside

instance (s : Mutex τ) (t : τ) : Decidable (s.Idle t) := inferInstanceAs (Decidable (_ ∨ _))

def step (s : Mutex τ) (e : Event τ) : Option (Mutex τ) :=
  if s.failed then none
  else match e with
    | .lock t =>
      if s.place t = .out then some (s.goto t .locking)
      else if s.place t = .inside then some (s.goto t .relocking) else none
    | .tryLock t =>
      if s.Idle t then
        if s.holder = none then some { s.goto t .entered with holder := some t } else some s
      else none
    | .unlock t => if s.Idle t then some (s.goto t (.unlocking false)) else none
    | .wait t =>
      if s.Idle t then some { s.goto t .waiting with waiterMutex := true } else none
    | .signal t => if s.Idle t then some (s.expect (!s.waiterMutex || s.isLocked) t (s.place t)) else none
    | .wake t => if s.place t = .asleep then some (s.goto t .locking) else none
    | .advance t => s.advance t

/-- What callers promise: the mutex is unlocked, waited with and signalled under by who has it. -/
def Proper (s : Mutex τ) : Event τ → Prop
  | .unlock t | .wait t | .signal t => s.place t = .inside
  | _ => True

end Mutex

/-! ## The lock of the system

Who has the lock can be told from the places of the threads alone: one that has locked it and not
yet unlocked it, wherever in between it is. -/

namespace Place

/-- With the lock in hand, whatever threads may call. -/
def owns : Place → Bool
  | .entered | .foundFree | .named | .inside | .relocking | .foundMine _ | .unnamed _ | .emptied _ => true
  | _ => false

/-- `locked_by` is this thread, if it has the lock. -/
def isNamed : Place → Bool
  | .named | .inside | .relocking | .waiting | .unlocking _ | .foundLocked _ | .lowered _ | .foundMine _ => true
  | _ => false

/-- Without the lock, if threads call what they may. -/
def isAway : Place → Bool
  | .out | .locking | .asleep => true
  | _ => false

/-- `nlock` counts this thread. -/
def isCounted : Place → Bool
  | .inside | .relocking | .waiting | .unlocking _ | .foundLocked _ => true
  | _ => false

/-- Who is counted has the lock, and is named. -/
theorem here_of_isCounted {p : Place} (h : p.isCounted = true) : p.isAway = false ∧ p.isNamed = true := by
  cases p with
  | inside | relocking | waiting | unlocking wait | foundLocked wait => exact ⟨rfl, rfl⟩
  | _ => exact absurd h Bool.false_ne_true

end Place

namespace Mutex

variable {τ : Type} [DecidableEq τ] {s s' : Mutex τ} {t u : τ} {p : Place}

theorem place_goto_self (s : Mutex τ) (t : τ) (p : Place) : (s.goto t p).place t = p := by
  rw [goto]
  exact Function.update_self ..

theorem place_goto_of_ne (hne : u ≠ t) : (s.goto t p).place u = s.place u := by
  rw [goto]
  exact Function.update_of_ne hne ..

/-- Who gets past the books has the lock, and so has who is named in them. -/
structure Guarded (s : Mutex τ) : Prop where
  owner : ∀ t, (s.place t).owns = true → s.holder = some t
  named : ∀ t, s.lockedBy = some t → s.holder = some t ∧ (s.place t).isNamed = true

omit [DecidableEq τ] in
theorem guarded_start : Guarded ({} : Mutex τ) where
  owner _ h := nomatch h
  named _ h := nomatch h

omit [DecidableEq τ] in
theorem Guarded.holder_of_place (h : Guarded s) (hp : s.place t = p) (howns : p.owns = true) :
    s.holder = some t :=
  h.owner t (hp ▸ howns)

omit [DecidableEq τ] in
theorem Guarded.not_named (h : Guarded s) (hp : s.place t = p) (hnamed : p.isNamed = false) :
    s.lockedBy ≠ some t := by
  intro hby
  have htrue := (h.named t hby).2
  rw [hp, hnamed] at htrue
  exact nomatch htrue

theorem Guarded.goto (h : Guarded s) (howns : p.owns = true → s.holder = some t)
    (hnamed : s.lockedBy = some t → p.isNamed = true) : Guarded (s.goto t p) := by
  constructor
  · intro u hu
    by_cases hut : u = t
    · rw [hut, place_goto_self] at hu
      rw [hut]
      exact howns hu
    · rw [place_goto_of_ne hut] at hu
      exact h.owner u hu
  · intro u hu
    refine ⟨(h.named u hu).1, ?_⟩
    by_cases hut : u = t
    · rw [hut, place_goto_self]
      exact hnamed (hut ▸ hu)
    · rw [place_goto_of_ne hut]
      exact (h.named u hu).2

theorem Guarded.expect {b : Bool} (h : Guarded s) (hgoto : b = true → Guarded (s.goto t p)) :
    Guarded (s.expect b t p) := by
  rw [Mutex.expect]
  split
  · exact hgoto ‹_›
  · -- a failed assertion changes nothing else
    exact ⟨h.owner, h.named⟩

/-- `pthread_mutex_lock` of a free lock. -/
theorem Guarded.take (h : Guarded s) (hfree : s.holder = none) :
    Guarded { s.goto t .entered with holder := some t } := by
  constructor
  · intro u hu
    by_cases hut : u = t
    · exact congrArg some hut.symm
    · have hother : (s.place u).owns = true := place_goto_of_ne hut ▸ hu
      exact absurd (hfree.symm.trans (h.owner u hother)) nofun
  · exact fun u hu ↦ absurd (hfree.symm.trans (h.named u hu).1) nofun

theorem Guarded.release (h : Guarded s) {wait : Bool} (hp : s.place t = .emptied wait) :
    Guarded { s.goto t (if wait then .asleep else .out) with holder := none } := by
  have hmine : s.holder = some t := h.holder_of_place hp rfl
  have hunique {u : τ} (hu : s.holder = some u) : u = t := Option.some_inj.mp (hu.symm.trans hmine)
  constructor
  · -- nobody else has got past the books
    intro u hu
    change ((s.goto t _).place u).owns = true at hu
    have hne : u ≠ t := by
      rintro rfl
      rw [place_goto_self] at hu
      cases wait <;> exact nomatch hu
    rw [place_goto_of_ne hne] at hu
    exact absurd (hunique (h.owner u hu)) hne
  · intro u hu
    obtain rfl := hunique (h.named u hu).1
    exact absurd hu (h.not_named hp rfl)

theorem Guarded.advance (h : Guarded s) (hstep : s.advance t = some s') : Guarded s' := by
  rw [Mutex.advance] at hstep
  split at hstep <;> rename_i hp
  · exact nomatch hstep
  · exact nomatch hstep
  · exact nomatch hstep
  · exact nomatch hstep
  · split_ifs at hstep with hfree
    obtain rfl := Option.some_inj.mp hstep
    exact h.take hfree
  · obtain rfl := Option.some_inj.mp hstep
    have hmine := h.holder_of_place hp rfl
    exact h.expect fun _ ↦ h.goto (fun _ ↦ hmine) fun hnamed ↦ absurd hnamed (h.not_named hp rfl)
  · -- the thread writes its name
    obtain rfl := Option.some_inj.mp hstep
    have hmine := h.holder_of_place hp rfl
    have hnext : Guarded (({ s with lockedBy := none } : Mutex τ).goto t .named) :=
      Guarded.goto ⟨h.owner, fun _ hu ↦ nomatch hu⟩ (fun _ ↦ hmine) nofun
    refine ⟨hnext.owner, fun u hu ↦ ?_⟩
    obtain rfl := Option.some_inj.mp hu
    exact ⟨hmine, congrArg Place.isNamed (place_goto_self s t .named)⟩
  · obtain rfl := Option.some_inj.mp hstep
    have hnext := h.goto (p := .inside) (fun _ ↦ h.holder_of_place hp rfl) fun _ ↦ rfl
    exact ⟨hnext.owner, hnext.named⟩
  · obtain rfl := Option.some_inj.mp hstep
    exact h.expect fun _ ↦ h.goto nofun fun _ ↦ rfl
  · obtain rfl := Option.some_inj.mp hstep
    exact h.expect fun _ ↦ h.goto nofun fun _ ↦ rfl
  · obtain rfl := Option.some_inj.mp hstep
    rename_i wait
    have hnext := h.goto (t := t) (p := .lowered wait) nofun fun _ ↦ rfl
    exact ⟨hnext.owner, hnext.named⟩
  · -- only who is named gets on
    obtain rfl := Option.some_inj.mp hstep
    exact h.expect fun hnamed ↦ h.goto (fun _ ↦ (h.named t (of_decide_eq_true hnamed)).1) fun _ ↦ rfl
  · obtain rfl := Option.some_inj.mp hstep
    rename_i wait
    have hnext : Guarded (({ s with lockedBy := none } : Mutex τ).goto t (.unnamed wait)) :=
      Guarded.goto ⟨h.owner, fun _ hu ↦ nomatch hu⟩ (fun _ ↦ h.holder_of_place hp rfl) nofun
    exact ⟨hnext.owner, hnext.named⟩
  · obtain rfl := Option.some_inj.mp hstep
    have hmine := h.holder_of_place hp rfl
    exact h.expect fun _ ↦ h.goto (fun _ ↦ hmine) fun hnamed ↦ absurd hnamed (h.not_named hp rfl)
  · obtain rfl := Option.some_inj.mp hstep
    exact h.release hp

theorem guarded_step {e : Event τ} (h : Guarded s) (hstep : step s e = some s') : Guarded s' := by
  rw [step.eq_def] at hstep
  split at hstep
  · exact nomatch hstep
  cases e with
  | lock t =>
    dsimp only at hstep
    split_ifs at hstep with hout hinside
    · obtain rfl := Option.some_inj.mp hstep
      exact h.goto nofun fun hnamed ↦ absurd hnamed (h.not_named hout rfl)
    · obtain rfl := Option.some_inj.mp hstep
      exact h.goto (fun _ ↦ h.holder_of_place hinside rfl) fun _ ↦ rfl
  | tryLock t =>
    dsimp only at hstep
    split_ifs at hstep with hidle hfree
    · obtain rfl := Option.some_inj.mp hstep
      exact h.take hfree
    · obtain rfl := Option.some_inj.mp hstep
      exact h
  | unlock t =>
    -- whoever calls it comes no further than to the name
    dsimp only at hstep
    split_ifs at hstep with hidle
    obtain rfl := Option.some_inj.mp hstep
    exact h.goto nofun fun _ ↦ rfl
  | wait t =>
    dsimp only at hstep
    split_ifs at hstep with hidle
    obtain rfl := Option.some_inj.mp hstep
    have hnext := h.goto (t := t) (p := .waiting) nofun fun _ ↦ rfl
    exact ⟨hnext.owner, hnext.named⟩
  | signal t =>
    dsimp only at hstep
    split_ifs at hstep with hidle
    obtain rfl := Option.some_inj.mp hstep
    exact h.expect fun _ ↦ h.goto (h.owner t) fun hnamed ↦ (h.named t hnamed).2
  | wake t =>
    dsimp only at hstep
    split_ifs at hstep with hasleep
    obtain rfl := Option.some_inj.mp hstep
    exact h.goto nofun fun hnamed ↦ absurd hnamed (h.not_named hasleep rfl)
  | advance t => exact h.advance hstep

/-! ## The books

The books lag behind the lock by the accesses that are still to come, and `Kept` says by how many. A
thread that reads them finds its own name exactly if it has the mutex, since nobody else writes that
name. -/

/-- The books are right, and every thread is where callers promise it to be. -/
structure Kept (s : Mutex τ) : Prop where
  alive : s.failed = false
  away : ∀ t, s.holder ≠ some t → (s.place t).isAway = true
  mine : ∀ t, s.holder = some t → (s.place t).isAway = false ∧
    s.nlock = (if (s.place t).isCounted then 1 else 0) ∧
    s.lockedBy = if (s.place t).isNamed then some t else none
  free : s.holder = none → s.nlock = 0 ∧ s.lockedBy = none

omit [DecidableEq τ] in
theorem kept_start : Kept ({} : Mutex τ) where
  alive := rfl
  away _ _ := rfl
  mine _ h := nomatch h
  free _ := ⟨rfl, rfl⟩

omit [DecidableEq τ] in
/-- The books while a thread is at a place that only the holder comes to. -/
theorem Kept.here (h : Kept s) (hp : s.place t = p) (hhere : p.isAway = false) :
    s.holder = some t ∧ s.nlock = (if p.isCounted then 1 else 0) ∧
      s.lockedBy = if p.isNamed then some t else none := by
  have hmine : s.holder = some t := by
    by_contra hother
    have haway := h.away t hother
    rw [hp, hhere] at haway
    exact nomatch haway
  exact ⟨hmine, hp ▸ (h.mine t hmine).2⟩

omit [DecidableEq τ] in
/-- Beside the holder, or a thread that takes a free lock, all are away. -/
theorem Kept.others_away (h : Kept s) (hmine : s.holder = some t ∨ s.holder = none) (hne : u ≠ t) :
    (s.place u).isAway = true := by
  refine h.away u fun hu ↦ ?_
  rcases hmine with ht | hfree
  · exact hne (Option.some_inj.mp (hu.symm.trans ht))
  · exact nomatch hu.symm.trans hfree

/-- The holder moves, and the books are written as its new place has it. -/
theorem Kept.move (h : Kept s) (hmine : s.holder = some t ∨ s.holder = none) (hhere : p.isAway = false)
    (halive : s'.failed = s.failed) (hplace : s'.place = (s.goto t p).place) (hholder : s'.holder = some t)
    (hnlock : s'.nlock = if p.isCounted then 1 else 0) (hby : s'.lockedBy = if p.isNamed then some t else none) :
    Kept s' where
  alive := halive.trans h.alive
  away u hu := by
    have hne : u ≠ t := by
      rintro rfl
      exact hu hholder
    rw [hplace, place_goto_of_ne hne]
    exact h.others_away hmine hne
  mine u hu := by
    obtain rfl := Option.some_inj.mp (hholder.symm.trans hu)
    rw [hplace, place_goto_self]
    exact ⟨hhere, hnlock, hby⟩
  free hfree := nomatch hholder.symm.trans hfree

/-- A thread without the lock moves. -/
theorem Kept.goto_away (h : Kept s) (hold : (s.place t).isAway = true) (hnew : p.isAway = true) :
    Kept (s.goto t p) where
  alive := h.alive
  away u hu := by
    by_cases hut : u = t
    · rw [hut, place_goto_self]
      exact hnew
    · rw [place_goto_of_ne hut]
      exact h.away u hu
  mine u hu := by
    have hne : u ≠ t := by
      rintro rfl
      exact nomatch hold.symm.trans (h.mine u hu).1
    rw [place_goto_of_ne hne]
    exact h.mine u hu
  free := h.free

/-- `pthread_mutex_unlock` after `_pre_unlock`. -/
theorem Kept.release (h : Kept s) {wait : Bool} (hp : s.place t = .emptied wait)
    (hnew : p.isAway = true) :
    Kept { s.goto t p with holder := none } where
  alive := h.alive
  away u _ := by
    change ((s.goto t p).place u).isAway = true
    by_cases hut : u = t
    · rw [hut, place_goto_self]
      exact hnew
    · rw [place_goto_of_ne hut]
      exact h.others_away (Or.inl (h.here hp rfl).1) hut
  mine _ hu := nomatch hu
  free _ := (h.here hp rfl).2

theorem expect_of_true {b : Bool} (hb : b = true) : s.expect b t p = s.goto t p :=
  if_pos hb

/-- An assertion of the holder that the books bear out. -/
theorem Kept.expect {b : Bool} {p' : Place} (h : Kept s) (hp : s.place t = p') (hold : p'.isAway = false)
    (hb : b = true) (hhere : p.isAway = false) (hcounted : p.isCounted = p'.isCounted)
    (hnamed : p.isNamed = p'.isNamed) : Kept (s.expect b t p) := by
  rw [expect_of_true hb]
  obtain ⟨hmine, hnlock, hby⟩ := h.here hp hold
  exact h.move (Or.inl hmine) hhere rfl rfl hmine (hcounted ▸ hnlock) (hnamed ▸ hby)

theorem Kept.advance (h : Kept s) (hstep : s.advance t = some s') : Kept s' := by
  rw [Mutex.advance] at hstep
  split at hstep <;> rename_i hp
  · exact nomatch hstep
  · exact nomatch hstep
  · exact nomatch hstep
  · exact nomatch hstep
  · split_ifs at hstep with hfree
    obtain rfl := Option.some_inj.mp hstep
    exact h.move (Or.inr hfree) rfl rfl rfl rfl (h.free hfree).1 (h.free hfree).2
  · obtain rfl := Option.some_inj.mp hstep
    exact h.expect hp rfl (decide_eq_true (h.here hp rfl).2.1) rfl rfl rfl
  · obtain rfl := Option.some_inj.mp hstep
    obtain ⟨hmine, hnlock, -⟩ := h.here hp rfl
    exact h.move (Or.inl hmine) rfl rfl rfl hmine hnlock rfl
  · obtain rfl := Option.some_inj.mp hstep
    obtain ⟨hmine, hnlock, hby⟩ := h.here hp rfl
    exact h.move (Or.inl hmine) rfl rfl rfl hmine (congrArg (· + 1) hnlock) hby
  · obtain rfl := Option.some_inj.mp hstep
    have hone : s.nlock = 1 := (h.here hp rfl).2.1
    exact h.expect hp rfl (decide_eq_true (hone ▸ Int.one_pos)) rfl rfl rfl
  · obtain rfl := Option.some_inj.mp hstep
    have hone : s.nlock = 1 := (h.here hp rfl).2.1
    exact h.expect hp rfl (decide_eq_true (hone ▸ Int.one_pos)) rfl rfl rfl
  · obtain rfl := Option.some_inj.mp hstep
    obtain ⟨hmine, hnlock, hby⟩ := h.here hp rfl
    exact h.move (Or.inl hmine) rfl rfl rfl hmine (congrArg (· - 1) hnlock) hby
  · obtain rfl := Option.some_inj.mp hstep
    exact h.expect hp rfl (decide_eq_true (h.here hp rfl).2.2) rfl rfl rfl
  · obtain rfl := Option.some_inj.mp hstep
    obtain ⟨hmine, hnlock, -⟩ := h.here hp rfl
    exact h.move (Or.inl hmine) rfl rfl rfl hmine hnlock rfl
  · obtain rfl := Option.some_inj.mp hstep
    exact h.expect hp rfl (decide_eq_true (h.here hp rfl).2.1) rfl rfl rfl
  · obtain rfl := Option.some_inj.mp hstep
    exact h.release hp (by split <;> rfl)

theorem kept_step {e : Event τ} (h : Kept s) (hproper : s.Proper e) (hstep : step s e = some s') :
    Kept s' := by
  rw [step.eq_def] at hstep
  split at hstep
  · exact nomatch hstep
  cases e with
  | lock t =>
    dsimp only at hstep
    split_ifs at hstep with hout hinside
    · obtain rfl := Option.some_inj.mp hstep
      exact h.goto_away (congrArg Place.isAway hout) rfl
    · obtain rfl := Option.some_inj.mp hstep
      obtain ⟨hmine, hnlock, hby⟩ := h.here hinside rfl
      exact h.move (Or.inl hmine) rfl rfl rfl hmine hnlock hby
  | tryLock t =>
    dsimp only at hstep
    split_ifs at hstep with hidle hfree
    · obtain rfl := Option.some_inj.mp hstep
      exact h.move (Or.inr hfree) rfl rfl rfl rfl (h.free hfree).1 (h.free hfree).2
    · obtain rfl := Option.some_inj.mp hstep
      exact h
  | unlock t =>
    dsimp only at hstep
    split_ifs at hstep
    obtain rfl := Option.some_inj.mp hstep
    have hplace : s.place t = .inside := hproper
    obtain ⟨hmine, hnlock, hby⟩ := h.here hplace rfl
    exact h.move (Or.inl hmine) rfl rfl rfl hmine hnlock hby
  | wait t =>
    dsimp only at hstep
    split_ifs at hstep
    obtain rfl := Option.some_inj.mp hstep
    have hplace : s.place t = .inside := hproper
    obtain ⟨hmine, hnlock, hby⟩ := h.here hplace rfl
    exact h.move (Or.inl hmine) rfl rfl rfl hmine hnlock hby
  | signal t =>
    dsimp only at hstep
    split_ifs at hstep
    obtain rfl := Option.some_inj.mp hstep
    have hplace : s.place t = .inside := hproper
    have hone : s.nlock = 1 := (h.here hplace rfl).2.1
    rw [hplace]
    refine h.expect hplace rfl (Bool.or_eq_true_iff.mpr (Or.inr ?_)) rfl rfl rfl
    exact decide_eq_true (hone ▸ Int.one_pos)
  | wake t =>
    dsimp only at hstep
    split_ifs at hstep with hasleep
    obtain rfl := Option.some_inj.mp hstep
    exact h.goto_away (congrArg Place.isAway hasleep) rfl
  | advance t => exact h.advance hstep

omit [DecidableEq τ] in
/-- With the books in order, `nlock` is up exactly while a thread is counted. -/
theorem Kept.isLocked_iff (h : Kept s) : s.isLocked = true ↔ ∃ t, (s.place t).isCounted = true := by
  rw [isLocked, decide_eq_true_iff]
  constructor
  · intro hpos
    -- somebody has the lock, or the count would be 0
    cases hholder : s.holder with
    | none => exact absurd (h.free hholder).1 hpos.ne'
    | some t =>
      refine ⟨t, ?_⟩
      by_contra hnot
      have hzero := (h.mine t hholder).2.1
      rw [if_neg hnot] at hzero
      exact hpos.ne' hzero
  · rintro ⟨t, ht⟩
    obtain ⟨hhere, -⟩ := Place.here_of_isCounted ht
    rw [(h.here rfl hhere).2.1, if_pos ht]
    exact Int.one_pos

theorem Kept.isLockedByMe_iff (h : Kept s) : s.isLockedByMe t = true ↔ (s.place t).isCounted = true := by
  rw [isLockedByMe, Bool.and_eq_true, decide_eq_true_iff, decide_eq_true_iff]
  constructor
  · rintro ⟨hpos, hby⟩
    obtain ⟨u, hu⟩ := h.isLocked_iff.mp (decide_eq_true hpos)
    obtain ⟨hhere, -⟩ := Place.here_of_isCounted hu
    have hbyu := (h.here (t := u) rfl hhere).2.2
    rw [hby] at hbyu
    split at hbyu
    · exact Option.some_inj.mp hbyu ▸ hu
    · exact nomatch hbyu
  · intro ht
    refine ⟨of_decide_eq_true (h.isLocked_iff.mpr ⟨t, ht⟩), ?_⟩
    obtain ⟨hhere, hnamed⟩ := Place.here_of_isCounted ht
    rw [(h.here rfl hhere).2.2, if_pos hnamed]

/-- **The books of a mutex are right**, whoever reads them and wherever the other threads are.
Whatever threads call, who gets past the books has the lock, so no thread ever unlocks the lock that
another has: the second assertion of `_pre_unlock` stops it first; and `is_locked_by_me` is never
true for a thread without the lock. If callers do what they promise, no assertion fails, and
`is_locked_by_me` is true for a thread exactly from the end of its `Lock` to the `--nlock` of its
`Unlock` or `Wait`. -/
theorem books_of_run {es : List (Event τ)} (hrun : Run.exec step ({} : Mutex τ) es = some s) :
    (∀ t, (s.place t).owns = true → s.holder = some t) ∧ (∀ t, s.isLockedByMe t = true → s.holder = some t) ∧
      (Run.Meets step Proper ({} : Mutex τ) es → s.failed = false ∧
        (∀ t, s.isLockedByMe t = true ↔ (s.place t).isCounted = true) ∧
        (s.isLocked = true ↔ ∃ t, (s.place t).isCounted = true)) := by
  have hguarded : Guarded s := Run.invariant (fun _ _ _ ↦ guarded_step) guarded_start hrun
  refine ⟨hguarded.owner, fun t ht ↦ ?_, fun hproper ↦ ?_⟩
  · rw [isLockedByMe, Bool.and_eq_true] at ht
    exact (hguarded.named t (of_decide_eq_true ht.2)).1
  · have hkept : Kept s := Run.invariant_of_meets (fun _ _ _ ↦ kept_step) kept_start hproper hrun
    exact ⟨hkept.alive, fun _ ↦ hkept.isLockedByMe_iff, hkept.isLocked_iff⟩

def properTest (s : Mutex τ) : Event τ → Bool
  | .unlock t | .wait t | .signal t => s.place t = .inside
  | _ => true

omit [DecidableEq τ] in
theorem proper_of_test {e : Event τ} (h : s.properTest e = true) : s.Proper e := by
  cases e with
  | unlock t | wait t | signal t =>
    rw [properTest, decide_eq_true_iff] at h
    exact h
  | _ => trivial

/-- A thread waits, and another locks the mutex and signals. -/
def waitAndSignal : List (Event Bool) :=
  [.lock true] ++ List.replicate 4 (.advance true) ++ [.wait true, .lock false] ++
    List.replicate 7 (.advance true) ++ List.replicate 4 (.advance false) ++ [.signal false, .wake true]

theorem books_of_run_waitAndSignal :
    ∃ s, Run.exec step ({} : Mutex Bool) waitAndSignal = some s ∧ s.failed = false ∧ s.isLockedByMe false = true ∧
      s.isLockedByMe true = false ∧ s.place true = .locking := by
  have hend : ((Run.exec step ({} : Mutex Bool) waitAndSignal).any fun s ↦
      decide (s.place false = .inside) && decide (s.place true = .locking)) = true := by decide +kernel
  obtain ⟨s, hrun, hs⟩ := (Option.any_eq_true _ _).mp hend
  rw [Bool.and_eq_true, decide_eq_true_iff, decide_eq_true_iff] at hs
  obtain ⟨hinside, hlocking⟩ := hs
  obtain ⟨-, -, hbooks⟩ := books_of_run hrun
  obtain ⟨halive, hme, -⟩ := hbooks (Run.Meets.of_check (fun _ _ ↦ proper_of_test) (by decide +kernel))
  refine ⟨s, hrun, halive, (hme false).mpr ?_, Bool.eq_false_iff.mpr fun htrue ↦ ?_, hlocking⟩
  · exact congrArg Place.isCounted hinside
  · have hcounted := (hme true).mp htrue
    rw [hlocking] at hcounted
    exact nomatch hcounted

end Mutex

end AsyncMessenger
