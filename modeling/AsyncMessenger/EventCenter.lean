import AsyncMessenger.Lib.Run

/-!
# The events of a worker

A worker runs its event loop, and other threads give it events to execute: `dispatch_event_external`
puts an event into a list under `external_lock`, and sends `async`, which wakes the loop. Whenever
the loop has something pending, it goes through the list, and releases the lock while it executes an
event.

Between the two parts of `dispatch_event_external` the thread holds no lock, so the loop may find
the event before it is woken, and be woken again for nothing. An `async` that is sent while it is
pending is not sent twice.
-/

namespace AsyncMessenger

/-- Where the thread of the loop is. -/
inductive LoopPos (ε : Type)
  /-- In `loop(ONCE)`, which blocks while nothing is pending. -/
  | polling
  /-- In the loop of `invoke_pending_cb`. -/
  | draining
  | running (e : ε)
  deriving DecidableEq

/-- The event in hand. -/
def LoopPos.held {ε : Type} : LoopPos ε → List ε
  | .running e => [e]
  | _ => []

/-- `EventCenter`, with the thread of its loop. -/
structure EventCenter (ε : Type) where
  externalEvents : List ε := []
  /-- `async` is pending. -/
  async : Bool := false
  loop : LoopPos ε := .polling
  /-- The threads that have put an event into the list and have not called `wakeup` yet. -/
  waking : ℕ := 0
  /-- History: the events, in the order in which they were put into the list. -/
  dispatched : List ε := []
  /-- History: the events whose `do_request` has returned. -/
  executed : List ε := []

namespace EventCenter

variable {ε : Type} {c c' : EventCenter ε}

/-- What happens at an event center. -/
inductive Event (ε : Type)
  /-- `dispatch_event_external`, as far as the list is concerned. -/
  | push (e : ε)
  /-- `dispatch_event_external` goes on. -/
  | wakeup
  /-- `wakeup` is called for another reason. -/
  | send
  /-- The next move of the loop; `other` says that something else is pending. -/
  | loop (other : Bool)

/-- The list gets an event. -/
def push (c : EventCenter ε) (e : ε) : EventCenter ε :=
  { c with
    externalEvents := c.externalEvents ++ [e]
    waking := c.waking + 1
    dispatched := c.dispatched ++ [e] }

/-- `wakeup`, at the end of `dispatch_event_external`. -/
def wakeup (c : EventCenter ε) : EventCenter ε := { c with waking := c.waking - 1, async := true }

/-- The next move of the loop; `none` if it blocks. -/
def advance (c : EventCenter ε) (other : Bool) : Option (EventCenter ε) :=
  match c.loop with
  | .polling => if c.async || other then some { c with async := false, loop := .draining } else none
  | .draining => match c.externalEvents with
    | [] => some { c with loop := .polling }
    | e :: rest => some { c with externalEvents := rest, loop := .running e }
  | .running e => some { c with executed := c.executed ++ [e], loop := .draining }

/-- One step. -/
def step (c : EventCenter ε) : Event ε → Option (EventCenter ε)
  | .push e => some (c.push e)
  | .wakeup => if 0 < c.waking then some c.wakeup else none
  | .send => some { c with async := true }
  | .loop other => c.advance other

/-- The events that have been dispatched and not executed yet. -/
def pending (c : EventCenter ε) : List ε := c.loop.held ++ c.externalEvents

/-- The loop blocks, and nobody is about to wake it. -/
def Asleep (c : EventCenter ε) : Prop := c.loop = .polling ∧ c.async = false ∧ c.waking = 0

/-- Every event is executed, in hand, or in the list, in the order of arrival; and the loop sleeps
only over an empty list. -/
structure Inv (c : EventCenter ε) : Prop where
  accounts : c.dispatched = c.executed ++ c.pending
  awake : c.Asleep → c.externalEvents = []

theorem inv_start : ({} : EventCenter ε).Inv := ⟨rfl, fun _ ↦ rfl⟩

theorem Inv.push (h : c.Inv) (e : ε) : (c.push e).Inv := by
  refine ⟨?_, fun hasleep ↦ absurd hasleep.2.2 (Nat.succ_ne_zero _)⟩
  have haccounts := h.accounts
  rw [pending] at haccounts
  simp [EventCenter.push, pending, haccounts]

theorem Inv.wakeup (h : c.Inv) : c.wakeup.Inv :=
  ⟨h.accounts, fun hasleep ↦ absurd hasleep.2.1 (by simp [EventCenter.wakeup])⟩

/-- What the loop can do next. -/
theorem advance_cases {other : Bool} (h : c.advance other = some c') :
    (c.loop = .polling ∧ c' = { c with async := false, loop := .draining }) ∨
    (c.loop = .draining ∧ c.externalEvents = [] ∧ c' = { c with loop := .polling }) ∨
    (∃ e rest, c.loop = .draining ∧ c.externalEvents = e :: rest ∧
      c' = { c with externalEvents := rest, loop := .running e }) ∨
    ∃ e, c.loop = .running e ∧ c' = { c with executed := c.executed ++ [e], loop := .draining } := by
  rw [advance] at h
  split at h <;> rename_i hloop
  · split_ifs at h
    exact Or.inl ⟨hloop, (Option.some_inj.mp h).symm⟩
  · split at h <;> rename_i hevents
    · exact Or.inr (Or.inl ⟨hloop, hevents, (Option.some_inj.mp h).symm⟩)
    · exact Or.inr (Or.inr (Or.inl ⟨_, _, hloop, hevents, (Option.some_inj.mp h).symm⟩))
  · exact Or.inr (Or.inr (Or.inr ⟨_, hloop, (Option.some_inj.mp h).symm⟩))

/-- The loop gives itself nothing. -/
theorem dispatched_advance {other : Bool} (h : c.advance other = some c') :
    c'.dispatched = c.dispatched := by
  rcases advance_cases h with ⟨-, rfl⟩ | ⟨-, -, rfl⟩ | ⟨e, rest, -, -, rfl⟩ | ⟨e, -, rfl⟩ <;> rfl

theorem waking_advance {other : Bool} (h : c.advance other = some c') : c'.waking = c.waking := by
  rcases advance_cases h with ⟨-, rfl⟩ | ⟨-, -, rfl⟩ | ⟨e, rest, -, -, rfl⟩ | ⟨e, -, rfl⟩ <;> rfl

theorem Inv.advance {other : Bool} (h : c.Inv) (hstep : c.advance other = some c') : c'.Inv := by
  have haccounts := h.accounts
  rw [pending] at haccounts
  rcases advance_cases hstep with ⟨hloop, rfl⟩ | ⟨hloop, hevents, rfl⟩ | ⟨e, rest, hloop, hevents, rfl⟩ |
    ⟨e, hloop, rfl⟩
  · rw [hloop] at haccounts
    exact ⟨haccounts, fun hasleep ↦ by cases hasleep.1⟩
  · rw [hloop] at haccounts
    exact ⟨haccounts, fun _ ↦ hevents⟩
  · refine ⟨?_, fun hasleep ↦ by cases hasleep.1⟩
    rw [hloop, hevents] at haccounts
    exact haccounts
  · refine ⟨?_, fun hasleep ↦ by cases hasleep.1⟩
    rw [hloop] at haccounts
    simpa [pending, LoopPos.held] using haccounts

theorem inv_step {e : Event ε} (h : c.Inv) (hstep : c.step e = some c') : c'.Inv := by
  cases e with
  | push e =>
    obtain rfl := Option.some_inj.mp hstep
    exact h.push e
  | wakeup =>
    rw [step] at hstep
    split_ifs at hstep
    obtain rfl := Option.some_inj.mp hstep
    exact h.wakeup
  | send =>
    obtain rfl := Option.some_inj.mp hstep
    exact ⟨h.accounts, fun hasleep ↦ absurd hasleep.2.1 (by simp)⟩
  | loop other => exact h.advance hstep

/-! ## The loop by itself -/

/-- While the loop goes through its list, it comes to the end of it. -/
theorem exists_drained (hloop : c.loop = .draining) :
    ∃ n c', Run.exec step c (List.replicate n (.loop false)) = some c' ∧ c'.loop = .polling ∧
      c'.executed = c.executed ++ c.externalEvents ∧ c'.externalEvents = [] ∧ c'.async = c.async := by
  generalize hevents : c.externalEvents = events
  induction events generalizing c with
  | nil =>
    have hstep : c.step (.loop false) = some { c with loop := .polling } := by
      rw [step, EventCenter.advance, hloop, hevents]
    refine ⟨1, { c with loop := .polling }, ?_, rfl, (List.append_nil _).symm, hevents, rfl⟩
    rw [List.replicate_one, Run.exec_cons, hstep, Option.bind_some, Run.exec_nil]
  | cons e rest ih =>
    -- the event is taken from the list, and executed
    have htake : c.step (.loop false) =
        some { c with externalEvents := rest, loop := .running e } := by
      rw [step, EventCenter.advance, hloop, hevents]
    obtain ⟨n, c', hrun, hpolling, hexecuted, hempty, hasync⟩ :=
      ih (c := { c with externalEvents := rest, executed := c.executed ++ [e], loop := .draining }) rfl rfl
    refine ⟨n + 2, c', ?_, hpolling, ?_, hempty, hasync⟩
    · rw [List.replicate_succ, Run.exec_cons, htake, Option.bind_some, List.replicate_succ, Run.exec_cons]
      exact hrun
    · rw [hexecuted, List.append_assoc, List.singleton_append]

/-- What the loop leaves alone. -/
theorem frame_loops {other : Bool} {n : ℕ}
    (hrun : Run.exec step c (List.replicate n (.loop other)) = some c') :
    c'.dispatched = c.dispatched ∧ c'.waking = c.waking := by
  induction n generalizing c with
  | zero =>
    obtain rfl := Option.some_inj.mp hrun
    exact ⟨rfl, rfl⟩
  | succ n ih =>
    rw [List.replicate_succ, Run.exec_cons, Option.bind_eq_some_iff] at hrun
    obtain ⟨d, hd, hrest⟩ := hrun
    obtain ⟨hdispatched, hwaking⟩ := ih hrest
    exact ⟨hdispatched.trans (dispatched_advance hd), hwaking.trans (waking_advance hd)⟩

/-- From wherever it is, the loop comes to execute what is in the list, unless it sleeps. -/
theorem Inv.exists_executed (h : c.Inv) (hwaking : c.waking = 0) :
    ∃ n c', Run.exec step c (List.replicate n (.loop false)) = some c' ∧ c'.executed = c.dispatched := by
  have hdraining {d : EventCenter ε} (hloop : d.loop = .draining)
      (heq : d.executed ++ d.externalEvents = c.dispatched) (k : ℕ)
      (hreach : Run.exec step c (List.replicate k (.loop false)) = some d) :
      ∃ n c', Run.exec step c (List.replicate n (.loop false)) = some c' ∧
        c'.executed = c.dispatched := by
    obtain ⟨n, c', hrun, -, hexecuted, -⟩ := exists_drained hloop
    refine ⟨k + n, c', ?_, hexecuted.trans heq⟩
    rw [List.replicate_add, Run.exec_append, hreach, Option.bind_some, hrun]
  have haccounts := h.accounts
  rw [pending] at haccounts
  match hloop : c.loop with
  | .polling =>
    rw [hloop] at haccounts
    cases hasync : c.async with
    | false =>
      -- it sleeps, so there is nothing in the list
      have hempty := h.awake ⟨hloop, hasync, hwaking⟩
      refine ⟨0, c, rfl, ?_⟩
      rw [haccounts, hempty, List.append_nil]
      exact (List.append_nil _).symm
    | true =>
      refine hdraining (d := { c with async := false, loop := .draining }) rfl haccounts.symm 1 ?_
      simp [step, EventCenter.advance, hloop, hasync]
  | .draining =>
    rw [hloop] at haccounts
    exact hdraining hloop haccounts.symm 0 rfl
  | .running e =>
    rw [hloop] at haccounts
    refine hdraining (d := { c with executed := c.executed ++ [e], loop := .draining }) rfl ?_ 1 ?_
    · rw [haccounts, List.append_assoc]
      rfl
    · simp [step, EventCenter.advance, hloop]

/-- So it comes to a point where nothing is pending. -/
theorem Inv.exists_emptied (h : c.Inv) (hwaking : c.waking = 0) :
    ∃ n c', Run.exec step c (List.replicate n (.loop false)) = some c' ∧ c'.pending = [] ∧
      c'.waking = 0 := by
  obtain ⟨n, c', hrun, hexecuted⟩ := h.exists_executed hwaking
  obtain ⟨hdispatched, hkept⟩ := frame_loops hrun
  have haccounts := (Run.invariant (fun _ _ _ ↦ inv_step) h hrun).accounts
  refine ⟨n, c', hrun, ?_, hkept.trans hwaking⟩
  rwa [hexecuted, hdispatched, List.self_eq_append_right] at haccounts

/-- **Every event that is dispatched is executed**, once and in the order of arrival: in every run
the events executed so far are a first part of those dispatched, and as soon as no thread is inside
`dispatch_event_external`, the loop by itself executes all of them. -/
theorem executes_dispatched {es : List (Event ε)}
    (hrun : Run.exec step ({} : EventCenter ε) es = some c) :
    c.executed <+: c.dispatched ∧
      (c.waking = 0 → ∃ n c', Run.exec step c (List.replicate n (.loop false)) = some c' ∧
        c'.executed = c.dispatched) := by
  have hinv : c.Inv := Run.invariant (fun _ _ _ ↦ inv_step) inv_start hrun
  exact ⟨⟨c.pending, hinv.accounts.symm⟩, hinv.exists_executed⟩

/-- Two events are given, the second while the loop is at work: it finds it in the same round, and
is woken again for nothing. -/
theorem executes_dispatched_two_events :
    ∃ c, Run.exec step ({} : EventCenter ℕ)
        [.push 7, .wakeup, .loop false, .loop false, .push 8, .wakeup, .loop false] = some c ∧
      c.executed <+: c.dispatched ∧
      ∃ n c', Run.exec step c (List.replicate n (.loop false)) = some c' ∧ c'.executed = [7, 8] := by
  have hdone : ((Run.exec step ({} : EventCenter ℕ)
      [.push 7, .wakeup, .loop false, .loop false, .push 8, .wakeup, .loop false]).any fun c ↦
        c.waking = 0 ∧ c.dispatched = [7, 8]) = true := by decide
  obtain ⟨c, hrun, hc⟩ := (Option.any_eq_true _ _).mp hdone
  obtain ⟨hwaking, hdispatched⟩ := of_decide_eq_true hc
  obtain ⟨hfirst, hall⟩ := executes_dispatched hrun
  exact ⟨c, hrun, hfirst, hdispatched ▸ hall hwaking⟩

end EventCenter

end AsyncMessenger
