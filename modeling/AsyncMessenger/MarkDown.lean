import AsyncMessenger.Ended
import AsyncMessenger.Lib.Run

/-!
# Marking a connection down

`mark_down` promises not to notify the dispatcher. It keeps the promise through `queue_reset`: the
flag makes `_stop` queue a `D_BAD_RESET`, and `mark_down` clears it before the `C_stop` that it
dispatches gets to run.

`mark_down` takes two locks. It sets `stopping` with the messenger's lock alone, and clears
`queue_reset` once it has the connection's as well; the two are separate steps here. What lies between
them cannot stop the connection, since `_stop` needs the messenger's lock. Another thread than the
owner of the event loop then waits until the connection is closed, and clears the flag again each time
it wakes up; the owner itself returns at once.

Between the clearing of the flag and `C_stop` the event thread goes on, and two of its passes set the
flag again: the one that completes the handshake of a client, and the second half of the one that
accepts a session.
-/

namespace AsyncMessenger

namespace Conn

variable {β : Type} {enc : Frame → List β} {K : Codec} {flags : CrcFlags}

/-- The next pass of the connection sets `queue_reset`. -/
def armsReset (c : Conn β) : Bool :=
  c.state == .connectingReady ||
    (c.state == .acceptingWaitConnectMsgAuth && c.opening.isSome && !c.notified &&
      (c.replacing == 0 || c.replacing == 2))

/-! ## Who sets the flag -/

theorem queueReset_trySend (c : Conn β) (bl : List β) (kernel : Option ℕ) :
    (c.trySend bl kernel).conn.queueReset = c.queueReset := by
  rcases c.trySend_cases bl kernel with h | ⟨k, b, h⟩ <;> rw [h]

theorem queueReset_sendThen (c : Conn β) (frames : List Frame) (next : State) (inp : Input β) :
    (c.sendThen enc frames next inp).conn.queueReset = c.queueReset := by
  rw [sendThen]
  split <;> exact c.queueReset_trySend _ _

/-- The rest of accepting a session leaves the flag alone if the dispatchers have been notified, or the
connection has been handed another socket meanwhile. -/
theorem queueReset_finishOpen {c : Conn β} {frames : List Frame} {next : State} {inp : Input β}
    (h : c.notified = false → ¬ (c.replacing = 0 ∨ c.replacing = 2)) :
    (c.finishOpen enc frames next inp).conn.queueReset = c.queueReset := by
  have hif : ¬ ((!c.notified) = true ∧ (c.replacing = 0 ∨ c.replacing = 2) ∧
      (!c.queueReset) = true) := fun hand ↦ h (by simpa using hand.1) hand.2.1
  simp only [finishOpen]
  rw [if_neg hif]
  exact queueReset_sendThen _ _ _ _

theorem queueReset_stop {c : Conn β} (h : c.queueReset = false) : c.stop.queueReset = false := by
  rw [stop]
  split_ifs
  · exact h
  · rfl

theorem queueReset_faultRetry (c : Conn β) : c.faultRetry.queueReset = c.queueReset := by
  simp only [faultRetry]
  split_ifs <;> rfl

theorem queueReset_fault {c : Conn β} (h : c.queueReset = false) : c.fault.queueReset = false := by
  rw [fault]
  split_ifs
  · exact h
  · exact queueReset_stop h
  · rw [queueReset_faultRetry]
    exact h

theorem queueReset_takeOver (c : Conn β) (random : ℕ) :
    (c.takeOver random).queueReset = c.queueReset := by
  rw [takeOver]
  split_ifs <;> rfl

theorem queueReset_doReplace {c : Conn β} {r : ReplaceInput} (h : c.queueReset = false) :
    (c.doReplace enc r).conn.queueReset = false := by
  have htake : (c.takeOver r.random).queueReset = false := (c.queueReset_takeOver r.random).trans h
  obtain ⟨reply, -, -, ⟨out, heq⟩ | ⟨k, b, heq⟩⟩ := c.doReplace_cases enc r
  · rw [heq]
    exact queueReset_fault htake
  · rw [heq]
    exact htake

/-- A move of the handshake that is neither of the two. -/
theorem Move.queueReset_eq {c : Conn β} {inp : Input β} {o : Outcome β} (h : Move enc c inp o)
    (hready : c.state ≠ .connectingReady)
    (hopening : c.state = .acceptingWaitConnectMsgAuth → c.opening = none)
    (hfalse : c.queueReset = false) : o.conn.queueReset = false := by
  have hprepares {d : Conn β} {frames : List Frame} {next : State}
      (hprep : Prepares c inp d frames next) : d.queueReset = false := by
    cases hprep with
    | reply frames next hs hsome =>
      rw [hopening hs] at hsome
      exact absurd hsome (by simp)
    | _ => exact hfalse
  cases h with
  | sends d frames next k evWrite s a hprep hnext => exact (hprepares hprep :)
  | failsSend d frames next hprep => exact (hprepares hprep :)
  | dials fd hs hserver hsd =>
    simp only [dial, hserver, hsd, goto]
    exact hfalse
  | failsDial hs hserver hsd =>
    simp only [dial, hserver, hsd, failed]
    exact hfalse
  | heeds d s g hs hheeds =>
    cases hheeds with
    | _ => exact hfalse
  | connected hs hseq => exact absurd hs hready
  | notifies hs hsome => exact absurd (hopening hs) hsome
  | handsOver p e reset fromPeer hs hnone hp he hv => exact queueReset_stop hfalse
  | opens p hs hnone hp hv =>
    simp only [openSession]
    split_ifs <;> exact hfalse
  | _ => exact hfalse

/-- A pass of a connection that is not armed leaves the flag cleared. -/
theorem queueReset_pass {c : Conn β} {inp : Input β} (harms : c.armsReset = false)
    (hfalse : c.queueReset = false) : (c.pass K flags enc inp).conn.queueReset = false := by
  simp only [armsReset, Bool.or_eq_false_iff, Bool.and_eq_false_iff, beq_eq_false_iff_ne] at harms
  obtain ⟨hready, harms⟩ := harms
  by_cases hsplit : c.state = .acceptingWaitConnectMsgAuth ∧ c.opening ≠ none
  · obtain ⟨hs, hopening⟩ := hsplit
    obtain ⟨⟨frames, next⟩, hsome⟩ := Option.ne_none_iff_exists'.mp hopening
    have hrepl (hfirst : c.notified = false) : ¬ (c.replacing = 0 ∨ c.replacing = 2) := by
      rw [hs, hsome, hfirst] at harms
      simpa using harms
    have hpass : c.pass K flags enc inp = c.finishOpen enc frames next inp := by
      rw [pass, processState_eq (by rw [hs]; rfl) (by rw [hs]; decide)]
      simp [processConnection, hs, hsome, State.code, State.ctorIdx]
    rw [hpass, queueReset_finishOpen hrepl]
    exact hfalse
  · have hopening (hs : c.state = .acceptingWaitConnectMsgAuth) : c.opening = none := by
      by_contra hne
      exact hsplit ⟨hs, hne⟩
    rcases pass_cases K flags enc c inp with
      ⟨hopen, heq⟩ | heq | ⟨-, heq⟩ | ⟨o, hmove, -, -, heq | ⟨-, heq⟩⟩
    · have hreads : c.Reads (c.processOpen K flags inp).conn := reads_processOpen hopen
      rw [heq]
      exact (congrArg Conn.queueReset hreads.1).trans hfalse
    · rw [heq]
      exact hfalse
    · rw [heq]
      exact hfalse
    · rw [heq]
      exact hmove.queueReset_eq hready hopening hfalse
    · rw [heq]
      exact hmove.queueReset_eq hready hopening hfalse

end Conn

namespace Node

variable {β : Type} {enc : Frame → List β} {K : Codec} {flags : CrcFlags}

/-- `_stop` queues a `D_BAD_RESET` in the step. No step that stops a connection touches `queue_reset`
before. -/
def queuesReset (n n' : Node β) : Bool := closes n n' && n.conn.queueReset

/-- A connection whose `queue_reset` is cleared gets it back in one of two passes only. -/
theorem queueReset_next {n n' : Node β} {e : Event β} (hfalse : n.conn.queueReset = false)
    (harms : ∀ inp, e = .pass inp → n.conn.armsReset = false)
    (hnext : n.next enc K flags e = some n') : n'.conn.queueReset = false := by
  have hshell {c c' : Conn β} (h : c'.shell = c.shell) (hc : c.queueReset = false) :
      c'.queueReset = false := (congrArg Conn.queueReset h).trans hc
  cases change_next hnext with
  | quiet e n' he hsh hloc => exact hshell hsh hfalse
  | connects m concurrent gather n' hs hserver hstopping hsh hloc => exact hshell hsh hfalse
  | setStopping marksDown => simp only [hfalse, Bool.false_and]
  | markDisposable =>
    rw [Conn.markDisposable]
    split_ifs
    · exact Conn.queueReset_stop hfalse
    · exact hfalse
  | cStop hidle hstopping => exact Conn.queueReset_stop hfalse
  | leave k n' hloc hsh hidle => exact hshell hsh (Conn.queueReset_stop hfalse)
  | handOver sd m auth reset fromPeer hbusy => exact hfalse
  | handleReplaceLate r hidle hev hrepl => exact hfalse
  | handleReplace r hidle hev hrepl => exact Conn.queueReset_doReplace hfalse
  | passes inp k n' hloc hflow hsh hloc' =>
    exact hshell hsh (Conn.queueReset_pass (harms inp rfl) hfalse)
  | waits inp k close n' hloc hflow hsh hloc' =>
    exact hshell hsh (Conn.queueReset_pass (harms inp rfl) hfalse)
  | givesUp e c close n' hup hafter =>
    have hc : c.queueReset = false := by
      cases hup with
      | pass inp k hloc hflow => exact Conn.queueReset_pass (harms inp rfl) hfalse
      | passClose inp k hloc hflow => exact Conn.queueReset_pass (harms inp rfl) hfalse
      | wake r k close prev hloc => exact hfalse
      | write gather r w pc hwin herror howner hloc => exact hfalse
    cases hafter with
    | replaced r hrepl hsh hloc => exact hshell hsh (Conn.queueReset_doReplace hc)
    | parts k hrepl hwhy hsh hloc => exact hshell hsh hc
    | faults hrepl hclose hclosed hstops hsh hloc =>
      exact hshell hsh ((Conn.queueReset_faultRetry c).trans hc)
    | closed hrepl hclosed hsh hloc => exact hshell hsh hc

end Node

/-- A connection and the calls of `mark_down` on it. -/
structure Marked (β : Type) where
  node : Node β
  /-- A `mark_down` has set `stopping` and, holding the messenger's lock, waits for the connection's; is
  it the owner of the event loop? -/
  pending : Option Bool := none
  /-- The calls of `mark_down` from other threads that wait for the connection to close. -/
  waiting : ℕ := 0
  /-- History: a `mark_down` has set `stopping`. -/
  marked : Bool := false
  /-- History: the `D_BAD_RESET` entries queued since. -/
  resets : ℕ := 0

/-- The steps of a connection that may be marked down. -/
inductive Call (β : Type)
  /-- `mark_down`, until it needs the connection's lock. -/
  | markDown (owner : Bool)
  /-- `mark_down` gets the connection's lock. -/
  | lock
  /-- `mark_down` wakes up. -/
  | woken
  /-- `stop`, which does not clear `queue_reset`. -/
  | stop
  | step (e : Event β)

namespace Marked

variable {β : Type}

/-- `mark_down` up to its call of `lock.Lock()`; the owner returns if the connection is stopping
already. -/
def markDown (s : Marked β) (owner : Bool) : Marked β :=
  if owner ∧ s.node.conn.stopping then s
  else { s with
    node := { s.node with conn := { s.node.conn with stopping := true } }
    pending := some owner
    marked := true }

/-- `queue_reset = false`. -/
def clear (s : Marked β) : Marked β :=
  { s with node := { s.node with conn := { s.node.conn with queueReset := false } } }

/-- `mark_down` with both locks: it releases the messenger's, clears the flag, and returns or begins to
wait. -/
def lock (s : Marked β) (owner : Bool) : Marked β :=
  if owner then { s.clear with pending := none }
  else if s.node.conn.state = .closed then { s with pending := none }
  else { s.clear with pending := none, waiting := s.waiting + 1 }

/-- The loop of `mark_down` goes round. -/
def woken (s : Marked β) : Marked β :=
  if s.node.conn.state = .closed then { s with waiting := s.waiting - 1 } else s.clear

variable (enc : Frame → List β) (K : Codec) (flags : CrcFlags)

/-- A step of the connection itself; `stopping` is set by the calls above. It cannot be one that stops
the connection while a `mark_down` holds the messenger's lock. -/
def advance (s : Marked β) (e : Event β) : Option (Marked β) :=
  if e.setsStopping then none
  else (s.node.next enc K flags e).bind fun n ↦
    if s.pending.isSome ∧ Node.closes s.node n then none
    else some { s with
      node := n
      resets := if s.marked ∧ Node.queuesReset s.node n then s.resets + 1 else s.resets }

/-- One step. -/
def step (s : Marked β) : Call β → Option (Marked β)
  | .markDown owner => if s.pending.isSome then none else some (s.markDown owner)
  | .lock => s.pending.map s.lock
  | .woken => if s.waiting = 0 then none else some s.woken
  | .stop => some { s with node := { s.node with conn := { s.node.conn with stopping := true } } }
  | .step e => s.advance enc K flags e

/-- Once `mark_down` has cleared `queue_reset`, no pass sets it again: none completes the handshake of a
client, and none resumes the acceptance of a session. -/
def Unarmed (s : Marked β) (e : Call β) : Prop :=
  ∀ inp, e = .step (.pass inp) → s.marked = true → s.pending = none →
    s.node.conn.armsReset = false

/-- Nothing has been queued, and nothing will be: the flag is cleared, or about to be. -/
structure Silent (s : Marked β) : Prop where
  later : s.node.conn.Later
  ended : s.node.conn.Ended
  resets : s.resets = 0
  cleared : s.marked = true → s.pending.isSome = true ∨ s.node.conn.queueReset = false

variable {enc K flags}

theorem silent_advance {s s' : Marked β} {e : Event β} (h : s.Silent) (hC : s.Unarmed (.step e))
    (hstep : s.advance enc K flags e = some s') : s'.Silent := by
  rw [advance, Option.ite_none_left_eq_some, Option.bind_eq_some_iff] at hstep
  obtain ⟨-, n, hnext, hsome⟩ := hstep
  rw [Option.ite_none_left_eq_some, Option.some_inj] at hsome
  obtain ⟨hfree, rfl⟩ := hsome
  have hlater : n.conn.Later := Node.later_next h.later hnext
  have hended : n.conn.Ended := Node.ended_next h.later h.ended hnext
  by_cases hmarked : s.marked = true
  · rcases h.cleared hmarked with hpending | hfalse
    · -- the messenger's lock is taken, and the step stops nothing
      have hopen : Node.closes s.node n = false := by
        by_contra hne
        exact hfree ⟨hpending, by simpa using hne⟩
      have hquiet : ¬ (s.marked = true ∧ Node.queuesReset s.node n = true) := by
        simp [Node.queuesReset, hopen]
      exact ⟨hlater, hended, (if_neg hquiet).trans h.resets, fun _ ↦ Or.inl hpending⟩
    · have hquiet : ¬ (s.marked = true ∧ Node.queuesReset s.node n = true) := by
        simp [Node.queuesReset, hfalse]
      refine ⟨hlater, hended, (if_neg hquiet).trans h.resets, fun _ ↦ ?_⟩
      cases hpending : s.pending with
      | some owner => exact Or.inl rfl
      | none =>
        refine Or.inr (Node.queueReset_next hfalse (fun inp he ↦ ?_) hnext)
        exact hC inp (congrArg Call.step he) hmarked hpending
  · have hquiet : ¬ (s.marked = true ∧ Node.queuesReset s.node n = true) := fun hand ↦ hmarked hand.1
    exact ⟨hlater, hended, (if_neg hquiet).trans h.resets, fun hm ↦ absurd hm hmarked⟩

theorem silent_clear {s : Marked β} (h : s.Silent) : s.clear.Silent :=
  ⟨h.later.congr rfl, fun hs ↦ ⟨(h.ended hs).1, (h.ended hs).2.1, rfl⟩, h.resets,
    fun _ ↦ Or.inr rfl⟩

theorem silent_step {s s' : Marked β} {e : Call β} (h : s.Silent) (hC : s.Unarmed e)
    (hstep : s.step enc K flags e = some s') : s'.Silent := by
  cases e with
  | markDown owner =>
    rw [step, Option.ite_none_left_eq_some, Option.some_inj] at hstep
    obtain ⟨-, rfl⟩ := hstep
    rw [markDown]
    split_ifs
    · exact h
    · exact ⟨h.later.congr rfl, h.ended, h.resets, fun _ ↦ Or.inl rfl⟩
  | lock =>
    rw [step, Option.map_eq_some_iff] at hstep
    obtain ⟨owner, -, rfl⟩ := hstep
    have hclear : s.clear.Silent := silent_clear h
    rw [lock]
    split_ifs with howner hclosed
    · exact ⟨hclear.later, hclear.ended, hclear.resets, fun _ ↦ Or.inr rfl⟩
    · exact ⟨h.later, h.ended, h.resets, fun _ ↦ Or.inr (h.ended hclosed).2.2⟩
    · exact ⟨hclear.later, hclear.ended, hclear.resets, fun _ ↦ Or.inr rfl⟩
  | woken =>
    rw [step, Option.ite_none_left_eq_some, Option.some_inj] at hstep
    obtain ⟨-, rfl⟩ := hstep
    rw [woken]
    split_ifs
    · exact ⟨h.later, h.ended, h.resets, h.cleared⟩
    · exact silent_clear h
  | stop =>
    rw [step, Option.some_inj] at hstep
    subst hstep
    exact ⟨h.later.congr rfl, h.ended, h.resets, h.cleared⟩
  | step e => exact silent_advance h hC hstep

/-- **`mark_down` is silent.** In every run in which no pass sets `queue_reset` again after a
`mark_down` has cleared it, no `D_BAD_RESET` is queued once `mark_down` has set `stopping`. -/
theorem no_reset_after_mark_down {n : Node β} {s : Marked β} {es : List (Call β)}
    (hinit : Node.Initial n) (hmeets : Run.Meets (step enc K flags) Unarmed { node := n } es)
    (hrun : Run.exec (step enc K flags) { node := n } es = some s) : s.resets = 0 := by
  have hsilent : s.Silent := by
    refine Run.invariant_of_meets (I := Silent) (fun s e s' h hC hs ↦ silent_step h hC hs) ?_ hmeets
      hrun
    obtain ⟨hlater, hended⟩ := Node.ended_initial hinit
    exact ⟨hlater, hended, rfl, fun hm ↦ absurd hm (by simp)⟩
  exact hsilent.resets

/-- `Unarmed`, for evaluation. -/
def unarmedTest (s : Marked β) (_ : Call β) : Bool :=
  !s.marked || s.pending.isSome || !s.node.conn.armsReset

theorem unarmed_of_test {s : Marked β} {e : Call β} (h : s.unarmedTest e = true) : s.Unarmed e := by
  intro inp _ hmarked hpending
  simpa [unarmedTest, hmarked, hpending] using h

/-- The steps of an accepted connection up to the point where it has been registered and has released
its lock, and the calls `between`; then it answers, and `C_stop` runs. -/
def acceptAndStop (between : List (Call Frame)) (after : List (Call Frame)) : List (Call Frame) :=
  ((Node.acceptRun {} (Policy.losslessPeer 0 0)).take 5).map Call.step ++ between ++
    [.step (.pass {}), .step (.pass { kernel := some 1 })] ++ after ++ [.step .cStop]

/-- The frames themselves as output units, the trivial codec, both checksums. -/
abbrev frameStep : Marked Frame → Call Frame → Option (Marked Frame) :=
  step (fun f ↦ [f]) Codec.trivial ⟨true, true⟩

/-- A `mark_down` that comes when the session is accepted. -/
theorem no_reset_after_mark_down_late :
    (Run.exec frameStep { node := Node.accepted ⟨0, .acc⟩ }
        (acceptAndStop [] [.markDown false, .lock, .step (.pass {})])).map
      (fun s ↦ (s.marked, s.node.conn.state)) = some (true, .closed) ∧
    ∀ s, Run.exec frameStep { node := Node.accepted ⟨0, .acc⟩ }
        (acceptAndStop [] [.markDown false, .lock, .step (.pass {})]) = some s → s.resets = 0 := by
  refine ⟨by decide +kernel, fun s hrun ↦ ?_⟩
  refine no_reset_after_mark_down (.accepted _) ?_ hrun
  exact Run.Meets.of_check (fun _ _ ↦ unarmed_of_test) (by decide +kernel)

/-- A `mark_down` that comes while `handle_connect_msg` has released the lock to register the
connection: it clears `queue_reset`, the other half of `handle_connect_msg` sets it again, and `_stop`
queues a `D_BAD_RESET`. -/
theorem reset_after_mark_down_while_accepting :
    (Run.exec frameStep { node := Node.accepted ⟨0, .acc⟩ }
        (acceptAndStop [.markDown false, .lock] [])).map
      (fun s ↦ (s.marked, s.node.conn.state, s.resets)) = some (true, .closed, 1) := by
  decide +kernel

end Marked

end AsyncMessenger
