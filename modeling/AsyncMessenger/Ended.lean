import AsyncMessenger.Changes
import AsyncMessenger.Moves
import AsyncMessenger.StateMachine

/-!
# Closed connections

`STATE_CLOSED` is final. `_stop` is the only way into it, and it leaves behind a connection that
owes nobody anything: no socket of another connection, no replacement, no notification. Nothing that
can still happen to such a connection changes that.

A step may still come, because the event thread may be inside a pass when another thread closes the
connection, and a `C_stop` may be on its way. What such a step finds is a connection in
`STATE_CLOSED`, whose pass does nothing (`pass_of_closed`), whose `fault` returns at once, and whose
flag `replacing` is down.

`Ended` is the invariant, kept by every move of the handshake (`Move.ended`) and with it by every
step (`ended_next`). `stopping` is followed here as well, since nothing but `mark_down` and `stop`
touches it (`stopping_next`).
-/

namespace AsyncMessenger

namespace Conn

variable {β : Type} {enc : Frame → List β} {K : Codec} {flags : CrcFlags}

/-- A closed connection has been through `_stop`. -/
def Ended (c : Conn β) : Prop :=
  c.state = .closed → c.replacing = 0 ∧ c.replacingSd = none ∧ c.queueReset = false

theorem Ended.of_ne {c : Conn β} (h : c.state ≠ .closed) : c.Ended := fun hs ↦ absurd hs h

theorem Ended.congr {c c' : Conn β} (h : c.Ended) (hshell : c'.shell = c.shell) : c'.Ended := by
  intro hs
  have hold : c.state = .closed := (congrArg Conn.state hshell).symm.trans hs
  obtain ⟨hrepl, hsd, hreset⟩ := h hold
  exact ⟨(congrArg Conn.replacing hshell).trans hrepl,
    (congrArg Conn.replacingSd hshell).trans hsd, (congrArg Conn.queueReset hshell).trans hreset⟩

theorem ended_stop {c : Conn β} (h : c.Ended) : c.stop.Ended := by
  rw [stop]
  split_ifs
  · exact h
  · exact fun _ ↦ ⟨rfl, rfl, rfl⟩

theorem faultRetry_ne_closed (c : Conn β) : c.faultRetry.state ≠ .closed := by
  simp only [faultRetry]
  split_ifs <;> simp

theorem ended_doReplace (c : Conn β) (r : ReplaceInput) : (c.doReplace enc r).conn.Ended := by
  have htake : (c.takeOver r.random).state = .acceptingWaitConnectMsg :=
    (c.takeOver_frame r.random).2.2
  obtain ⟨reply, -, -, ⟨out, h⟩ | ⟨k, b, h⟩⟩ := c.doReplace_cases enc r
  · rw [h]
    generalize hd : ({ c.takeOver r.random with outcomingBl := out, replacing := 0 } : Conn β) = d
    have hs : d.state ≠ .closed := by
      rw [← hd]
      exact fun hclosed ↦ absurd (htake.symm.trans hclosed) (by decide)
    have hfault : d.fault.Ended := by
      rw [fault, if_neg hs]
      split_ifs
      · exact ended_stop (.of_ne hs)
      · exact .of_ne d.faultRetry_ne_closed
    exact hfault
  · rw [h]
    exact .of_ne (by simp [clearAuthorizerReply])

theorem stopping_faultRetry (c : Conn β) : c.faultRetry.stopping = c.stopping := by
  simp only [faultRetry]
  split_ifs <;> rfl

theorem stopping_doReplace (c : Conn β) (r : ReplaceInput) :
    (c.doReplace enc r).conn.stopping = c.stopping := by
  have htake : (c.takeOver r.random).stopping = c.stopping := by
    rw [takeOver]
    split_ifs <;> rfl
  obtain ⟨reply, -, -, ⟨out, h⟩ | ⟨k, b, h⟩⟩ := c.doReplace_cases enc r
  · rw [h]
    generalize hd : ({ c.takeOver r.random with outcomingBl := out, replacing := 0 } : Conn β) = d
    have hfault : d.fault.stopping = d.stopping := by
      rw [fault]
      split_ifs
      · rfl
      · exact congrArg (fun t ↦ t.2.2.1) (threadFlags_stop d)
      · exact stopping_faultRetry d
    apply hfault.trans
    rw [← hd]
    exact htake
  · rw [h]
    exact htake

theorem ended_markDisposable {c : Conn β} (h : c.Ended) : c.markDisposable.Ended := by
  simp only [markDisposable]
  split_ifs
  · exact ended_stop h
  · exact h

/-- A move of the handshake ends in `STATE_CLOSED` only by handing the socket over. -/
theorem Move.ended {c : Conn β} {inp : Input β} {o : Outcome β} (h : Move enc c inp o)
    (hlater : c.Later) (hended : c.Ended) : o.conn.Ended := by
  have hprepares {d : Conn β} {frames : List Frame} {next : State}
      (hprep : Prepares c inp d frames next) : next ≠ .closed ∧ d.state ≠ .closed := by
    cases hprep with
    | reply frames next hs hsome =>
      refine ⟨?_, by simp [hs]⟩
      rcases hlater.opening frames next hsome with rfl | rfl <;> decide
    | banner hs | addr hs | greeting hs | connect _ _ hs | seq _ hs =>
      exact ⟨by decide, by simp [hs]⟩
  cases h with
  | flushes hs hout hafter =>
    refine .of_ne fun hclosed ↦ ?_
    rcases hlater.afterSend with hnone | hmem
    · exact hafter hnone
    · have hstate : c.stateAfterSend = .closed := hclosed
      rw [hstate] at hmem
      exact absurd hmem (by decide)
  | dials fd hs hserver hsd => exact .of_ne (by simp [dial, hserver, hsd, goto])
  | failsDial hs hserver hsd => exact .of_ne (by simp [dial, hserver, hsd, failed, hs])
  | sends d frames next k evWrite s a hprep hnext =>
    refine .of_ne ?_
    cases hnext with
    | now => exact (hprepares hprep).1
    | later => simp
  | failsSend d frames next hprep => exact .of_ne (hprepares hprep).2
  | heeds d s g hs hheeds =>
    refine .of_ne ?_
    cases hheeds <;> simp
  | connected hs hseq => exact .of_ne (by simp [connectDone, hseq])
  | failsReply p out effect replacing hs => exact .of_ne (by simp [hs])
  | handsOver p e reset fromPeer hs => exact ended_stop (.of_ne (by simp [hs]))
  | opens p hs =>
    refine .of_ne ?_
    simp only [openSession]
    split_ifs <;> simp [hs]
  | notifies hs => exact .of_ne (by simp [hs])
  | waits | aborts | fails => exact hended
  | _ => exact .of_ne (by simp)

theorem ended_pass {c : Conn β} {inp : Input β} (hlater : c.Later) (hended : c.Ended) :
    (c.pass K flags enc inp).conn.Ended := by
  rcases pass_cases K flags enc c inp with
    ⟨hopen, heq⟩ | heq | ⟨-, heq⟩ | ⟨o, hmove, -, -, heq | ⟨-, heq⟩⟩
  · rw [heq]
    have hreads : c.Reads (c.processOpen K flags inp).conn := reads_processOpen hopen
    refine .of_ne fun hs ↦ ?_
    have hfalse := hreads.2
    rw [hs] at hfalse
    exact absurd hfalse (by decide)
  · rw [heq]
    exact hended
  · rw [heq]
    exact .of_ne (by simp [failed])
  · rw [heq]
    exact hmove.ended hlater hended
  · rw [heq]
    exact hmove.ended hlater hended

/-- A pass of a closed connection does nothing. -/
theorem pass_of_closed {c : Conn β} {inp : Input β} (hs : c.state = .closed) :
    c.pass K flags enc inp = { conn := c, gseq := inp.gseq } := by
  simp [pass, processState, hs, State.isOpen, State.code, State.ctorIdx]

end Conn

namespace Node

variable {β : Type} {enc : Frame → List β} {K : Codec} {flags : CrcFlags}

open Conn

/-- The step stops the connection. -/
def closes (n n' : Node β) : Bool := n.conn.state != .closed && n'.conn.state == .closed

/-- What a connection gives up with has been through `_stop` if it is closed. -/
theorem GivesUp.ended {n : Node β} {e : Event β} {close : Bool} {c : Conn β}
    (h : GivesUp enc K flags n e close c) (hlater : n.conn.Later) (hended : n.conn.Ended) :
    c.Ended := by
  cases h with
  | pass | passClose => exact ended_pass hlater hended
  | wake => exact hended
  | write => exact hended

theorem ended_next {n n' : Node β} {e : Event β} (hlater : n.conn.Later) (hended : n.conn.Ended)
    (hnext : n.next enc K flags e = some n') : n'.conn.Ended := by
  cases change_next hnext with
  | quiet e n' he hshell hloc => exact hended.congr hshell
  | connects m concurrent gather n' hs hserver hstopping hshell hloc =>
    refine .of_ne fun hclosed ↦ ?_
    exact absurd ((congrArg Conn.state hshell).symm.trans hclosed) (by simp [shell])
  | setStopping marksDown =>
    intro hs
    exact ⟨(hended hs).1, (hended hs).2.1, by simp only [(hended hs).2.2, Bool.false_and]⟩
  | markDisposable => exact ended_markDisposable hended
  | cStop hidle hstopping => exact ended_stop hended
  | leave k n' hloc hshell hidle => exact (ended_stop hended).congr hshell
  | handOver sd m auth reset fromPeer hbusy =>
    refine .of_ne fun hs ↦ ?_
    have hstate : n.conn.state = .closed := hs
    exact absurd hbusy (by simp [busy, hstate])
  | handleReplaceLate r hidle hev hrepl => exact hended
  | handleReplace r hidle hev hrepl => exact ended_doReplace _ r
  | passes inp k n' hloc hflow hshell hloc' => exact (ended_pass hlater hended).congr hshell
  | waits inp k close n' hloc hflow hshell hloc' => exact (ended_pass hlater hended).congr hshell
  | givesUp e c close n' hup hafter =>
    cases hafter with
    | replaced r hrepl hshell hloc => exact (ended_doReplace c r).congr hshell
    | parts k hrepl hwhy hshell hloc => exact (hup.ended hlater hended).congr hshell
    | faults hrepl hclose hclosed hstops hshell hloc =>
      exact (Ended.of_ne c.faultRetry_ne_closed).congr hshell
    | closed hrepl hclosed hshell hloc => exact (hup.ended hlater hended).congr hshell

/-- **A closed connection stays closed.** -/
theorem closed_next {n n' : Node β} {e : Event β} (hended : n.conn.Ended)
    (hs : n.conn.state = .closed) (hnext : n.next enc K flags e = some n') :
    n'.conn.state = .closed := by
  have hrepl : n.conn.replacing ≠ 1 := by
    rw [(hended hs).1]
    decide
  have hpass (inp : Input β) : (n.conn.pass K flags enc inp).conn = n.conn := by
    rw [pass_of_closed hs]
  have hstate {c c' : Conn β} (h : c'.shell = c.shell) : c'.state = c.state :=
    (congrArg Conn.state h :)
  cases change_next hnext with
  | quiet e n' he hshell hloc => exact (hstate hshell).trans hs
  | connects m concurrent gather n' hstandby => exact absurd (hs.symm.trans hstandby) (by decide)
  | setStopping => exact hs
  | markDisposable =>
    simp only [Conn.markDisposable]
    split_ifs
    · exact state_stop _
    · exact hs
  | cStop hidle hstopping => exact state_stop _
  | leave k n' hloc hshell hidle => exact (hstate hshell).trans (state_stop _)
  | handOver sd m auth reset fromPeer hbusy => exact hs
  | handleReplaceLate r hidle hev hrepl => exact hs
  | handleReplace r hidle hev hone => exact absurd hone hrepl
  | passes inp k n' hloc hflow hshell hloc' =>
    exact (hstate hshell).trans (by rw [hpass inp, hs])
  | waits inp k close n' hloc hflow hshell hloc' =>
    exact (hstate hshell).trans (by rw [hpass inp, hs])
  | givesUp e c close n' hup hafter =>
    have hc : c.state = .closed ∧ c.replacing ≠ 1 := by
      cases hup with
      | pass | passClose =>
        rw [hpass]
        exact ⟨hs, hrepl⟩
      | wake | write => exact ⟨hs, hrepl⟩
    cases hafter with
    | replaced r hone => exact absurd hone hc.2
    | parts k hrepl hwhy hshell hloc => exact (hstate hshell).trans hc.1
    | faults hrepl hclose hclosed => exact absurd hc.1 hclosed
    | closed hrepl hclosed hshell hloc => exact (hstate hshell).trans hc.1

/-- `stopping` is set by `mark_down` and `stop`, and never cleared. -/
theorem stopping_next {n n' : Node β} {e : Event β} (hnext : n.next enc K flags e = some n') :
    n'.conn.stopping = (n.conn.stopping || e.setsStopping) := by
  have hpass (inp : Input β) : (n.conn.pass K flags enc inp).conn.stopping = n.conn.stopping :=
    congrArg (fun t ↦ t.2.2.1) (threadFlags_pass n.conn inp)
  have hstop (c : Conn β) : c.stop.stopping = c.stopping :=
    congrArg (fun t ↦ t.2.2.1) (threadFlags_stop c)
  have hsh {c c' : Conn β} (h : c'.shell = c.shell) : c'.stopping = c.stopping :=
    (congrArg Conn.stopping h :)
  -- every step but `mark_down` and `stop` leaves it alone
  have hkeeps (h : n'.conn.stopping = n.conn.stopping) (he : e.setsStopping = false) :
      n'.conn.stopping = (n.conn.stopping || e.setsStopping) := by
    rw [h, he, Bool.or_false]
  cases change_next hnext with
  | quiet e n' he hshell hloc =>
    exact hkeeps (hsh hshell) he
  | connects m concurrent gather n' hs hserver hstopping hshell hloc =>
    exact hkeeps ((hsh hshell).trans rfl) rfl
  | setStopping => simp [Event.setsStopping]
  | markDisposable =>
    refine hkeeps ?_ rfl
    simp only [Conn.markDisposable]
    split_ifs
    · exact hstop _
    · rfl
  | cStop hidle hstopping => exact hkeeps (hstop _) rfl
  | leave k n' hloc hshell hidle =>
    exact hkeeps ((hsh hshell).trans (hstop _)) rfl
  | handOver sd m auth reset fromPeer hbusy => exact hkeeps rfl rfl
  | handleReplaceLate r hidle hev hrepl => exact hkeeps rfl rfl
  | handleReplace r hidle hev hrepl => exact hkeeps (stopping_doReplace _ r) rfl
  | passes inp k n' hloc hflow hshell hloc' =>
    exact hkeeps ((hsh hshell).trans (hpass inp)) rfl
  | waits inp k close n' hloc hflow hshell hloc' =>
    exact hkeeps ((hsh hshell).trans (hpass inp)) rfl
  | givesUp e c close n' hup hafter =>
    have hc : c.stopping = n.conn.stopping ∧ e.setsStopping = false := by
      cases hup with
      | pass | passClose => exact ⟨hpass _, rfl⟩
      | wake | write => exact ⟨rfl, rfl⟩
    refine hkeeps (Eq.trans ?_ hc.1) hc.2
    cases hafter with
    | replaced r hrepl hshell hloc =>
      exact (hsh hshell).trans (stopping_doReplace c r)
    | parts k hrepl hwhy hshell hloc => exact hsh hshell
    | faults hrepl hclose hclosed hstops hshell hloc =>
      exact (hsh hshell).trans (stopping_faultRetry c)
    | closed hrepl hclosed hshell hloc => exact hsh hshell

theorem ended_initial {n : Node β} (h : Initial n) : n.conn.Later ∧ n.conn.Ended := by
  cases h with
  | outgoing policy =>
    exact ⟨later_outgoing _, .of_ne (by simp [outgoing, Conn.connect])⟩
  | accepted fd => exact ⟨later_accepted _, .of_ne (by simp [accepted])⟩

end Node

end AsyncMessenger
