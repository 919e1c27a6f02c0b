import AsyncMessenger.Stages

/-!
# Handing a socket over

A connection that accepts a peer which already has a registered connection hands its socket over: it
stores it in the other connection's `replacing_sd`, sets `replacing` to 1 and schedules the timer of
`handle_replace`, all under the other's lock. From then on the other connection owns the socket, and
every path of its threads has to notice: `do_process` and `handle_write` test `replacing` at their
labels `fail`, and `_stop` closes the socket.

One path does not. The open part of `handle_connect_msg` releases the lock of its connection to
register it, and from that moment on the connection can be found and handed a socket; when it takes the
lock again it goes on as before, and clears `replacing` at its end. It may release the lock once more on
the way, to notify the dispatchers, so there are two windows in which a socket is lost. In both of them
`Conn.opening` still holds the reply that is to be sent, and `Undisturbed` says that no socket arrives
then.

## The invariant

`Claimed` ties the three fields of a hand-over together: a socket in `replacing_sd`, `replacing = 1`, and
a timer that is set or has just fired. It also says that a connection with a prepared reply has no claim on
it, which is what the two windows would break, and that a connection that is still waiting for a connect
message has a socket to hand over. `Disposes` follows one socket through one step.
-/

namespace AsyncMessenger

namespace Conn

variable {β : Type} {enc : Frame → List β} {K : Codec} {flags : CrcFlags} {running : Bool}

/-- What holds of a claim: there is a socket exactly in the first stage, and then somebody will come for
it; `running` says that the callback of the timer is running. A connection that is being accepted has a
socket to hand over. -/
structure Claimed (running : Bool) (c : Conn β) : Prop where
  socket : c.replacingSd ≠ none ↔ c.replacing = 1
  timer : c.replacing = 1 → c.evReplace = true ∨ running = true
  opening : c.opening ≠ none → c.replacing ≠ 1
  sd : c.phase ∈ State.awaiting → c.sd ≠ none

theorem Claimed.of_shell {c c' : Conn β} (h : c.Claimed running) (hshell : c'.shell = c.shell) :
    c'.Claimed running := by
  have hclaim : c'.claim = c.claim := (congrArg claim hshell :)
  have hopening : c'.opening = c.opening := (congrArg Conn.opening hshell :)
  have hsd : c'.sd = c.sd := (congrArg Conn.sd hshell :)
  simp only [claim, Prod.mk.injEq] at hclaim
  obtain ⟨hrepl, hsock, hev⟩ := hclaim
  refine ⟨?_, ?_, ?_, ?_⟩
  · rw [hsock, hrepl]
    exact h.socket
  · rw [hrepl, hev]
    exact h.timer
  · rw [hrepl, hopening]
    exact h.opening
  · rw [phase_eq_of_shell hshell, hsd]
    exact h.sd

/-- A connection without a claim. -/
theorem Claimed.of_none {c : Conn β} (hrepl : c.replacing ≠ 1) (hsock : c.replacingSd = none)
    (hsd : c.phase ∈ State.awaiting → c.sd ≠ none) : c.Claimed running :=
  ⟨⟨fun h ↦ absurd hsock h, fun h ↦ absurd h hrepl⟩, fun h ↦ absurd h hrepl, fun _ ↦ hrepl, hsd⟩

theorem Claimed.replacingSd_eq_none {c : Conn β} (h : c.Claimed running) (hrepl : c.replacing ≠ 1) :
    c.replacingSd = none := by
  by_contra hne
  exact hrepl (h.socket.mp hne)

theorem claimed_stop {c : Conn β} (h : c.Claimed running) : c.stop.Claimed running := by
  by_cases hs : c.state = .closed
  · rw [stop, if_pos hs]
    exact h
  · rw [stop, if_neg hs]
    exact .of_none (by simp) rfl fun hmem ↦
      absurd hmem (by rw [phase_of_state (s := .closed) rfl (by decide)]; decide)

theorem claimed_faultRetry {c : Conn β} (h : c.Claimed running) (hrepl : c.replacing ≠ 1) :
    c.faultRetry.Claimed running := by
  have hclaim := c.claim_faultRetry
  simp only [claim, Prod.mk.injEq] at hclaim
  refine .of_none ?_ ?_ fun hmem ↦ absurd hmem c.not_awaiting_faultRetry
  · rw [hclaim.1]
    decide
  · rw [hclaim.2.1]
    exact h.replacingSd_eq_none hrepl

theorem claimed_doReplace {c : Conn β} {r : ReplaceInput} {running' : Bool} (h : c.Claimed running)
    (hone : c.replacing = 1) : (c.doReplace enc r).conn.Claimed running' := by
  obtain ⟨hsock, ⟨hrepl, hsd, -⟩ | ⟨hrepl, -, hphase⟩⟩ := doReplace_claim enc c r
  · refine .of_none (by rw [hrepl]; decide) hsock fun _ ↦ ?_
    rw [hsd]
    exact h.socket.mpr hone
  · exact .of_none (by rw [hrepl]; decide) hsock fun hmem ↦ absurd hmem hphase

/-- A pass keeps a claim, unless it answers a connect message with the claim on it. -/
theorem claimed_pass {c : Conn β} {inp : Input β} (hlater : c.Later) (h : c.Claimed running)
    (hask : c.state = .acceptingWaitConnectMsgAuth → c.replacing ≠ 1) :
    (c.pass K flags enc inp).conn.Claimed running := by
  have hkeeps : c.Keeps (c.pass K flags enc inp) := keeps_pass hlater
  have hsd (hmem : (c.pass K flags enc inp).conn.phase ∈ State.awaiting) :
      (c.pass K flags enc inp).conn.sd ≠ none := by
    obtain ⟨hphase, heq⟩ := hkeeps.sd hmem
    rw [heq]
    exact h.sd hphase
  rcases hkeeps.claim with heq | ⟨hs, heq | heq⟩ <;> simp only [claim, Prod.mk.injEq] at heq
  · obtain ⟨hrepl, hsock, hev⟩ := heq
    refine ⟨?_, ?_, fun hopening ↦ ?_, hsd⟩
    · rw [hsock, hrepl]
      exact h.socket
    · rw [hrepl, hev]
      exact h.timer
    · rw [hrepl]
      rcases hkeeps.opening hopening with hopening | ⟨hs, -⟩
      · exact h.opening hopening
      · exact hask hs
  · exact .of_none (by rw [heq.1]; decide) heq.2.1 hsd
  · exact .of_none (by rw [heq.1]; decide) (heq.2.1.trans (h.replacingSd_eq_none (hask hs))) hsd

/-- A claim outlives a pass. -/
theorem claim_pass {c : Conn β} {inp : Input β} (hlater : c.Later)
    (hask : c.state ≠ .acceptingWaitConnectMsgAuth) :
    (c.pass K flags enc inp).conn.claim = c.claim :=
  ((keeps_pass hlater).claim).resolve_right fun h ↦ hask h.1

end Conn

namespace Node

variable {β : Type} {enc : Frame → List β} {K : Codec} {flags : CrcFlags}

open Conn

/-! ## A claim and the threads of a connection -/

/-- What holds of a claim between the steps. -/
structure Owned (reg running : Bool) (n : Node β) : Prop where
  staged : n.Staged reg
  claimed : n.conn.Claimed running

theorem Owned.ask {n : Node β} {reg running : Bool} {k : Caller} (h : n.Owned reg running)
    (hloc : n.loc = .process k) (hs : n.conn.state = .acceptingWaitConnectMsgAuth) :
    n.conn.replacing ≠ 1 := by
  by_cases hopening : n.conn.opening = none
  · exact h.staged.ask hloc hs hopening
  · exact h.claimed.opening hopening

theorem GivesUp.claimed {n : Node β} {e : Event β} {close : Bool} {c : Conn β} {reg running : Bool}
    (hup : GivesUp enc K flags n e close c) (hlater : n.conn.Later) (h : n.Owned reg running) :
    c.Claimed running := by
  cases hup with
  | pass inp k hloc hflow => exact claimed_pass hlater h.claimed (h.ask hloc)
  | passClose inp k hloc hflow => exact claimed_pass hlater h.claimed (h.ask hloc)
  | wake => exact h.claimed
  | write => exact h.claimed.of_shell rfl

theorem claimed_next {n n' : Node β} {e : Event β} {reg running : Bool} (hlater : n.conn.Later)
    (h : n.Owned reg running) (hforeign : e.isForeign = false)
    (hnext : n.next enc K flags e = some n') : n'.conn.Claimed running := by
  cases change_next hnext with
  | quiet e n' he hshell hloc => exact h.claimed.of_shell hshell
  | connects m concurrent gather n' hs hserver hstopping hshell hloc =>
    refine Claimed.of_shell ?_ hshell
    refine ⟨h.claimed.socket, h.claimed.timer, h.claimed.opening, fun hmem ↦ ?_⟩
    rw [phase_of_state (s := .connecting) rfl (by decide)] at hmem
    exact absurd hmem (by decide)
  | setStopping => exact ⟨h.claimed.socket, h.claimed.timer, h.claimed.opening, h.claimed.sd⟩
  | markDisposable =>
    have hlossy : ({ n.conn with policy := { n.conn.policy with lossy := true } } : Conn β).Claimed
        running := ⟨h.claimed.socket, h.claimed.timer, h.claimed.opening, h.claimed.sd⟩
    simp only [Conn.markDisposable]
    split_ifs
    · exact claimed_stop hlossy
    · exact hlossy
  | cStop hidle hstopping => exact claimed_stop h.claimed
  | leave k n' hloc hshell hidle => exact (claimed_stop h.claimed).of_shell hshell
  | handOver | handleReplaceLate | handleReplace => exact absurd hforeign (by simp [Event.isForeign])
  | passes inp k n' hloc hflow hshell hloc' =>
    exact (claimed_pass hlater h.claimed (h.ask hloc)).of_shell hshell
  | waits inp k close n' hloc hflow hshell hloc' =>
    exact (claimed_pass hlater h.claimed (h.ask hloc)).of_shell hshell
  | givesUp e c close n' hup hafter =>
    have hc : c.Claimed running := hup.claimed hlater h
    cases hafter with
    | replaced r hrepl hshell hloc => exact (claimed_doReplace hc hrepl).of_shell hshell
    | parts k hrepl hwhy hshell hloc => exact hc.of_shell hshell
    | faults hrepl hclose hclosed hstops hshell hloc =>
      exact (claimed_faultRetry hc hrepl).of_shell hshell
    | closed hrepl hclosed hshell hloc => exact hc.of_shell hshell

/-! ## What becomes of the socket -/

variable (enc) in
/-- What becomes of a socket that has been handed over, in a step after which the connection is `c'`. -/
inductive Disposes (fd : Fd) (c' : Conn β) : Prop
  | waits (h : c'.replacingSd = some fd)
  /-- `do_replace` takes it over. -/
  | taken (c : Conn β) (r : ReplaceInput) (hsock : c.replacingSd = some fd)
      (h : c'.shell = (c.doReplace enc r).conn.shell)
  /-- `_stop` closes it. -/
  | closed (c : Conn β) (hsock : c.replacingSd = some fd) (hs : c.state ≠ .closed)
      (h : c'.shell = c.stop.shell)

theorem disposes_next {n n' : Node β} {e : Event β} {reg running : Bool} {fd : Fd}
    (hlater : n.conn.Later) (hended : n.conn.Ended) (h : n.Owned reg running)
    (hsock : n.conn.replacingSd = some fd) (hforeign : e.isForeign = false)
    (hnext : n.next enc K flags e = some n') : Disposes enc fd n'.conn := by
  have hone : n.conn.replacing = 1 := h.claimed.socket.mp (by simp [hsock])
  -- `_stop` would have closed the socket
  have hs : n.conn.state ≠ .closed := by
    intro hs
    exact absurd ((hended hs).1.symm.trans hone) (by decide)
  have hsame {c c' : Conn β} (h : c'.shell = c.shell) : c'.replacingSd = c.replacingSd :=
    (congrArg Conn.replacingSd h :)
  have hpass (inp : Input β) {k : Caller} (hloc : n.loc = .process k) :
      (n.conn.pass K flags enc inp).conn.claim = n.conn.claim :=
    claim_pass hlater fun hask ↦ h.ask hloc hask hone
  have hpasses {inp : Input β} {k : Caller} (hloc : n.loc = .process k)
      (hshell : n'.conn.shell = (n.conn.pass K flags enc inp).conn.shell) :
      Disposes enc fd n'.conn := by
    have hclaim := hpass inp hloc
    simp only [claim, Prod.mk.injEq] at hclaim
    exact .waits ((hsame hshell).trans (hclaim.2.1.trans hsock))
  cases change_next hnext with
  | quiet e n' he hshell hloc => exact .waits ((hsame hshell).trans hsock)
  | connects m concurrent gather n' hs hserver hstopping hshell hloc =>
    exact .waits ((hsame hshell).trans hsock)
  | setStopping => exact .waits hsock
  | markDisposable =>
    by_cases hstandby : n.conn.state = .standby
    · refine .closed { n.conn with policy := { n.conn.policy with lossy := true } } hsock hs ?_
      rw [Conn.markDisposable, if_pos hstandby]
    · rw [Conn.markDisposable, if_neg hstandby]
      exact .waits hsock
  | cStop hidle hstopping => exact .closed n.conn hsock hs rfl
  | leave k n' hloc hshell hidle => exact .closed n.conn hsock hs hshell
  | handOver | handleReplaceLate | handleReplace => exact absurd hforeign (by simp [Event.isForeign])
  | passes inp k n' hloc hflow hshell hloc' => exact hpasses hloc hshell
  | waits inp k close n' hloc hflow hshell hloc' => exact hpasses hloc hshell
  | givesUp e c close n' hup hafter =>
    have hc : c.replacing = 1 ∧ c.replacingSd = some fd := by
      cases hup with
      | pass inp k hloc hflow | passClose inp k hloc hflow =>
        have hclaim := hpass inp hloc
        simp only [claim, Prod.mk.injEq] at hclaim
        exact ⟨hclaim.1.trans hone, hclaim.2.1.trans hsock⟩
      | wake | write => exact ⟨hone, hsock⟩
    cases hafter with
    | replaced r hrepl hshell hloc => exact .taken c r hc.2 hshell
    | parts k hrepl | faults hrepl | closed hrepl => exact absurd hc.1 hrepl

end Node

namespace Messenger

variable {α β : Type} {s : Messenger α β} {enc : Frame → List β} {K : Codec} {flags : CrcFlags}

/-- No connection hands its socket over to one that has a reply prepared and not sent yet, having released
its lock to register itself or to notify the dispatchers. -/
def Undisturbed (enc : Frame → List β) (K : Codec) (flags : CrcFlags) (s : Messenger α β)
    (act : Action α β) : Prop :=
  ∀ j a inp i c, act = .run j a (.pass inp) → s.existing j = some i →
    ((s.member j).node.conn.pass K flags enc (s.fillInput j inp)).effect = .replace c →
    (s.member i).node.conn.opening = none

/-- The claims on a connection, as the messenger knows it. -/
def Owned (reg : Bool) (m : Member α β) : Prop := m.node.Owned reg m.inReplace

theorem claimed_turn {act : Action α β} {i : ℕ} {reg : Bool} {m : Member α β} (h : s.Registry)
    (hall : ∀ j < s.count, Owned (s.registered j) (s.member j)) (hC : Undisturbed enc K flags s act)
    (hi : i < s.count) (hturn : Turn enc K flags s i act reg m) :
    m.node.conn.Claimed m.inReplace := by
  have howned := hall i hi
  have hclaimed := howned.claimed
  cases hturn with
  | still act hact => exact hclaimed
  | steps a e res hforeign hbegins hstep =>
    exact Node.claimed_next (h.sane i hi).later howned ((isForeign_fill i e).trans hforeign)
      (Node.next_of_step hstep)
  | handedOver j k a inp p reset fromPeer hj hex hloc hs hopening hv heffect =>
    obtain ⟨c, hc⟩ := heffect
    have hopen : (s.member i).node.conn.opening = none := hC j a inp i c rfl hex hc
    have hsd : (s.member j).node.conn.sd ≠ none :=
      (hall j hj).claimed.sd (Conn.phase_mem_awaiting hs (by decide))
    exact ⟨⟨fun _ ↦ rfl, fun _ ↦ hsd⟩, fun _ ↦ Or.inl rfl, fun hne ↦ absurd hopen hne, hclaimed.sd⟩
  | woken act c hact hshell => exact hclaimed.of_shell hshell
  | timer hidle hev =>
    exact ⟨hclaimed.socket, fun _ ↦ Or.inr rfl, hclaimed.opening, hclaimed.sd⟩
  | replaces r hin =>
    by_cases hrepl : (s.member i).node.conn.replacing = 1
    · have hreplace : ((s.member i).node.replace enc r).conn =
          ((s.member i).node.conn.doReplace enc r).conn := by
        rw [Node.replace, if_pos hrepl]
      rw [hreplace]
      exact Conn.claimed_doReplace hclaimed hrepl
    · have hreplace : (s.member i).node.replace enc r = (s.member i).node := by
        rw [Node.replace, if_neg hrepl]
      rw [hreplace]
      exact ⟨hclaimed.socket, fun hone ↦ absurd hone hrepl, hclaimed.opening, hclaimed.sd⟩

theorem disposes_turn {act : Action α β} {i : ℕ} {reg : Bool} {m : Member α β} {fd : Fd}
    (h : s.Registry) (hi : i < s.count) (hheld : Owned (s.registered i) (s.member i))
    (hsock : (s.member i).node.conn.replacingSd = some fd)
    (hturn : Turn enc K flags s i act reg m) : Node.Disposes enc fd m.node.conn := by
  have hsane := h.sane i hi
  have hone : (s.member i).node.conn.replacing = 1 := hheld.claimed.socket.mp (by simp [hsock])
  cases hturn with
  | still act hact => exact .waits hsock
  | steps a e res hforeign hbegins hstep =>
    exact Node.disposes_next hsane.later hsane.ended hheld hsock ((isForeign_fill i e).trans hforeign)
      (Node.next_of_step hstep)
  | handedOver j k a inp p reset fromPeer hj hex hloc hs hopening hv heffect =>
    exact absurd (hv.replacing_eq_zero.symm.trans hone) (by decide)
  | woken act c hact hshell => exact .waits ((congrArg Conn.replacingSd hshell).trans hsock)
  | timer hidle hev => exact .waits hsock
  | replaces r hin =>
    refine .taken (s.member i).node.conn r hsock ?_
    rw [Node.replace, if_pos hone]

variable [DecidableEq α] [Inhabited α]

/-- **A socket that is handed over is not lost.** In every run in which no connection hands its socket
over to one that is between preparing its reply and sending it, a connection holds another's socket exactly
in the first stage of being replaced, and then its timer is set or `handle_replace` is running; in the
next step the socket stays where it is, or `do_replace` takes it over, or `_stop` closes it. -/
theorem handed_over_kept {acts : List (Action α β)}
    (hmeets : Run.Meets (step enc K flags) (Undisturbed enc K flags) init acts)
    (hrun : Run.exec (step enc K flags) init acts = some s) :
    ∀ i < s.count,
      ((s.member i).node.conn.replacingSd ≠ none ↔ (s.member i).node.conn.replacing = 1) ∧
      ((s.member i).node.conn.replacing = 1 →
        (s.member i).node.conn.evReplace = true ∨ (s.member i).inReplace = true) ∧
      ∀ fd act s', (s.member i).node.conn.replacingSd = some fd →
        s.step enc K flags act = some s' → Node.Disposes enc fd (s'.member i).node.conn := by
  have hheld : s.Registry ∧ ∀ i < s.count, Owned (s.registered i) (s.member i) := by
    refine forall_of_turn (fun reg m hfresh ↦ ⟨staged_fresh hfresh, ?_⟩)
      (fun s act i reg m h hall hC hi hturn ↦
        ⟨staged_turn h hi (hall i hi).staged hturn, claimed_turn h hall hC hi hturn⟩) hmeets hrun
    cases hfresh with
    | outgoing a policy =>
      refine .of_none (by simp [Node.outgoing, Conn.connect]) rfl fun hmem ↦ ?_
      rw [Conn.phase_of_state (s := .connecting) rfl (by decide)] at hmem
      exact absurd hmem (by decide)
    | accepted fd => exact .of_none (by simp [Node.accepted]) rfl fun _ ↦ by simp [Node.accepted]
  intro i hi
  have hclaimed := (hheld.2 i hi).claimed
  exact ⟨hclaimed.socket, hclaimed.timer, fun fd act s' hsock hstep ↦
    disposes_turn hheld.1 hi (hheld.2 i hi) hsock (turn_step hheld.1 hi hstep)⟩

/-- The peer with address 7 tries again, on another socket. -/
def tryAgain (connect : MsgConnect) : List (Action ℕ Frame) :=
  .addAccept ⟨1, .acc⟩ ::
    ((Node.acceptRun connect (Policy.losslessPeer 0 0)).take 5).map (Action.run 1 7)

/-- `Undisturbed`, for evaluation. -/
def undisturbedTest (s : Messenger ℕ Frame) : Action ℕ Frame → Bool
  | .run j _ (.pass _) => (s.existing j).all fun i ↦ (s.member i).node.conn.opening.isNone
  | _ => true

theorem undisturbed_of_test {s : Messenger ℕ Frame} {act : Action ℕ Frame}
    (h : s.undisturbedTest act = true) :
    Undisturbed (fun f ↦ [f]) Codec.trivial ⟨true, true⟩ s act := by
  rintro j a inp i c rfl hex hc
  simpa [undisturbedTest, hex] using h

/-- The peer tries again when its first attempt has been accepted: the registered connection has the
new socket, and its timer is set. -/
theorem handed_over_kept_after_accept :
    ∃ s, Run.exec frameStep init (acceptPeer { globalSeq := 1 } answer ++
        tryAgain { globalSeq := 2 }) = some s ∧
      (s.member 0).node.conn.replacing = 1 ∧ (s.member 0).node.conn.replacingSd ≠ none := by
  have hstate : (Run.exec frameStep init (acceptPeer { globalSeq := 1 } answer ++
      tryAgain { globalSeq := 2 })).map (fun s ↦ (s.count, (s.member 0).node.conn.replacing)) = some (2, 1) := by
    decide +kernel
  obtain ⟨s, hrun, hs⟩ := Option.map_eq_some_iff.mp hstate
  obtain ⟨hcount, hone⟩ := Prod.mk.inj hs
  have hmeets : Run.Meets frameStep (Undisturbed (fun f ↦ [f]) Codec.trivial ⟨true, true⟩) init
      (acceptPeer { globalSeq := 1 } answer ++ tryAgain { globalSeq := 2 }) :=
    Run.Meets.of_check (fun _ _ ↦ undisturbed_of_test) (by decide +kernel)
  exact ⟨s, hrun, hone, (handed_over_kept hmeets hrun 0 (by omega)).1.mpr hone⟩

/-- The peer tries again when its first attempt has been registered and `window` has happened, and all
callbacks run. -/
def interrupted (window : List (Event Frame)) : List (Action ℕ Frame) :=
  acceptPeer { globalSeq := 1 } window ++ tryAgain { globalSeq := 2 } ++
    [.run 0 7 (.pass { kernel := some 1 }), .run 0 7 (.pass {}), .run 0 7 (.pass {}), .replaceTimer 0,
      .handleReplace 0 {}]

/-- Whether the peer tries again while its first attempt is being registered, or while the dispatchers are
being notified of it: the connection finishes its accept and clears `replacing`, `handle_replace` finds
nothing to do, and the second socket stays open with nobody to read it. -/
theorem handed_over_lost_while_registering :
    [interrupted [], interrupted [.pass {}]].map (fun acts ↦ (Run.exec frameStep init acts).map fun s ↦
      ((s.member 0).node.conn.state, (s.member 0).node.conn.replacing,
        (s.member 0).node.conn.replacingSd,
        (s.member 0).node.conn.evReplace || (s.member 0).inReplace)) =
      List.replicate 2 (some (.opened, 0, some ⟨1, .acc⟩, false)) := by
  decide +kernel

end Messenger

end AsyncMessenger
