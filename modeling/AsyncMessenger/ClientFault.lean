import AsyncMessenger.Changes
import AsyncMessenger.Lib.Run
import AsyncMessenger.Moves
import AsyncMessenger.StateMachine

/-!
# Failures of a client's handshake

`fault` tells a failed attempt from a broken session by the range of the state. A connection in the
range of the handshake tries again as it was; any other one counts as an established session, whose
loss costs a lossy connection its life and any other one a new `connect_seq`.

Two states of the handshake lie outside of that range. `STATE_CONNECTING_READY` sends nothing, but
`STATE_WAIT_SEND` is where a client waits whenever a banner, an address or a connect message did not
fit into the socket.

## The argument

A pass of a client that fails leaves the state as it was, and fails in a state that is in the range
(`state_of_pass_fail`). So what is left are the failures of `handle_write`, which may meet the
connection in any state, and the condition of the result is about those (`SendsInRange`).

That a client whose `connect_seq` is zero keeps it is a property of more than its own passes:
another connection may hand it a socket, and it goes on as an accepting one. `Ungranted` therefore
has both sides, and says that no peer has granted anything yet. Two history variables say whether
the session has been open since the last dial, and whether a `connect_seq` has been granted.
-/

namespace AsyncMessenger

/-- The states of a client's handshake. -/
def State.isClient (s : State) : Bool :=
  (connecting.code ≤ s.code && s.code ≤ connectingReady.code) || s == wait

/-- A connection with two history variables. -/
structure Endpoint (β : Type) where
  node : Node β
  /-- It has reached `STATE_OPEN` since it last entered `STATE_CONNECTING`. -/
  session : Bool := false
  /-- It owes its `connect_seq` to a peer: it has obeyed a RETRY_SESSION, completed a handshake, or
  answered a connect message. -/
  granted : Bool := false

namespace Conn

variable {β : Type} {enc : Frame → List β} {K : Codec} {flags : CrcFlags}

/-- `fault` neither stops the connection nor gives it a new `connect_seq`. -/
def Spares (c : Conn β) : Prop :=
  c.fault.connectSeq = c.connectSeq ∧ (c.fault.state = .closed → c.state = .closed)

/-- A pass in this state may take over a `connect_seq` from the peer. -/
def grants (c : Conn β) : Bool :=
  match c.state with
  | .connectingWaitConnectReplyAuth => c.connectReply.tag == Tag.retrySession
  | .connectingReady => true
  | .acceptingWaitConnectMsgAuth => true
  | _ => false

/-- In the range that `fault` tests, an attempt is repeated as it was. -/
theorem spares_of_isConnecting {c : Conn β} (h : c.state.isConnecting = true) : c.Spares := by
  have hclosed : c.state ≠ .closed := by
    rintro hs
    rw [hs] at h
    exact absurd h (by decide)
  have hstops : ¬ c.faultStops = true := by simp [faultStops, h]
  rw [Spares, fault, if_neg hclosed, if_neg hstops]
  simp only [faultRetry, h]
  split_ifs <;> simp_all

/-! ## Passes that fail

A pass that fails has not moved the state, so it is enough to know in which states a move can fail. -/

/-- The states in which no pass fails. -/
def unfailing : List State := [.waitSend, .connectingReady, .standby, .closed]

theorem flow_ne_fail {c : Conn β} {inp : Input β} (hs : c.state ∈ unfailing) :
    (c.pass K flags enc inp).flow ≠ .fail := by
  have hstate : (c.processState K flags enc inp).flow ≠ .fail := by
    simp only [unfailing, List.mem_cons, List.not_mem_nil, or_false] at hs
    rcases hs with hs | hs | hs | hs
    · rw [processState, hs]
      simp only [processConnection, hs, flushed, goto]
      rw [if_neg (by decide)]
      split_ifs <;> simp
    · rw [processState, hs]
      simp only [processConnection, hs, connectDone]
      rw [if_neg (by decide)]
      split_ifs <;> simp
    · rw [processState, hs, if_neg (by decide)]
      simp
    · rw [processState, hs, if_neg (by decide)]
      simp
  simp only [pass]
  split_ifs with hfail
  · exact absurd hfail.1 hstate
  · exact hstate

theorem isConnecting_of_isClient {s : State} (h : s.isClient = true) (hready : s ≠ .connectingReady)
    (hwait : s ≠ .wait) : s.isConnecting = true := by
  cases s <;> first | rfl | contradiction

theorem not_isOpen_of_isClient {s : State} (h : s.isClient = true) : s.isOpen = false := by
  cases s <;> first | rfl | contradiction

/-- A move that fails leaves the state as it is. -/
theorem Move.state_of_fail {c : Conn β} {inp : Input β} {o : Outcome β} (h : Move enc c inp o)
    (hfail : o.flow = .fail) : o.conn.state = c.state := by
  cases h with
  | fails => rfl
  | failsDial hs hserver hsd => simp [dial, hserver, hsd, failed]
  | failsSend d frames next hprep => cases hprep <;> rfl
  | failsReply => rfl
  | dials fd hs hserver hsd => simp [dial, hserver, hsd, goto] at hfail
  | connected hs hseq => simp [connectDone, hseq] at hfail
  | _ => simp [openSession] at hfail

/-- **Where a pass fails.** A client that fails is in the range that `fault` tests. -/
theorem state_of_pass_fail {c : Conn β} {inp : Input β}
    (hfail : (c.pass K flags enc inp).flow = .fail) :
    (c.pass K flags enc inp).conn.state ∉ State.wait :: unfailing ∧
      (c.phase.isClient = true → (c.pass K flags enc inp).conn.state.isConnecting = true) := by
  have hnot : c.state ∉ unfailing := fun hmem ↦ flow_ne_fail hmem hfail
  rcases pass_cases K flags enc c inp with ⟨hopen, heq⟩ | heq | ⟨hs, heq⟩ | ⟨o, hmove, -, hwait, heq⟩
  · have hreads : c.Reads (c.processOpen K flags inp).conn := reads_processOpen hopen
    rw [heq]
    constructor
    · intro hmem
      simp only [unfailing, List.mem_cons, List.not_mem_nil, or_false] at hmem
      rcases hmem with hs | hs | hs | hs | hs <;> exact absurd hreads.2 (by rw [hs]; decide)
    · intro hclient
      rw [phase, if_neg (by rintro hs; rw [hs] at hopen; exact absurd hopen (by decide))] at hclient
      rw [not_isOpen_of_isClient hclient] at hopen
      exact absurd hopen (by simp)
  · rw [heq] at hfail
    exact absurd hfail (by simp)
  · rw [heq]
    exact ⟨by simp [failed, unfailing], fun _ ↦ rfl⟩
  · have hstate : (c.pass K flags enc inp).conn.state = c.state := by
      rcases heq with heq | ⟨ho, heq⟩
      · rw [heq] at hfail ⊢
        exact hmove.state_of_fail hfail
      · rw [heq]
        exact hmove.state_of_fail ho
    rw [hstate]
    constructor
    · intro hmem
      rcases List.mem_cons.mp hmem with h | h
      · exact hwait h
      · exact hnot h
    · intro hclient
      simp only [unfailing, List.mem_cons, List.not_mem_nil, or_false, not_or] at hnot
      rw [phase, if_neg hnot.1] at hclient
      exact isConnecting_of_isClient hclient hnot.2.1 hwait

/-! ## A client that no peer has granted anything

The states that such a connection can be in, on either side, and what `fault`, `_stop` and
`do_replace` make of it. -/

/-- The states of the accepting side, as far as a client gets that another connection hands its socket
to, and the two idle ones. -/
def sidelined : List State :=
  [.acceptingWaitConnectMsg, .acceptingWaitConnectMsgAuth, .standby, .closed]

/-- A client whose `connect_seq` is still zero. -/
structure Ungranted (c : Conn β) : Prop where
  connectSeq : c.connectSeq = 0
  opening : c.opening = none
  state : c.phase.isClient = true ∨ c.state ∈ sidelined

/-- The fields `Ungranted` looks at. -/
def grantView (c : Conn β) : ℕ × Option (List Frame × State) × State × State :=
  (c.connectSeq, c.opening, c.state, c.stateAfterSend)

theorem Ungranted.congr {c c' : Conn β} (h : c.Ungranted) (hview : c'.grantView = c.grantView) :
    c'.Ungranted := by
  simp only [grantView, Prod.mk.injEq] at hview
  obtain ⟨hseq, hopening, hstate, hafter⟩ := hview
  refine ⟨hseq.trans h.connectSeq, hopening.trans h.opening, ?_⟩
  rw [phase, hstate, hafter]
  exact h.state

theorem Ungranted.of_shell {c c' : Conn β} (h : c.Ungranted) (hshell : c'.shell = c.shell) :
    c'.Ungranted := by
  have hview : c'.shell.grantView = c.shell.grantView := by rw [hshell]
  exact h.congr hview

/-- The same connection in a state of a client. -/
theorem Ungranted.of_client {c c' : Conn β} (h : c.Ungranted) (hseq : c'.connectSeq = c.connectSeq)
    (hopening : c'.opening = c.opening) {s : State} (hs : c'.state = s) (hne : s ≠ .waitSend)
    (hclient : s.isClient = true) : c'.Ungranted := by
  refine ⟨hseq.trans h.connectSeq, hopening.trans h.opening, Or.inl ?_⟩
  rw [phase_of_state hs hne]
  exact hclient

theorem Ungranted.of_sidelined {c c' : Conn β} (h : c.Ungranted)
    (hseq : c'.connectSeq = c.connectSeq ∨ c'.connectSeq = 0) (hopening : c'.opening = c.opening)
    (hs : c'.state ∈ sidelined) : c'.Ungranted := by
  refine ⟨?_, hopening.trans h.opening, Or.inr hs⟩
  rcases hseq with hseq | hseq
  · exact hseq.trans h.connectSeq
  · exact hseq

theorem stop_grants (c : Conn β) : c.stop.connectSeq = c.connectSeq ∧ c.stop.opening = c.opening := by
  rw [stop]
  split_ifs <;> exact ⟨rfl, rfl⟩

theorem Ungranted.stop {c : Conn β} (h : c.Ungranted) : c.stop.Ungranted :=
  h.of_sidelined (Or.inl c.stop_grants.1) c.stop_grants.2 (by rw [state_stop]; decide)

/-- A connection on the accepting side does not connect by itself. -/
theorem fault_of_isAccepting {c : Conn β} (h : c.state.isAccepting = true) :
    c.fault.connectSeq = c.connectSeq ∧ c.fault.opening = c.opening ∧ c.fault.state ∈ sidelined := by
  have hconnecting : c.state.isConnecting = false := by
    cases hs : c.state <;> rw [hs] at h <;> first | rfl | contradiction
  rw [fault]
  split_ifs with hclosed hstops
  · exact ⟨rfl, rfl, by rw [hclosed]; decide⟩
  · exact ⟨c.stop_grants.1, c.stop_grants.2, by rw [state_stop]; decide⟩
  · simp only [faultRetry, hconnecting, h]
    split_ifs <;> simp_all [sidelined]

theorem takeOver_grants (c : Conn β) (random : ℕ) :
    ((c.takeOver random).connectSeq = c.connectSeq ∨ (c.takeOver random).connectSeq = 0) ∧
      (c.takeOver random).opening = c.opening := by
  rw [takeOver]
  split_ifs
  · exact ⟨Or.inr rfl, rfl⟩
  · exact ⟨Or.inl rfl, rfl⟩

theorem Ungranted.doReplace {c : Conn β} (h : c.Ungranted) (r : ReplaceInput) :
    (c.doReplace enc r).conn.Ungranted := by
  obtain ⟨hseq, hopening⟩ := c.takeOver_grants r.random
  obtain ⟨reply, -, -, ⟨out, heq⟩ | ⟨k, b, heq⟩⟩ := c.doReplace_cases enc r
  · rw [heq]
    have hacc : ({ c.takeOver r.random with outcomingBl := out, replacing := 0 } :
        Conn β).state.isAccepting = true := by
      have hstate := (c.takeOver_frame r.random).2.2
      rw [hstate]
      rfl
    obtain ⟨hseq', hopening', hstate⟩ := fault_of_isAccepting hacc
    refine h.of_sidelined ?_ (hopening'.trans hopening) hstate
    rcases hseq with hseq | hseq
    · exact Or.inl (hseq'.trans hseq)
    · exact Or.inr (hseq'.trans hseq)
  · rw [heq]
    exact h.of_sidelined hseq hopening (by simp [sidelined, clearAuthorizerReply])

/-- In the range that `fault` tests, and on the accepting side, nothing is granted. -/
theorem Ungranted.faultRetry {c : Conn β} (h : c.Ungranted)
    (hs : c.state.isConnecting = true ∨ c.state.isAccepting = true) : c.faultRetry.Ungranted := by
  simp only [Conn.faultRetry]
  split_ifs with hstandby hrange hserver
  · exact h.of_sidelined (Or.inl rfl) rfl (by simp [sidelined])
  · exact h.of_sidelined (Or.inl rfl) rfl (by simp [sidelined])
  · exfalso
    simp only [Bool.not_eq_true', Bool.or_eq_true, not_or] at hrange hserver
    rcases hs with hs | hs
    · rw [hs] at hrange
      exact absurd hrange (by simp)
    · exact hserver.2 hs
  · exact h.of_client rfl rfl (s := .connecting) rfl (by decide) rfl

theorem Ungranted.not_isOpen {c : Conn β} (h : c.Ungranted) : c.state.isOpen = false := by
  rcases h.state with hclient | hs
  · by_cases hs : c.state = .waitSend
    · rw [hs]
      rfl
    · rw [phase, if_neg hs] at hclient
      exact not_isOpen_of_isClient hclient
  · simp only [sidelined, List.mem_cons, List.not_mem_nil, or_false] at hs
    rcases hs with hs | hs | hs | hs <;> rw [hs] <;> rfl

/-- The states a client never enters on its own. -/
theorem Ungranted.state_ne {c : Conn β} (h : c.Ungranted) :
    c.state ∉ [State.accepting, .acceptingWaitBannerAddr, .acceptingWaitSeq, .acceptingReady] := by
  intro hmem
  simp only [List.mem_cons, List.not_mem_nil, or_false] at hmem
  rcases h.state with hclient | hs
  · rcases hmem with hs | hs | hs | hs <;> rw [phase_of_state hs (by decide)] at hclient <;>
      exact absurd hclient (by decide)
  · rcases hmem with hs' | hs' | hs' | hs' <;> rw [hs'] at hs <;> exact absurd hs (by decide)

theorem ungranted_move {c : Conn β} {inp : Input β} {o : Outcome β} (h : c.Ungranted)
    (hgrants : c.grants = false) (hmove : Move enc c inp o) : o.conn.Ungranted := by
  have hne := h.state_ne
  have hno {s : State} (hs : c.state = s) (hg : c.grants = true) : False := by
    rw [hgrants] at hg
    exact absurd hg (by simp)
  have hauth (hs : c.state = .acceptingWaitConnectMsgAuth) : False := hno hs (by rw [grants, hs])
  cases hmove with
  | waits => exact h.congr rfl
  | flushes hs hout hafter =>
    refine ⟨h.connectSeq, h.opening, Or.inl ?_⟩
    have hclient : c.stateAfterSend.isClient = true := by
      rcases h.state with hclient | hmem
      · rwa [phase, if_pos hs] at hclient
      · rw [hs] at hmem
        exact absurd hmem (by decide)
    have hsend : c.stateAfterSend ≠ .waitSend := by
      rintro heq
      rw [heq] at hclient
      exact absurd hclient (by decide)
    rw [phase, if_neg hsend]
    exact hclient
  | aborts => exact h
  | fails => exact h
  | dials fd hs hserver hsd =>
    simp only [dial, hserver, hsd, Bool.false_eq_true, if_false, Option.isSome_some, if_true]
    exact h.of_client rfl rfl (s := .connectingWaitBanner) rfl (by decide) rfl
  | failsDial hs hserver hsd =>
    simp only [dial, hserver, hsd, Bool.false_eq_true, if_false, Option.isSome_none]
    exact h.of_client rfl rfl (s := .connecting) hs (by decide) rfl
  | sends d frames next k evWrite s a hprep hnext =>
    have henter (hseq : d.connectSeq = c.connectSeq) (hopening : d.opening = c.opening)
        (hsend : next ≠ .waitSend) (hclient : next.isClient = true) :
        ({ d with
          outcomingBl := (d.outcomingBl ++ frames.flatMap enc).drop k
          evWrite
          state := s
          stateAfterSend := a } : Conn β).Ungranted := by
      refine ⟨hseq.trans h.connectSeq, hopening.trans h.opening, Or.inl ?_⟩
      rw [hnext.phase_eq hsend rfl rfl]
      exact hclient
    cases hprep with
    | banner => exact henter rfl rfl (by decide) rfl
    | addr => exact henter rfl rfl (by decide) rfl
    | connect => exact henter rfl rfl (by decide) rfl
    | seq => exact henter rfl rfl (by decide) rfl
    | greeting hs => exact absurd (by rw [hs]; decide) hne
    | reply _ _ hs => exact absurd (hauth hs) id
  | failsSend d frames next hprep =>
    cases hprep with
    | banner => exact h.congr rfl
    | addr => exact h.congr rfl
    | connect => exact h.congr rfl
    | seq => exact h.congr rfl
    | greeting => exact h.congr rfl
    | reply _ _ hs => exact absurd (hauth hs) id
  | hears => exact h.of_client rfl rfl (s := .connectingWaitConnectReplyAuth) rfl (by decide) rfl
  | heeds d s g hs hheeds =>
    cases hheeds with
    | badAuthorizer => exact h.of_client rfl rfl (s := .connectingSendConnectMsg) rfl (by decide) rfl
    | resetSession => exact ⟨rfl, h.opening, Or.inl rfl⟩
    | retryGlobal => exact h.of_client rfl rfl (s := .connectingSendConnectMsg) rfl (by decide) rfl
    | retrySession htag => exact absurd (hno hs (by simp [grants, hs, htag])) id
    | wait => exact h.of_client rfl rfl (s := .wait) rfl (by decide) rfl
    | seq => exact h.of_client rfl rfl (s := .connectingWaitAckSeq) rfl (by decide) rfl
    | ready => exact h.of_client rfl rfl (s := .connectingReady) rfl (by decide) rfl
  | connected hs => exact absurd (hno hs (by rw [grants, hs])) id
  | identified hs => exact absurd (by rw [hs]; decide) hne
  | asked => exact h.of_sidelined (Or.inl rfl) rfl (by simp [sidelined])
  | refuses _ _ _ _ _ _ _ _ hs => exact absurd (hauth hs) id
  | failsReply _ _ _ _ hs => exact absurd (hauth hs) id
  | handsOver _ _ _ _ hs => exact absurd (hauth hs) id
  | opens _ hs => exact absurd (hauth hs) id
  | notifies hs => exact absurd (hauth hs) id
  | gotSeq _ hs => exact absurd (by rw [hs]; decide) hne
  | accepted hs => exact absurd (by rw [hs]; decide) hne

theorem ungranted_pass {c : Conn β} {inp : Input β} (h : c.Ungranted) (hgrants : c.grants = false) :
    (c.pass K flags enc inp).conn.Ungranted := by
  rcases pass_cases K flags enc c inp with ⟨hopen, -⟩ | heq | ⟨-, heq⟩ | ⟨o, hmove, -, -, heq⟩
  · rw [h.not_isOpen] at hopen
    exact absurd hopen (by simp)
  · rw [heq]
    exact h
  · rw [heq]
    exact h.of_client rfl rfl (s := .connectingSendConnectMsg) rfl (by decide) rfl
  · have ho := ungranted_move h hgrants hmove
    rcases heq with heq | ⟨-, heq⟩
    · rw [heq]
      exact ho
    · rw [heq]
      exact ho.congr rfl

end Conn

namespace Node

variable {β : Type} {enc : Frame → List β} {K : Codec} {flags : CrcFlags}

open Conn

/-! ## Where the event thread can be

While the event thread waits in `wait_sending`, or has released the lock around `_accept_conn`,
other threads can change the state only in a few ways. Where it goes on, the connection is still in
a state that the place allows. -/

/-- While the event thread has released the lock, the connection is in a state that lets it. -/
structure Placed (n : Node β) : Prop where
  waiting : ∀ k close prev, n.loc = .waiting k close prev → n.conn.state ∉ State.wait :: unfailing
  writing : ∀ pc, n.loc = .writing pc → n.conn.state ∉ [State.connecting, .standby, .wait]

theorem placed_of_isPlain {n : Node β} (h : n.loc.isPlain = true) : n.Placed := by
  constructor
  · intro k close prev hloc
    rw [hloc] at h
    exact absurd h (by simp [Loc.isPlain])
  · intro pc hloc
    rw [hloc] at h
    exact absurd h (by simp [Loc.isPlain])

theorem Placed.of_state {n n' : Node β} (h : n.Placed) (hstate : n'.conn.state = n.conn.state)
    (hloc : n'.loc = n.loc) : n'.Placed := by
  constructor
  · intro k close prev hl
    rw [hstate]
    exact h.waiting k close prev (hloc ▸ hl)
  · intro pc hl
    rw [hstate]
    exact h.writing pc (hloc ▸ hl)

/-- `STATE_STANDBY` is left by other threads only while the event thread is elsewhere. -/
theorem Placed.of_standby {n n' : Node β} (h : n.Placed) (hs : n.conn.state = .standby)
    (hloc : n'.loc = n.loc) : n'.Placed := by
  constructor
  · intro k close prev hl
    exact absurd (by rw [hs]; decide) (h.waiting k close prev (hloc ▸ hl))
  · intro pc hl
    exact absurd (by rw [hs]; decide) (h.writing pc (hloc ▸ hl))

theorem state_eq_of_shell {c c' : Conn β} (h : c'.shell = c.shell) : c'.state = c.state := by
  have hstate : c'.shell.state = c.shell.state := by rw [h]
  exact hstate

theorem Placed.of_moves {n n' : Node β} (h : n.Placed) (hshell : n'.conn.shell = n.conn.shell)
    (hmoves : Moves n.conn n.loc n'.loc) : n'.Placed := by
  have hstate := state_eq_of_shell hshell
  generalize hl : n'.loc = l at hmoves
  cases hmoves with
  | stays => exact h.of_state hstate hl
  | plain l' hplain hparting => exact placed_of_isPlain (hl ▸ hplain)
  | writesOn pc pc' hwriting =>
    refine ⟨fun k close prev hloc ↦ absurd (hl.symm.trans hloc) (by simp), fun _ _ ↦ ?_⟩
    rw [hstate]
    exact h.writing pc hwriting
  | writes pc hnot =>
    refine ⟨fun k close prev hloc ↦ absurd (hl.symm.trans hloc) (by simp), fun _ _ ↦ ?_⟩
    rw [hstate]
    exact hnot

/-- The way out of `STATE_OPEN_TAG_CLOSE` starts in an open session. -/
theorem isOpen_of_pass_close {c : Conn β} {inp : Input β}
    (h : (c.pass K flags enc inp).flow = .close) :
    (c.pass K flags enc inp).conn.state.isOpen = true := by
  rcases pass_cases K flags enc c inp with ⟨hopen, heq⟩ | heq | ⟨-, heq⟩ | ⟨o, hmove, -, -, heq⟩
  · rw [heq]
    exact (reads_processOpen hopen).2
  · rw [heq] at h
    exact absurd h (by simp)
  · rw [heq] at h
    exact absurd h (by simp [failed])
  · have hflow : o.flow = .close := by
      rcases heq with heq | ⟨-, heq⟩ <;> rw [heq] at h <;> exact h
    cases hmove with
    | dials fd hs hserver hsd => simp [dial, hserver, hsd, goto] at hflow
    | failsDial hs hserver hsd => simp [dial, hserver, hsd, failed] at hflow
    | connected hs hseq => simp [connectDone, hseq] at hflow
    | _ => simp [openSession, failed] at hflow

theorem placed_next {n n' : Node β} {e : Event β} (h : n.Placed)
    (hnext : n.next enc K flags e = some n') : n'.Placed := by
  cases change_next hnext with
  | quiet e n' _ hshell hloc => exact h.of_moves hshell hloc
  | connects m concurrent gather n' hs _ _ _ hloc => exact h.of_standby hs hloc
  | setStopping => exact h.of_state rfl rfl
  | markDisposable =>
    by_cases hs : n.conn.state = .standby
    · exact h.of_standby hs rfl
    · refine h.of_state ?_ rfl
      simp [Conn.markDisposable, hs]
  | cStop hidle => exact placed_of_isPlain (by simp [hidle, Loc.isPlain])
  | leave k n' hloc hshell hidle => exact placed_of_isPlain (by simp [hidle, Loc.isPlain])
  | handOver => exact h.of_state rfl rfl
  | handleReplaceLate r hidle => exact placed_of_isPlain (by simp [hidle, Loc.isPlain])
  | handleReplace r hidle => exact placed_of_isPlain (by simp [hidle, Loc.isPlain])
  | passes inp k n' hloc hflow hshell hplain => exact placed_of_isPlain hplain
  | waits inp k close n' hloc hflow hshell hloc' =>
    refine ⟨fun _ _ _ _ ↦ ?_, fun pc hl ↦ absurd (hloc'.symm.trans hl) (by simp)⟩
    rw [state_eq_of_shell hshell]
    cases close with
    | false => exact (state_of_pass_fail hflow).1
    | true =>
      have hopen := isOpen_of_pass_close hflow
      intro hmem
      simp only [unfailing, List.mem_cons, List.not_mem_nil, or_false] at hmem
      rcases hmem with hs | hs | hs | hs | hs <;> rw [hs] at hopen <;> exact absurd hopen (by decide)
  | givesUp e c close n' hup hafter =>
    cases hafter with
    | replaced r hrepl hshell hplain => exact placed_of_isPlain hplain
    | parts k hrepl hwhy hshell hloc =>
      exact ⟨fun _ _ _ hl ↦ absurd (hloc.symm.trans hl) (by simp), fun _ hl ↦
        absurd (hloc.symm.trans hl) (by simp)⟩
    | faults hrepl hclose hclosed hstops hshell hloc =>
      exact placed_of_isPlain (by simp [hloc, Loc.isPlain])
    | closed hrepl hclosed hshell hloc => exact placed_of_isPlain (by simp [hloc, Loc.isPlain])

end Node

namespace Endpoint

variable {β : Type} {enc : Frame → List β} {K : Codec} {flags : CrcFlags}

open Conn Node

/-- The step may take over a `connect_seq` from the peer. -/
def grantedBy (s : Endpoint β) : Event β → Bool
  | .pass _ => s.node.conn.grants
  | _ => false

variable (enc K flags) in
/-- One step, with the two history variables. -/
def step (s : Endpoint β) (e : Event β) : Option (Endpoint β) :=
  (s.node.next enc K flags e).map fun n ↦
    { node := n
      session := if n.conn.state = .connecting then false else n.conn.state.isOpen || s.session
      granted := s.granted || s.grantedBy e }

variable (enc K flags) in
/-- The step calls `fault` on the connection `c`. -/
def FaultsOn (s : Endpoint β) (e : Event β) (c : Conn β) : Prop :=
  GivesUp enc K flags s.node e false c ∧ c.replacing ≠ 1

variable (enc K flags) in
/-- If the step calls `fault` on a client or on an open session, then the session has been open since
the last dial, or the failure costs nothing. -/
def FaultsFairly (s : Endpoint β) (e : Event β) : Prop :=
  ∀ c, s.FaultsOn enc K flags e c →
    s.node.conn.phase.isClient = true ∨ s.node.conn.state.isOpen = true → s.session = true ∨ c.Spares

/-- `handle_write` does not fail to send in the two states of a client's handshake that `fault` takes
for those of a session. -/
def SendsInRange (s : Endpoint β) (e : Event β) : Prop :=
  ∀ gather r w, e = .relock gather r → s.node.win = some w → w.error = true → w.owner = .event →
    s.node.conn.phase.isClient = true →
    s.node.conn.state ≠ .waitSend ∧ s.node.conn.state ≠ .connectingReady

/-- The invariant of a client that was made by `get_connection`. -/
structure Inv (s : Endpoint β) : Prop where
  placed : s.node.Placed
  session : s.node.conn.state.isOpen = true → s.session = true
  ungranted : s.granted = false → s.node.conn.Ungranted

/-- The states in which a step gives up. -/
theorem state_of_givesUp {s : Endpoint β} {e : Event β} {c : Conn β} (h : s.node.Placed)
    (hrange : s.SendsInRange e) (hup : GivesUp enc K flags s.node e false c) :
    c.state ≠ .standby ∧ c.state ≠ .wait ∧
      (c.phase.isClient = true → c.state ≠ .waitSend ∧ c.state ≠ .connectingReady) := by
  have hall {t : State} (hnot : t ∉ State.wait :: unfailing) :
      t ≠ .standby ∧ t ≠ .wait ∧ t ≠ .waitSend ∧ t ≠ .connectingReady := by
    simp only [unfailing, List.mem_cons, List.not_mem_nil, or_false, not_or] at hnot
    exact ⟨hnot.2.2.2.1, hnot.1, hnot.2.1, hnot.2.2.1⟩
  cases hup with
  | pass inp k hloc hflow =>
    obtain ⟨hstandby, hwait, hrest⟩ := hall (state_of_pass_fail hflow).1
    exact ⟨hstandby, hwait, fun _ ↦ hrest⟩
  | wake r k close prev hloc =>
    obtain ⟨hstandby, hwait, hrest⟩ := hall (h.waiting _ _ _ hloc)
    exact ⟨hstandby, hwait, fun _ ↦ hrest⟩
  | write gather r w pc hwin herror howner hloc =>
    have hnot := h.writing pc hloc
    simp only [List.mem_cons, List.not_mem_nil, or_false, not_or] at hnot
    exact ⟨hnot.2.1, hnot.2.2, hrange gather r w rfl hwin herror howner⟩

/-- A client that gives up is in the range that `fault` tests. -/
theorem isConnecting_of_givesUp {s : Endpoint β} {e : Event β} {c : Conn β} (h : s.node.Placed)
    (hrange : s.SendsInRange e) (hup : GivesUp enc K flags s.node e false c)
    (hclient : c.phase.isClient = true) : c.state.isConnecting = true := by
  obtain ⟨-, hwait, hrest⟩ := state_of_givesUp h hrange hup
  obtain ⟨hsend, hready⟩ := hrest hclient
  rw [phase, if_neg hsend] at hclient
  exact isConnecting_of_isClient hclient hready hwait

theorem faultsFairly_of_inv {s : Endpoint β} {e : Event β} (h : s.Inv) (hrange : s.SendsInRange e) :
    s.FaultsFairly enc K flags e := by
  rintro c ⟨hup, -⟩ (hclient | hopen)
  · have hconnecting := isConnecting_of_givesUp h.placed hrange hup
    refine Or.inr (spares_of_isConnecting ?_)
    cases hup with
    | pass inp k hloc hflow => exact (state_of_pass_fail hflow).2 hclient
    | wake => exact hconnecting hclient
    | write => exact hconnecting hclient
  · exact Or.inl (h.session hopen)

/-- A client that owes nothing to a peer keeps its `connect_seq` when it gives up. -/
theorem ungranted_of_givesUp {s : Endpoint β} {e : Event β} {c : Conn β} {close : Bool}
    (hup : GivesUp enc K flags s.node e close c) (h : s.node.conn.Ungranted)
    (hgrants : ∀ inp, e = .pass inp → s.node.conn.grants = false) : c.Ungranted := by
  cases hup with
  | pass inp => exact ungranted_pass h (hgrants inp rfl)
  | passClose inp => exact ungranted_pass h (hgrants inp rfl)
  | wake => exact h
  | write => exact h.congr rfl

/-- It is then in the range that `fault` tests, or on the accepting side. -/
theorem inRange_of_givesUp {s : Endpoint β} {e : Event β} {c : Conn β} (h : s.node.Placed)
    (hrange : s.SendsInRange e) (hup : GivesUp enc K flags s.node e false c) (hc : c.Ungranted)
    (hclosed : c.state ≠ .closed) : c.state.isConnecting = true ∨ c.state.isAccepting = true := by
  rcases hc.state with hclient | hs
  · exact Or.inl (isConnecting_of_givesUp h hrange hup hclient)
  · have hstandby := (state_of_givesUp h hrange hup).1
    simp only [sidelined, List.mem_cons, List.not_mem_nil, or_false] at hs
    apply Or.inr
    rcases hs with hs | hs | hs | hs
    · rw [hs]
      rfl
    · rw [hs]
      rfl
    · exact absurd hs hstandby
    · exact absurd hs hclosed

theorem ungranted_next {s : Endpoint β} {e : Event β} {n : Node β} (hplaced : s.node.Placed)
    (h : s.node.conn.Ungranted) (hrange : s.SendsInRange e)
    (hgrants : ∀ inp, e = .pass inp → s.node.conn.grants = false)
    (hnext : s.node.next enc K flags e = some n) : n.conn.Ungranted := by
  cases change_next hnext with
  | quiet e n' _ hshell hloc => exact h.of_shell hshell
  | connects m concurrent gather n' hs _ _ hshell hloc =>
    exact (h.of_client rfl rfl (s := .connecting) rfl (by decide) rfl : Ungranted
      { s.node.conn with state := .connecting }).of_shell hshell
  | setStopping => exact h.congr rfl
  | markDisposable =>
    simp only [Conn.markDisposable]
    split_ifs
    · exact Ungranted.stop (h.congr rfl)
    · exact h.congr rfl
  | cStop => exact h.stop
  | leave k n' hloc hshell => exact h.stop.of_shell hshell
  | handOver => exact h.congr rfl
  | handleReplaceLate => exact h.congr rfl
  | handleReplace r =>
    have hev : Ungranted ({ s.node.conn with evReplace := false } : Conn β) := h.congr rfl
    exact hev.doReplace r
  | passes inp k n' hloc hflow hshell => exact (ungranted_pass h (hgrants inp rfl)).of_shell hshell
  | waits inp k close n' hloc hflow hshell =>
    exact (ungranted_pass h (hgrants inp rfl)).of_shell hshell
  | givesUp e c close n' hup hafter =>
    have hc := ungranted_of_givesUp hup h hgrants
    cases hafter with
    | replaced r hrepl hshell => exact (hc.doReplace r).of_shell hshell
    | parts k hrepl hwhy hshell => exact hc.of_shell hshell
    | faults hrepl hclose hclosed hstops hshell =>
      subst hclose
      exact (hc.faultRetry (inRange_of_givesUp hplaced hrange hup hc hclosed)).of_shell hshell
    | closed hrepl hclosed hshell => exact hc.of_shell hshell

theorem inv_step {s s' : Endpoint β} {e : Event β} (h : s.Inv) (hrange : s.SendsInRange e)
    (hstep : s.step enc K flags e = some s') : s'.Inv := by
  rw [step, Option.map_eq_some_iff] at hstep
  obtain ⟨n, hnext, rfl⟩ := hstep
  refine ⟨placed_next h.placed hnext, fun hopen ↦ ?_, fun hgranted ↦ ?_⟩
  · dsimp only at hopen ⊢
    have hne : n.conn.state ≠ .connecting := by
      rintro hs
      rw [hs] at hopen
      exact absurd hopen (by decide)
    rw [if_neg hne, hopen, Bool.true_or]
  · obtain ⟨hbefore, hnow⟩ := Bool.or_eq_false_iff.mp hgranted
    refine ungranted_next h.placed (h.ungranted hbefore) hrange (fun inp he ↦ ?_) hnext
    subst he
    exact hnow

/-- A connect message with `connect_seq` zero is never answered with RESETSESSION. -/
theorem judge_ne_resetSession {c : Conn β} {existing : Option (Conn β)} {m : MsgConnect}
    (hm : m.connectSeq = 0) (peerLess : Bool) (r : MsgConnectReply) :
    c.judge existing m peerLess ≠ .reply Tag.resetSession r := by
  intro h
  have hj := judges_judge c existing m peerLess
  rw [h] at hj
  generalize hv : Verdict.reply Tag.resetSession r = v at hj
  cases hj with
  | stranger _ hpos => omega
  | unknown _ _ _ hlt => omega
  | old => simp [Tag.resetSession, Tag.retryGlobal] at hv
  | behind => simp [Tag.resetSession, Tag.retrySession] at hv
  | level => simp [Tag.resetSession, Tag.retrySession] at hv
  | _ => simp at hv

/-- **Every failure of a client's handshake is treated alike**, in every run in which `handle_write` does
not fail to send in `STATE_WAIT_SEND` or `STATE_CONNECTING_READY` on behalf of a client: no failure
before `STATE_OPEN` stops the connection or gives it a new `connect_seq`. As long as no peer has
granted one, it presents `connect_seq` zero, to which no acceptor answers RESETSESSION. -/
theorem handshake_failures_alike {policy : Policy} {es : List (Event β)}
    (hmeets : Run.Meets (step enc K flags) SendsInRange { node := outgoing policy } es) :
    Run.Meets (step enc K flags) (FaultsFairly enc K flags) { node := outgoing policy } es ∧
      ∀ s, Run.exec (step enc K flags) { node := outgoing policy } es = some s → s.granted = false →
        ∀ hostType protoVersion,
          (s.node.conn.buildConnectMsg hostType protoVersion).connectSeq = 0 ∧
            ∀ (a : Conn β) existing peerLess r, a.judge existing
              (s.node.conn.buildConnectMsg hostType protoVersion) peerLess ≠
                .reply Tag.resetSession r := by
  have hinit : Inv { node := (outgoing policy : Node β) } := by
    refine ⟨placed_of_isPlain rfl, fun hopen ↦ absurd hopen (by simp [outgoing, Conn.connect,
      State.isOpen, State.code, State.ctorIdx]), fun _ ↦ ⟨rfl, rfl, Or.inl rfl⟩⟩
  refine ⟨Run.Meets.of_invariant (fun s e s' h hc hs ↦ inv_step h hc hs)
    (fun s e h hc ↦ faultsFairly_of_inv h hc) hinit hmeets, fun s hrun hgranted hostType protoVersion ↦ ?_⟩
  have hinv : s.Inv :=
    Run.invariant_of_meets (fun s e s' h hc hs ↦ inv_step h hc hs) hinit hmeets hrun
  have hzero : (s.node.conn.buildConnectMsg hostType protoVersion).connectSeq = 0 :=
    (hinv.ungranted hgranted).connectSeq
  exact ⟨hzero, fun a existing peerLess r ↦ judge_ne_resetSession hzero peerLess r⟩

/-- The frames themselves as output units, the trivial codec, both checksums. -/
abbrev frameStep : Endpoint Frame → Event Frame → Option (Endpoint Frame) :=
  step (fun f ↦ [f]) Codec.trivial ⟨true, true⟩

/-- A client that cannot read the banner dials again as it was. -/
theorem handshake_failures_alike_no_banner :
    Run.Meets frameStep (FaultsFairly (fun f ↦ [f]) Codec.trivial ⟨true, true⟩)
        { node := outgoing (Policy.losslessClient 0 0) }
        [.process true, .pass { newSd := some ⟨0, .con⟩ }, .pass { read := .error }] ∧
      ∃ s, Run.exec frameStep { node := outgoing (Policy.losslessClient 0 0) }
          [.process true, .pass { newSd := some ⟨0, .con⟩ }, .pass { read := .error }] = some s ∧
        s.node.conn.state = .connecting ∧ s.node.conn.connectSeq = 0 := by
  have hmeets : Run.Meets frameStep SendsInRange { node := outgoing (Policy.losslessClient 0 0) }
      [.process true, .pass { newSd := some ⟨0, .con⟩ }, .pass { read := .error }] :=
    Run.Meets.of_forall (fun e he s ↦ by
      intro gather r w hrelock
      simp only [List.mem_cons, List.not_mem_nil, or_false] at he
      rcases he with rfl | rfl | rfl <;> exact absurd hrelock (by simp)) _
  have hrun : (Run.exec frameStep { node := outgoing (Policy.losslessClient 0 0) }
      [.process true, .pass { newSd := some ⟨0, .con⟩ }, .pass { read := .error }]).map
        (fun s ↦ (s.node.conn.state, s.node.conn.connectSeq)) = some (.connecting, 0) := by
    decide +kernel
  obtain ⟨s, hs, hview⟩ := Option.map_eq_some_iff.mp hrun
  exact ⟨(handshake_failures_alike hmeets).1, s, hs, congrArg Prod.fst hview,
    congrArg Prod.snd hview⟩

/-- A client dials, reads the banner, and cannot send its own in full; then the socket breaks. -/
def brokenBanner : List (Event Frame) :=
  [.process true, .pass { newSd := some ⟨0, .con⟩ },
    .pass { read := .done (.banner banner), kernel := some 0 }, .pass {}, .handleWrite 0,
    .sendmsgError]

/-- What a client that never had a session does when its socket breaks in `STATE_WAIT_SEND`: it presents
`connect_seq` one from then on. -/
theorem broken_banner_counts_as_session :
    (∃ s, Run.exec frameStep { node := outgoing (Policy.losslessClient 0 0) }
        (brokenBanner ++ [.relock 0 {}]) = some s ∧
      s.granted = false ∧ s.node.conn.connectSeq = 1) ∧
    ¬ Run.Meets frameStep (FaultsFairly (fun f ↦ [f]) Codec.trivial ⟨true, true⟩)
      { node := outgoing (Policy.losslessClient 0 0) } (brokenBanner ++ [.relock 0 {}]) := by
  have hafter : (Run.exec frameStep { node := outgoing (Policy.losslessClient 0 0) }
      (brokenBanner ++ [.relock 0 {}])).map (fun s ↦ (s.granted, s.node.conn.connectSeq)) =
        some (false, 1) := by
    decide +kernel
  have hbefore : (Run.exec frameStep { node := outgoing (Policy.losslessClient 0 0) }
      brokenBanner).map (fun s ↦ ((s.node.win.map fun w ↦ (w.error, w.owner), s.node.loc,
        s.node.conn.phase), s.node.conn.replacing, s.session, s.node.conn.connectSeq,
        ({ s.node.conn with sending := false } : Conn Frame).fault.connectSeq)) =
        some ((some (true, .event), .writing .other, .connectingWaitIdentifyPeer), 0, false, 0, 1) := by
    decide +kernel
  obtain ⟨s', hs', hview'⟩ := Option.map_eq_some_iff.mp hafter
  obtain ⟨s, hs, hview⟩ := Option.map_eq_some_iff.mp hbefore
  simp only [Prod.mk.injEq] at hview hview'
  obtain ⟨⟨hwin, hloc, hphase⟩, hrepl, hsession, hseq, hfault⟩ := hview
  refine ⟨⟨s', hs', hview'.1, hview'.2⟩, fun hmeets ↦ ?_⟩
  obtain ⟨w, hw, hwview⟩ := Option.map_eq_some_iff.mp hwin
  simp only [Prod.mk.injEq] at hwview
  have hfair := (hmeets.of_exec hs).1 _
    ⟨.write 0 {} w .other hw hwview.1 hwview.2 hloc, by simp [hrepl]⟩ (Or.inl (by rw [hphase]; rfl))
  rcases hfair with h | h
  · rw [hsession] at h
    exact absurd h (by simp)
  · have hsame := h.1
    rw [hfault] at hsame
    exact absurd (hsame.trans hseq) (by decide)

end Endpoint

end AsyncMessenger
