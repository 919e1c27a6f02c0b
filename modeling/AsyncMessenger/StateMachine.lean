import AsyncMessenger.NodeFrame

/-!
# Which state follows which

The transitions of `_process_connection`. A connection that has to wait for its output to be written
remembers the state it will enter in `state_after_send`, and a pass split in `handle_connect_msg`
remembers it in `Conn.opening`; `Later` says which states can be remembered there. `Goes` collects
what every pass of `_process_connection` keeps to: the transitions, no touch of a throttle, and a
policy that changes its throttles only to those of the messenger's policy for the peer.

The lists of successors are read off the passes, and are checked against them by
`move_processConnection`: each move enters a state of the list, or stays where it is, or goes to
`STATE_WAIT_SEND` and remembers a state of the list. So a property that depends on the state alone
can be followed by looking at the lists, and the invariants of later modules are stated state by
state.
-/

namespace AsyncMessenger

/-- The states a handshake can enter after its output is written. -/
def State.afterSend : List State :=
  [.connectingWaitIdentifyPeer, .connectingSendConnectMsg, .connectingWaitConnectReply,
    .connectingReady, .acceptingWaitBannerAddr, .acceptingWaitSeq, .acceptingReady]

/-- The states one pass of `do_process` can lead to, beside the one it starts in, as long as no
session is open. -/
def State.successors : State → List State
  | .waitSend => State.afterSend
  | .connecting => [.connectingWaitBanner]
  | .connectingWaitBanner => [.connectingWaitIdentifyPeer, .waitSend]
  | .connectingWaitIdentifyPeer => [.connectingSendConnectMsg, .waitSend]
  | .connectingSendConnectMsg => [.connectingWaitConnectReply, .waitSend]
  | .connectingWaitConnectReply => [.connectingWaitConnectReplyAuth]
  | .connectingWaitConnectReplyAuth =>
    [.connectingSendConnectMsg, .wait, .connectingWaitAckSeq, .connectingReady]
  | .connectingWaitAckSeq => [.connectingReady, .waitSend]
  | .connectingReady => [.opened]
  | .accepting => [.acceptingWaitBannerAddr, .waitSend]
  | .acceptingWaitBannerAddr => [.acceptingWaitConnectMsg]
  | .acceptingWaitConnectMsg => [.acceptingWaitConnectMsgAuth]
  | .acceptingWaitConnectMsgAuth =>
    [.acceptingWaitConnectMsg, .closed, .acceptingWaitSeq, .acceptingReady, .waitSend]
  | .acceptingWaitSeq => [.acceptingReady]
  | .acceptingReady => [.opened]
  | .wait => [.connectingSendConnectMsg]
  | _ => []

/-- Which throttles a policy sets: messages and bytes. -/
def Policy.throttlers (p : Policy) : Bool × Bool := (p.throttlerMessages, p.throttlerBytes)

/-- The effect touches no throttle. -/
def Effect.Quiet {β : Type} : Effect β → Prop
  | .none => True
  | .register => True
  | .replace _ => True
  | .keepalive => True
  | _ => False

namespace Conn

variable {β : Type} {enc : Frame → List β} {K : Codec} {flags : CrcFlags}

/-- The states a connection has in store are states of the handshake. -/
structure Later (c : Conn β) : Prop where
  afterSend : c.stateAfterSend = .none ∨ c.stateAfterSend ∈ State.afterSend
  opening : ∀ frames next, c.opening = some (frames, next) →
    next = .acceptingWaitSeq ∨ next = .acceptingReady

/-- The fields `Later` looks at. -/
def store (c : Conn β) : State × Option (List Frame × State) := (c.stateAfterSend, c.opening)

theorem Later.congr {c c' : Conn β} (h : c.Later) (hstore : c'.store = c.store) : c'.Later := by
  simp only [store, Prod.mk.injEq] at hstore
  exact ⟨hstore.1 ▸ h.afterSend, hstore.2 ▸ h.opening⟩

/-- What a pass of `_process_connection` from `c` to the outcome `o` keeps to; `p` are the throttles
of the policy it leaves behind. -/
structure Goes (c : Conn β) (p : Bool × Bool) (o : Outcome β) : Prop where
  later : o.conn.Later
  state : o.conn.state = c.state ∨ o.conn.state ∈ c.state.successors
  quiet : o.effect.Quiet
  throttlers : o.conn.policy.throttlers = p

theorem goes_stay {c : Conn β} {flow : Flow} {gseq : ℕ} (h : c.Later) :
    c.Goes c.policy.throttlers { conn := c, flow, gseq } :=
  ⟨h, Or.inl rfl, trivial, rfl⟩

theorem goes_goto {c d : Conn β} {s : State} {gseq : ℕ} (h : c.Later)
    (hstore : d.store = c.store) (hmem : s ∈ c.state.successors) :
    c.Goes d.policy.throttlers (d.goto s gseq) :=
  ⟨h.congr hstore, Or.inr hmem, trivial, rfl⟩

theorem goes_ite {c : Conn β} {p : Bool × Bool} {q : Prop} [Decidable q] {a b : Outcome β}
    (ha : c.Goes p a) (hb : c.Goes p b) : c.Goes p (if q then a else b) := by
  split_ifs
  · exact ha
  · exact hb

@[simp] theorem state_startWrite (c : Conn β) : c.startWrite.state = c.state := by
  rw [startWrite_eq]

/-- Sending touches none of the fields that `Goes` looks at. -/
theorem trySend_frame (c : Conn β) (bl : List β) (kernel : Option ℕ) :
    (c.trySend bl kernel).conn.state = c.state ∧ (c.trySend bl kernel).conn.store = c.store ∧
      (c.trySend bl kernel).conn.policy = c.policy := by
  simp only [trySend, setAction_eq]
  split_ifs
  · exact ⟨rfl, rfl, rfl⟩
  · split <;> exact ⟨rfl, rfl, rfl⟩

theorem goes_sendThen {c d : Conn β} {p : Bool × Bool} {frames : List Frame} {next : State}
    {inp : Input β} (h : d.Later) (hstate : d.state = c.state) (hp : d.policy.throttlers = p)
    (hnext : next ∈ c.state.successors)
    (hwait : State.waitSend ∈ c.state.successors) (hafter : next ∈ State.afterSend) :
    c.Goes p (d.sendThen enc frames next inp) := by
  subst hp
  obtain ⟨hsame, hstore, hkeep⟩ := d.trySend_frame (frames.flatMap enc) inp.kernel
  have hlater := h.congr hstore
  have hthrottlers := congrArg Policy.throttlers hkeep
  simp only [sendThen]
  split
  · exact ⟨hlater, Or.inl (hsame.trans hstate), trivial, hthrottlers⟩
  · exact ⟨hlater.congr rfl, Or.inr hnext, trivial, hthrottlers⟩
  · exact ⟨⟨Or.inr hafter, hlater.opening⟩, Or.inr hwait, trivial, hthrottlers⟩

theorem goes_refuse {c d : Conn β} {tag : ℕ} {m : MsgConnect} {reply : MsgConnectReply}
    {auth : Bytes} {inp : Input β} {effect : Effect β} (h : d.Later) (hstate : d.state = c.state)
    (hs : c.state = .acceptingWaitConnectMsgAuth) (hquiet : effect.Quiet) :
    c.Goes d.policy.throttlers (d.refuse enc tag m reply auth inp effect) := by
  have hreply (reply : MsgConnectReply) (o : Outcome β) (heffect : o.effect = effect)
      (hconn : o.conn = (d.replyAccept enc tag m reply auth inp.kernel).conn) :
      c.Goes d.policy.throttlers o := by
    obtain ⟨hsame, hstore, hkeep⟩ :=
      d.trySend_frame (enc (.reply (d.acceptReply tag m reply auth) auth)) inp.kernel
    have hthrottlers := congrArg Policy.throttlers hkeep
    simp only [replyAccept] at hconn
    split at hconn
    · refine ⟨h.congr (hconn ▸ hstore), Or.inl ?_, heffect ▸ hquiet, hconn ▸ hthrottlers⟩
      rw [hconn, hsame, hstate]
    · refine ⟨h.congr ?_, Or.inr ?_, heffect ▸ hquiet, ?_⟩
      · rw [hconn]
        exact hstore
      · rw [hconn, hs]
        exact List.mem_cons_self
      · rw [hconn]
        exact hthrottlers
  simp only [refuse]
  split <;> exact hreply _ _ rfl rfl

theorem store_stop (c : Conn β) : c.stop.store = c.store := by
  rw [stop]
  split_ifs <;> rfl

theorem policy_stop (c : Conn β) : c.stop.policy = c.policy := by
  rw [stop]
  split_ifs <;> rfl

/-- The verdict is carried out from the state it was reached in. -/
theorem goes_carryOut {c d : Conn β} {m : MsgConnect} {inp : Input β} {v : Verdict} (h : d.Later)
    (hstate : d.state = c.state) (hs : c.state = .acceptingWaitConnectMsgAuth) :
    c.Goes d.policy.throttlers (d.carryOut enc m inp v) := by
  cases v with
  | reply => exact goes_refuse h hstate hs trivial
  | wait => exact goes_refuse h hstate hs trivial
  | busy =>
    rw [carryOut, refuseBusy]
    have hrefuse : c.Goes d.policy.throttlers (d.refuse enc Tag.retrySession m
        { connectSeq := inc32 m.connectSeq } inp.authorizerReply inp .none) :=
      goes_refuse h hstate hs trivial
    split_ifs
    · exact ⟨hrefuse.later.congr rfl, hrefuse.state, hrefuse.quiet, hrefuse.throttlers⟩
    · exact hrefuse
  | replace =>
    refine ⟨h.congr (store_stop _), Or.inr ?_, ?_, congrArg Policy.throttlers (policy_stop _)⟩
    · rw [carryOut, state_stop, hs]
      simp [State.successors]
    · rw [carryOut]
      cases inp.existing <;> trivial
  | «open» =>
    refine ⟨⟨?_, ?_⟩, Or.inl ?_, trivial, ?_⟩
    · simp only [carryOut, openSession]
      split_ifs <;> exact h.afterSend
    · intro frames next heq
      simp only [carryOut, openSession, Option.some_inj, Prod.mk.injEq] at heq
      rw [← heq.2]
      split_ifs
      · exact Or.inl rfl
      · exact Or.inr rfl
    · simp only [carryOut, openSession]
      split_ifs <;> exact hstate
    · simp only [carryOut, openSession]
      split_ifs <;> rfl

/-- An answered connect message leaves the messenger's policy for the peer behind. -/
theorem goes_gotConnectMsg {c : Conn β} {inp : Input β} (h : c.Later)
    (hs : c.state = .acceptingWaitConnectMsgAuth) :
    c.Goes inp.newPolicy.throttlers (c.gotConnectMsg enc inp) := by
  have hsign : (({ c with policy := inp.newPolicy } : Conn β).requireSignatures inp).store = c.store ∧
      (({ c with policy := inp.newPolicy } : Conn β).requireSignatures inp).state = c.state ∧
      (({ c with policy := inp.newPolicy } : Conn β).requireSignatures inp).policy.throttlers =
        inp.newPolicy.throttlers := by
    rw [requireSignatures]
    split_ifs <;> exact ⟨rfl, rfl, rfl⟩
  simp only [gotConnectMsg, handleConnectMsg]
  generalize (({ c with policy := inp.newPolicy } : Conn β).requireSignatures inp) = d at hsign ⊢
  obtain ⟨hstore, hstate, hpolicy⟩ := hsign
  have hlater : d.Later := h.congr hstore
  refine goes_ite (goes_refuse (d := { c with policy := inp.newPolicy }) (h.congr rfl) rfl hs trivial)
    (goes_ite ?_ (goes_ite ?_ ?_))
  · exact hpolicy ▸ goes_refuse hlater hstate hs trivial
  · exact hpolicy ▸ goes_refuse hlater hstate hs trivial
  · exact hpolicy ▸ goes_carryOut hlater hstate hs

theorem goes_onRead {c : Conn β} {p : Bool × Bool} {inp : Input β} {k : Chunk → Outcome β}
    (h : c.Later) (hp : p = c.policy.throttlers) (hk : ∀ chunk, c.Goes p (k chunk)) :
    c.Goes p (c.onRead inp k) := by
  subst hp
  rw [onRead]
  split
  · exact goes_stay h
  · exact goes_stay h
  · exact hk _

theorem goes_handleConnectReply {c : Conn β} {r : MsgConnectReply} {inp : Input β} (h : c.Later)
    (hs : c.state = .connectingWaitConnectReplyAuth) :
    c.Goes c.policy.throttlers (c.handleConnectReply r inp) := by
  have hstay {flow : Flow} {g : ℕ} : c.Goes c.policy.throttlers { conn := c, flow, gseq := g } :=
    goes_stay h
  have hgoto {d : Conn β} {s : State} {g : ℕ} (hstore : d.store = c.store)
      (hpolicy : d.policy = c.policy)
      (hmem : s ∈ State.connectingWaitConnectReplyAuth.successors) :
      c.Goes c.policy.throttlers (d.goto s g) :=
    hpolicy ▸ goes_goto h hstore (hs ▸ hmem)
  have hsend := List.mem_cons_self (a := State.connectingSendConnectMsg)
    (l := [.wait, .connectingWaitAckSeq, .connectingReady])
  rw [handleConnectReply]
  refine goes_ite hstay (goes_ite (goes_ite hstay (hgoto rfl rfl hsend))
    (goes_ite (hgoto rfl rfl hsend) (goes_ite (hgoto rfl rfl hsend)
      (goes_ite (goes_ite hstay (hgoto rfl rfl hsend)) (goes_ite (hgoto rfl rfl ?_)
        (goes_ite (goes_ite (hgoto rfl rfl ?_) hstay)
          (goes_ite (goes_ite (hgoto rfl rfl ?_) hstay) hstay)))))))
  all_goals simp [State.successors]

theorem goes_finishOpen {c : Conn β} {frames : List Frame} {next : State} {inp : Input β}
    (h : c.Later) (hs : c.state = .acceptingWaitConnectMsgAuth)
    (hopening : c.opening = some (frames, next)) :
    c.Goes c.policy.throttlers (c.finishOpen enc frames next inp) := by
  have hnext : next ∈ c.state.successors ∧ next ∈ State.afterSend := by
    rw [hs]
    rcases h.opening frames next hopening with rfl | rfl <;>
      simp [State.successors, State.afterSend]
  have hwait : State.waitSend ∈ c.state.successors := by
    rw [hs]
    simp [State.successors]
  have hsend (d : Conn β) (hstore : d.store = ({ c with opening := none } : Conn β).store)
      (hstate : d.state = c.state) :
      c.Goes d.policy.throttlers (d.sendThen enc frames next inp) := by
    refine goes_sendThen (Later.congr ?_ hstore) hstate rfl hnext.1 hwait hnext.2
    exact ⟨h.afterSend, fun _ _ heq ↦ absurd heq (by simp)⟩
  have hdone {o : Outcome β} (ho : c.Goes c.policy.throttlers o) :
      c.Goes c.policy.throttlers { o with conn := { o.conn with replacing := 0 } } :=
    ⟨ho.later.congr rfl, ho.state, ho.quiet, ho.throttlers⟩
  simp only [finishOpen]
  split_ifs
  · exact ⟨h.congr rfl, Or.inl rfl, trivial, rfl⟩
  · exact hdone (hsend { c with opening := none, notified := false } rfl rfl)

/-- **One pass of `_process_connection` follows a transition** or stays where it is. Only a connect
message that is answered changes the throttles of the policy. -/
theorem goes_processConnection {c : Conn β} {inp : Input β} (h : c.Later) :
    c.Goes c.policy.throttlers (c.processConnection enc inp) ∨
      c.state = .acceptingWaitConnectMsgAuth ∧ c.opening = none ∧
        c.processConnection enc inp = c.gotConnectMsg enc inp := by
  by_cases hauth : c.state = .acceptingWaitConnectMsgAuth ∧ c.opening = none
  · obtain ⟨hs, hnone⟩ := hauth
    simp only [processConnection, hs, hnone, true_and]
    by_cases hlen : c.connectMsg.authorizerLen = 0
    · rw [if_pos hlen]
      exact Or.inr rfl
    · rw [if_neg hlen, onRead]
      split
      · exact Or.inl (goes_stay h)
      · exact Or.inl (goes_stay h)
      · exact Or.inr rfl
  · apply Or.inl
    have hstay {flow : Flow} {g : ℕ} : c.Goes c.policy.throttlers { conn := c, flow, gseq := g } :=
      goes_stay h
    have hread (k : Chunk → Outcome β) (hk : ∀ chunk, c.Goes c.policy.throttlers (k chunk)) :
        c.Goes c.policy.throttlers (c.onRead inp k) := goes_onRead h rfl hk
    rw [processConnection]
    split <;> rename_i hs
    · -- `STATE_WAIT_SEND`
      rw [flushed]
      split_ifs with hout hnone
      · exact ⟨h.congr rfl, Or.inl rfl, trivial, rfl⟩
      · exact hstay
      · refine ⟨⟨Or.inl rfl, h.opening⟩, Or.inr ?_, trivial, rfl⟩
        rw [hs]
        exact h.afterSend.resolve_left hnone
    · -- `STATE_CONNECTING`
      simp only [dial]
      refine goes_ite hstay (goes_ite ⟨h.congr rfl, Or.inr ?_, trivial, rfl⟩
        ⟨h.congr rfl, Or.inl rfl, trivial, rfl⟩)
      simp [hs, State.successors, goto]
    · -- `STATE_CONNECTING_WAIT_BANNER`
      refine hread _ fun chunk ↦ ?_
      split
      · exact goes_ite (goes_sendThen h rfl rfl (by simp [hs, State.successors])
          (by simp [hs, State.successors]) (by simp [State.afterSend])) hstay
      · exact hstay
    · -- `STATE_CONNECTING_WAIT_IDENTIFY_PEER`
      refine hread _ fun chunk ↦ ?_
      split
      · exact goes_ite (goes_sendThen h rfl rfl (by simp [hs, State.successors])
          (by simp [hs, State.successors]) (by simp [State.afterSend])) hstay
      · exact hstay
    · -- `STATE_CONNECTING_SEND_CONNECT_MSG`
      simp only [sendConnectMsg]
      split_ifs
      · exact goes_sendThen (h.congr rfl) rfl rfl (by simp [hs, State.successors])
          (by simp [hs, State.successors]) (by simp [State.afterSend])
      · exact goes_sendThen (h.congr rfl) rfl rfl (by simp [hs, State.successors])
          (by simp [hs, State.successors]) (by simp [State.afterSend])
    · -- `STATE_CONNECTING_WAIT_CONNECT_REPLY`
      refine hread _ fun chunk ↦ ?_
      split
      · exact ⟨h.congr rfl, Or.inr (by simp [hs, State.successors, goto]), trivial, rfl⟩
      · exact hstay
    · -- `STATE_CONNECTING_WAIT_CONNECT_REPLY_AUTH`
      have hreply : c.Goes c.policy.throttlers (c.handleConnectReply c.connectReply inp) :=
        goes_handleConnectReply h hs
      exact goes_ite hreply (goes_ite hstay (hread _ fun _ ↦ goes_ite hstay hreply))
    · -- `STATE_CONNECTING_WAIT_ACK_SEQ`
      refine hread _ fun chunk ↦ ?_
      split
      · exact goes_sendThen (h.congr rfl) rfl rfl (by simp [hs, State.successors])
          (by simp [hs, State.successors]) (by simp [State.afterSend])
      · exact hstay
    · -- `STATE_CONNECTING_READY`
      simp only [connectDone]
      exact goes_ite ⟨h.congr rfl, Or.inr (by simp [hs, State.successors]), trivial, rfl⟩ hstay
    · -- `STATE_ACCEPTING`
      exact goes_ite (goes_sendThen h rfl rfl (by simp [hs, State.successors])
        (by simp [hs, State.successors]) (by simp [State.afterSend])) hstay
    · -- `STATE_ACCEPTING_WAIT_BANNER_ADDR`
      refine hread _ fun chunk ↦ ?_
      split
      · exact goes_ite (goes_goto h rfl (by simp [hs, State.successors])) hstay
      · exact hstay
    · -- `STATE_ACCEPTING_WAIT_CONNECT_MSG`
      refine hread _ fun chunk ↦ ?_
      split
      · exact ⟨h.congr rfl, Or.inr (by simp [hs, State.successors, goto]), trivial, rfl⟩
      · exact hstay
    · -- `STATE_ACCEPTING_WAIT_CONNECT_MSG_AUTH`
      split
      · exact goes_finishOpen h hs ‹_›
      · exact absurd ⟨hs, ‹_›⟩ hauth
    · -- `STATE_ACCEPTING_WAIT_SEQ`
      refine hread _ fun chunk ↦ ?_
      split
      · exact ⟨h.congr rfl, Or.inr (by simp [hs, State.successors, goto]), trivial, rfl⟩
      · exact hstay
    · -- `STATE_ACCEPTING_READY`
      exact ⟨h.congr rfl, Or.inr (by simp [hs, State.successors, goto]), trivial, rfl⟩
    · exact hstay

/-! ## The other steps

`fault`, `_stop`, `do_replace` and the calls of other threads change the state as well, to one of a
few. -/

theorem faultRetry_frame (c : Conn β) :
    c.faultRetry.store = c.store ∧ c.faultRetry.policy = c.policy := by
  simp only [faultRetry]
  split_ifs <;> exact ⟨rfl, rfl⟩

theorem fault_frame (c : Conn β) : c.fault.store = c.store ∧ c.fault.policy = c.policy := by
  rw [fault]
  split_ifs
  · exact ⟨rfl, rfl⟩
  · exact ⟨store_stop c, policy_stop c⟩
  · exact faultRetry_frame c

theorem takeOver_frame (c : Conn β) (random : ℕ) :
    (c.takeOver random).store = c.store ∧ (c.takeOver random).policy = c.policy ∧
      (c.takeOver random).state = .acceptingWaitConnectMsg := by
  rw [takeOver]
  split_ifs <;> exact ⟨rfl, rfl, rfl⟩

theorem doReplace_frame (c : Conn β) (r : ReplaceInput) :
    (c.doReplace enc r).conn.store = c.store ∧ (c.doReplace enc r).conn.policy = c.policy := by
  obtain ⟨hstore, hpolicy, -⟩ := c.takeOver_frame r.random
  obtain ⟨reply, -, -, ⟨out, h⟩ | ⟨k, b, h⟩⟩ := c.doReplace_cases enc r
  · rw [h]
    have hfault := fault_frame { c.takeOver r.random with outcomingBl := out, replacing := 0 }
    exact ⟨hfault.1.trans hstore, hfault.2.trans hpolicy⟩
  · rw [h]
    exact ⟨hstore, hpolicy⟩

theorem later_rule : CoreRule enc (Later (β := β)) where
  congr _ _ hcore h := h.congr (congrArg store hcore).symm
  connect _ _ h := h.congr rfl
  lossy _ h := h.congr rfl
  handOver _ _ _ _ _ _ _ h := h.congr rfl
  stop c h := h.congr (store_stop c)
  faultRetry c _ _ h := h.congr (faultRetry_frame c).1
  doReplace c r _ h := h.congr (doReplace_frame c r).1

/-- The states `do_process` leaves to `_process_connection`. -/
theorem processState_eq {c : Conn β} {inp : Input β} (hopen : c.state.isOpen = false)
    (hrest : c.state ∉ [State.standby, .closed, .wait]) :
    c.processState K flags enc inp = c.processConnection enc inp := by
  rw [processState, if_neg (by simp [hopen])]
  split <;> rename_i hs
  · exact absurd (by rw [hs]; decide) hrest
  · exact absurd (by rw [hs]; decide) hrest
  · exact absurd (by rw [hs]; decide) hrest
  · rfl

/-- **One pass of `do_process` outside an open session** follows a transition or stays where it
is. -/
theorem pass_of_not_isOpen {c : Conn β} {inp : Input β} (h : c.Later)
    (hopen : c.state.isOpen = false) :
    c.Goes c.policy.throttlers (c.pass K flags enc inp) ∨
      c.state = .acceptingWaitConnectMsgAuth ∧ c.opening = none ∧
        c.pass K flags enc inp = c.gotConnectMsg enc inp := by
  have hclean {o : Outcome β} (ho : c.Goes c.policy.throttlers o) :
      c.Goes c.policy.throttlers
        { o with conn := { o.conn with authorizer := none, gotBadAuth := false } } :=
    ⟨ho.later.congr rfl, ho.state, ho.quiet, ho.throttlers⟩
  have hstate : c.Goes c.policy.throttlers (c.processState K flags enc inp) ∨
      c.state = .acceptingWaitConnectMsgAuth ∧ c.opening = none ∧
        c.processState K flags enc inp = c.gotConnectMsg enc inp := by
    rw [processState, if_neg (by simp [hopen])]
    split <;> rename_i hs
    · exact Or.inl (goes_stay h)
    · exact Or.inl (goes_stay h)
    · exact Or.inl ⟨h.congr rfl, Or.inr (by simp [hs, State.successors, failed]), trivial, rfl⟩
    · exact goes_processConnection h
  rcases hstate with hgoes | ⟨hs, hnone, heq⟩
  · apply Or.inl
    simp only [pass]
    split_ifs
    · exact hclean hgoes
    · exact hgoes
  · have hlow : ¬ c.state.code ≤ State.connectingReady.code := by
      rw [hs]
      decide
    refine Or.inr ⟨hs, hnone, ?_⟩
    simp only [pass, heq, hlow, and_false, if_false]

theorem later_pass {c : Conn β} {inp : Input β} (h : c.Later) :
    (c.pass K flags enc inp).conn.Later := by
  by_cases hopen : c.state.isOpen = true
  · rw [pass_of_isOpen hopen]
    have hreads : c.Reads (c.processOpen K flags inp).conn := reads_processOpen hopen
    have hstore := congrArg store hreads.1
    exact h.congr hstore
  · rcases pass_of_not_isOpen h (by simpa using hopen) with hgoes | ⟨hs, -, heq⟩
    · exact hgoes.later
    · rw [heq]
      exact (goes_gotConnectMsg h hs).later

end Conn

theorem Node.later_next {β : Type} {enc : Frame → List β} {K : Codec} {flags : CrcFlags}
    {n n' : Node β} {e : Event β} (h : n.conn.Later) (hnext : n.next enc K flags e = some n') :
    n'.conn.Later :=
  Node.next_core Conn.later_rule h (fun _ _ _ _ ↦ Conn.later_pass h) hnext

theorem Node.later_outgoing {β : Type} (policy : Policy) : (outgoing policy : Node β).conn.Later :=
  ⟨Or.inl rfl, by simp [outgoing, Conn.connect]⟩

theorem Node.later_accepted {β : Type} (fd : Fd) : (accepted fd : Node β).conn.Later :=
  ⟨Or.inl rfl, by simp [accepted]⟩

theorem Node.later_initial {β : Type} {n : Node β} (h : n.Initial) : n.conn.Later := by
  cases h with
  | outgoing policy => exact later_outgoing policy
  | accepted fd => exact later_accepted fd

end AsyncMessenger
