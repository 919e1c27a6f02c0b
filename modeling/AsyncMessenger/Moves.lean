import AsyncMessenger.PassFrame

/-!
# The moves of a handshake

One pass of `_process_connection` does one of a dozen things. `Move` lists them, each with the
connection it leaves behind, and `move_processConnection` says that there are no others. Results
about handshakes go through this list and never unfold the pass itself.

A state that sends goes to its successor at once or by way of `STATE_WAIT_SEND`, depending on what
the kernel takes. For the protocol the difference is of no interest, and `phase` abstracts
from it.

## What a move says

A move has the connection before, the input and the outcome. It says all that a pass does, so that
nobody has to look at the pass again: the guards that were met are arguments of its constructor. The
parts with many cases of their own are relations as well. `Prepares` is what is about to be sent in
a handshake, `Heeds` what becomes of a reply that the client goes on with, `Judges` the verdict on a
connect message with the tests behind it, and `Denies` the refusals that follow from it.

The functions of the source come in the order of their calls: the verdict, the answer, the rest of
`handle_connect_msg`, `handle_connect_reply`, and then the states one by one.
-/

namespace AsyncMessenger

namespace Conn

variable {β : Type}

/-- The state of the connection in the protocol: while output is pending, the state it will enter. -/
def phase (c : Conn β) : State := if c.state = .waitSend then c.stateAfterSend else c.state

theorem phase_of_state {c : Conn β} {s : State} (hs : c.state = s) (hne : s ≠ .waitSend) :
    c.phase = s := by
  rw [phase, hs, if_neg hne]

/-- Two policies that differ at most in the features they require. -/
def SamePolicy (p p' : Policy) : Prop :=
  { p with featuresRequired := 0 } = { p' with featuresRequired := 0 }

/-- Why the connection `e` registered for the peer is to be replaced on account of the connect message
`m`, with the two flags it is marked with. -/
inductive Claims (c e : Conn β) (m : MsgConnect) (peerLess : Bool) : Bool → Bool → Prop
  | lossy (hlossy : e.policy.lossy = true) : Claims c e m peerLess true false
  | reset (hlossy : e.policy.lossy = false) (hzero : m.connectSeq = 0) (hpos : 0 < e.connectSeq) :
    Claims c e m peerLess c.policy.resetcheck true
  | idle (hlossy : e.policy.lossy = false) (heq : m.connectSeq = e.connectSeq)
      (hs : e.state = .opened ∨ e.state = .standby) (hcheck : c.policy.resetcheck = true)
      (hzero : e.connectSeq = 0) :
    Claims c e m peerLess false false
  | wins (hlossy : e.policy.lossy = false) (heq : m.connectSeq = e.connectSeq)
      (hs : ¬ (e.state = .opened ∨ e.state = .standby))
      (hless : peerLess = true ∨ e.policy.server = true) :
    Claims c e m peerLess false false
  | ahead (hlossy : e.policy.lossy = false) (hlt : e.connectSeq < m.connectSeq)
      (hcheck : ¬ (c.policy.resetcheck = true ∧ e.connectSeq = 0)) :
    Claims c e m peerLess false false

/-- The verdicts of `handle_connect_msg` with the tests that lead to them. -/
inductive Judges (c : Conn β) (m : MsgConnect) (peerLess : Bool) : Option (Conn β) → Verdict → Prop
  | stranger (hreplacing : c.replacing = 0) (hpos : 0 < m.connectSeq) :
    Judges c m peerLess none (.reply Tag.resetSession {})
  | fresh (h : ¬ (c.replacing = 0 ∧ 0 < m.connectSeq)) : Judges c m peerLess none .open
  | old (e : Conn β) (hglobal : m.globalSeq < e.peerGlobalSeq) :
    Judges c m peerLess (some e) (.reply Tag.retryGlobal { globalSeq := e.peerGlobalSeq })
  | behind (e : Conn β) (hglobal : e.peerGlobalSeq ≤ m.globalSeq)
      (hlossy : e.policy.lossy = false) (hpos : 0 < m.connectSeq)
      (hlt : m.connectSeq < e.connectSeq) :
    Judges c m peerLess (some e) (.reply Tag.retrySession { connectSeq := inc32 e.connectSeq })
  | level (e : Conn β) (hglobal : e.peerGlobalSeq ≤ m.globalSeq) (hlossy : e.policy.lossy = false)
      (heq : m.connectSeq = e.connectSeq) (hs : e.state = .opened ∨ e.state = .standby)
      (hcheck : ¬ (c.policy.resetcheck = true ∧ e.connectSeq = 0)) :
    Judges c m peerLess (some e) (.reply Tag.retrySession { connectSeq := inc32 e.connectSeq })
  | unknown (e : Conn β) (hglobal : e.peerGlobalSeq ≤ m.globalSeq)
      (hlossy : e.policy.lossy = false) (hlt : e.connectSeq < m.connectSeq)
      (hcheck : c.policy.resetcheck = true) (hzero : e.connectSeq = 0) :
    Judges c m peerLess (some e) (.reply Tag.resetSession {})
  | race (e : Conn β) (hglobal : e.peerGlobalSeq ≤ m.globalSeq) (hlossy : e.policy.lossy = false)
      (heq : m.connectSeq = e.connectSeq) (hs : ¬ (e.state = .opened ∨ e.state = .standby))
      (hless : ¬ (peerLess = true ∨ e.policy.server = true)) :
    Judges c m peerLess (some e) .wait
  | busy (e : Conn β) (reset fromPeer : Bool) (hglobal : e.peerGlobalSeq ≤ m.globalSeq)
      (hclaim : Claims c e m peerLess reset fromPeer) (hbusy : e.busy = true) :
    Judges c m peerLess (some e) .busy
  | replace (e : Conn β) (reset fromPeer : Bool) (hglobal : e.peerGlobalSeq ≤ m.globalSeq)
      (hclaim : Claims c e m peerLess reset fromPeer) (hbusy : e.busy = false) :
    Judges c m peerLess (some e) (.replace reset fromPeer)

/-- The chain of tests in `handle_connect_msg` gives one of these verdicts. -/
theorem judges_judge (c : Conn β) (existing : Option (Conn β)) (m : MsgConnect) (peerLess : Bool) :
    Judges c m peerLess existing (c.judge existing m peerLess) := by
  cases existing with
  | none =>
    simp only [judge]
    split_ifs with h
    · exact .stranger h.1 h.2
    · exact .fresh h
  | some e =>
    have hclaim {reset fromPeer : Bool} (hglobal : e.peerGlobalSeq ≤ m.globalSeq)
        (h : Claims c e m peerLess reset fromPeer) :
        Judges c m peerLess (some e)
          (if e.busy then .busy else .replace reset fromPeer) := by
      split_ifs with hb
      · exact .busy e reset fromPeer hglobal h hb
      · exact .replace e reset fromPeer hglobal h (by simpa using hb)
    simp only [judge, judgeExisting]
    by_cases hglobal : m.globalSeq < e.peerGlobalSeq
    · rw [if_pos hglobal]
      exact .old e hglobal
    rw [if_neg hglobal]
    rw [Nat.not_lt] at hglobal
    cases hlossy : e.policy.lossy with
    | true => exact hclaim hglobal (.lossy hlossy)
    | false =>
      rw [if_neg (by simp)]
      by_cases hreset : m.connectSeq = 0 ∧ 0 < e.connectSeq
      · rw [if_pos hreset]
        exact hclaim hglobal (.reset hlossy hreset.1 hreset.2)
      rw [if_neg hreset]
      by_cases hlt : m.connectSeq < e.connectSeq
      · rw [if_pos hlt]
        exact .behind e hglobal hlossy (by omega) hlt
      rw [if_neg hlt]
      by_cases heq : m.connectSeq = e.connectSeq
      · rw [if_pos heq]
        by_cases hs : e.state = .opened ∨ e.state = .standby
        · rw [if_pos hs]
          by_cases hcheck : c.policy.resetcheck = true ∧ e.connectSeq = 0
          · rw [if_pos hcheck]
            exact hclaim hglobal (.idle hlossy heq hs hcheck.1 hcheck.2)
          · rw [if_neg hcheck]
            exact .level e hglobal hlossy heq hs hcheck
        · rw [if_neg hs]
          by_cases hless : peerLess = true ∨ e.policy.server = true
          · rw [if_pos hless]
            exact hclaim hglobal (.wins hlossy heq hs hless)
          · rw [if_neg hless]
            exact .race e hglobal hlossy heq hs hless
      · rw [if_neg heq]
        by_cases hcheck : c.policy.resetcheck = true ∧ e.connectSeq = 0
        · rw [if_pos hcheck]
          exact .unknown e hglobal hlossy (by omega) hcheck.1 hcheck.2
        · rw [if_neg hcheck]
          exact hclaim hglobal (.ahead hlossy (by omega) hcheck)

/-- What a sending state is about to send: the connection when it calls `_try_send`, the frames and
the state that follows. -/
inductive Prepares (c : Conn β) (inp : Input β) : Conn β → List Frame → State → Prop
  | banner (hs : c.state = .connectingWaitBanner)
      (hread : inp.read = .done (.banner AsyncMessenger.banner)) :
    Prepares c inp c [.banner] .connectingWaitIdentifyPeer
  | addr (hs : c.state = .connectingWaitIdentifyPeer) (hread : inp.read = .done .addrs) :
    Prepares c inp c [.addr] .connectingSendConnectMsg
  | connect (auth : Option Bytes) (m : MsgConnect) (hs : c.state = .connectingSendConnectMsg)
      (hseq : m.connectSeq = c.connectSeq) (hglobal : m.globalSeq = c.globalSeq)
      (hfeatures : m.features = c.policy.featuresSupported) :
    Prepares c inp { c with authorizer := auth, connectMsg := m } [.connect m (auth.getD [])]
      .connectingWaitConnectReply
  | seq (n : ℕ) (hs : c.state = .connectingWaitAckSeq) (hread : inp.read = .done (.seq n)) :
    Prepares c inp { c with q := c.q.discardRequeuedUpTo n } [.seq c.inSeq] .connectingReady
  | greeting (hs : c.state = .accepting) :
    Prepares c inp c [.banner, .addrs] .acceptingWaitBannerAddr
  | reply (frames : List Frame) (next : State) (hs : c.state = .acceptingWaitConnectMsgAuth)
      (hopening : c.opening = some (frames, next)) :
    Prepares c inp { c with opening := none, notified := false, replacing := 0 } frames next

/-- The replies after which `handle_connect_reply` goes on: the connection, the state it enters and
the messenger's counter. -/
inductive Heeds (c : Conn β) (inp : Input β) : Conn β → State → ℕ → Prop
  | badAuthorizer (htag : c.connectReply.tag = Tag.badAuthorizer) :
    Heeds c inp { c with gotBadAuth := true, authorizer := inp.newAuthorizer }
      .connectingSendConnectMsg inp.gseq
  | resetSession (htag : c.connectReply.tag = Tag.resetSession) :
    Heeds c inp (c.wasSessionReset inp.random) .connectingSendConnectMsg inp.gseq
  | retryGlobal (htag : c.connectReply.tag = Tag.retryGlobal) :
    Heeds c inp { c with globalSeq := getGlobalSeq inp.gseq c.connectReply.globalSeq }
      .connectingSendConnectMsg (getGlobalSeq inp.gseq c.connectReply.globalSeq)
  | retrySession (htag : c.connectReply.tag = Tag.retrySession)
      (hseq : c.connectSeq < c.connectReply.connectSeq) :
    Heeds c inp { c with connectSeq := c.connectReply.connectSeq } .connectingSendConnectMsg inp.gseq
  | wait (htag : c.connectReply.tag = Tag.wait) : Heeds c inp c .wait inp.gseq
  | seq (htag : c.connectReply.tag = Tag.seq)
      (hfeat : featMissing c.policy.featuresRequired c.connectReply.features = 0) :
    Heeds c inp c .connectingWaitAckSeq inp.gseq
  | ready (htag : c.connectReply.tag = Tag.ready)
      (hfeat : featMissing c.policy.featuresRequired c.connectReply.features = 0) :
    Heeds c inp c .connectingReady inp.gseq

/-- Why `handle_connect_msg` refuses: under the policy `p` it answers with a tag and a reply, and does
something else on the way. -/
inductive Denies (c : Conn β) (inp : Input β) (p : Policy) : ℕ → MsgConnectReply → Effect β → Prop
  | unfit (tag : ℕ) (htag : tag ∈ [Tag.badProtoVer, Tag.features, Tag.badAuthorizer]) :
    Denies c inp p tag {} .none
  | verdict (tag : ℕ) (reply : MsgConnectReply)
      (hv : Judges { c with policy := p } c.connectMsg inp.peerLess inp.existing
        (.reply tag reply)) :
    Denies c inp p tag reply .none
  | wait (hv : Judges { c with policy := p } c.connectMsg inp.peerLess inp.existing .wait) :
    Denies c inp p Tag.wait {} .keepalive
  | busy (hv : Judges { c with policy := p } c.connectMsg inp.peerLess inp.existing .busy) :
    Denies c inp p Tag.retrySession { connectSeq := inc32 c.connectMsg.connectSeq } .none

/-- The end of a sending state: it enters `next` if everything is written, and waits otherwise. `s` and
`a` are the new `state` and `state_after_send`, `old` the previous `state_after_send`. -/
inductive Enters (all : Prop) (old next : State) : State → State → Prop
  | now (hall : all) : Enters all old next next old
  | later (hpart : ¬ all) : Enters all old next .waitSend next

theorem Enters.phase_eq {all : Prop} {old next s a : State} (h : Enters all old next s a)
    (hne : next ≠ .waitSend) {c : Conn β} (hs : c.state = s) (ha : c.stateAfterSend = a) :
    c.phase = next := by
  cases h with
  | now => exact phase_of_state hs hne
  | later => rw [phase, if_pos hs, ha]

theorem Enters.isOpen_eq {all : Prop} {old next s a : State} (h : Enters all old next s a)
    (hnext : next.isOpen = false) : s.isOpen = false := by
  cases h with
  | now => exact hnext
  | later => rfl

/-- The asserts of `_process_connection` that fail in a connection. -/
def TripsAssert (c : Conn β) : Prop :=
  match c.state with
  | .waitSend => c.outcomingBl = [] ∧ c.stateAfterSend = .none
  | .connecting => c.policy.server = true
  | .connectingWaitConnectReplyAuth =>
    c.connectReply.tag = Tag.retrySession ∧ c.connectReply.connectSeq ≤ c.connectSeq
  | .connectingReady => inc32 c.connectSeq ≠ c.connectReply.connectSeq
  | s => s.isOpen = true ∨ s ∈ [State.none, .standby, .closed, .wait]

variable (enc : Frame → List β)

/-- What one pass of `_process_connection` does. -/
inductive Move (c : Conn β) (inp : Input β) : Outcome β → Prop
  /-- A read is not complete, or output is pending. -/
  | waits (evRead : Bool) : Move c inp { conn := { c with evRead }, gseq := inp.gseq }
  | flushes (hs : c.state = .waitSend) (hout : c.outcomingBl = [])
      (hafter : c.stateAfterSend ≠ .none) :
    Move c inp
      { conn := { c with state := c.stateAfterSend, stateAfterSend := .none, evRead := true }
        gseq := inp.gseq }
  | aborts (h : c.TripsAssert) : Move c inp { conn := c, flow := .abort, gseq := inp.gseq }
  | fails : Move c inp (c.failed inp.gseq)
  | dials (fd : Fd) (hs : c.state = .connecting) (hserver : c.policy.server = false)
      (hsd : inp.newSd = some fd) :
    Move c inp (c.dial inp)
  | failsDial (hs : c.state = .connecting) (hserver : c.policy.server = false)
      (hsd : inp.newSd = none) :
    Move c inp (c.dial inp)
  | sends (d : Conn β) (frames : List Frame) (next : State) (k : ℕ) (evWrite : Bool) (s a : State)
      (hprep : Prepares c inp d frames next)
      (hnext : Enters ((d.outcomingBl ++ frames.flatMap enc).drop k = []) d.stateAfterSend next s a) :
    Move c inp
      { conn := { d with
          outcomingBl := (d.outcomingBl ++ frames.flatMap enc).drop k
          evWrite
          state := s
          stateAfterSend := a }
        wrote := (d.outcomingBl ++ frames.flatMap enc).take k
        gseq := inp.gseq }
  | failsSend (d : Conn β) (frames : List Frame) (next : State)
      (hprep : Prepares c inp d frames next) :
    Move c inp
      { conn := { d with outcomingBl := d.outcomingBl ++ frames.flatMap enc }
        flow := .fail
        gseq := inp.gseq }
  | hears (r : MsgConnectReply) (hs : c.state = .connectingWaitConnectReply)
      (hread : inp.read = .done (.reply r)) :
    Move c inp
      { conn := { c with connectReply := r, state := .connectingWaitConnectReplyAuth }
        gseq := inp.gseq }
  | heeds (d : Conn β) (s : State) (g : ℕ) (hs : c.state = .connectingWaitConnectReplyAuth)
      (h : Heeds c inp d s g) :
    Move c inp { conn := { d with state := s }, gseq := g }
  | connected (hs : c.state = .connectingReady)
      (hseq : inc32 c.connectSeq = c.connectReply.connectSeq) :
    Move c inp (c.connectDone inp.gseq)
  | identified (hs : c.state = .acceptingWaitBannerAddr) :
    Move c inp { conn := { c with state := .acceptingWaitConnectMsg }, gseq := inp.gseq }
  | asked (m : MsgConnect) (hs : c.state = .acceptingWaitConnectMsg)
      (hread : inp.read = .done (.connect m)) :
    Move c inp
      { conn := { c with connectMsg := m, state := .acceptingWaitConnectMsgAuth }
        gseq := inp.gseq }
  | refuses (p : Policy) (tag : ℕ) (reply : MsgConnectReply) (auth : Bytes) (effect : Effect β)
      (r : MsgConnectReply) (k : ℕ) (evWrite : Bool)
      (hs : c.state = .acceptingWaitConnectMsgAuth) (hopening : c.opening = none)
      (hp : SamePolicy p inp.newPolicy) (hdeny : Denies c inp p tag reply effect)
      (htag : r.tag = tag) (hseq : r.connectSeq = reply.connectSeq)
      (hglobal : r.globalSeq = reply.globalSeq) :
    Move c inp
      { conn := { c with
          policy := p
          outcomingBl := (c.outcomingBl ++ enc (.reply r auth)).drop k
          evWrite
          state := .acceptingWaitConnectMsg }
        wrote := (c.outcomingBl ++ enc (.reply r auth)).take k
        gseq := inp.gseq
        effect }
  | failsReply (p : Policy) (out : List β) (effect : Effect β) (replacing : ℕ)
      (hs : c.state = .acceptingWaitConnectMsgAuth) (hopening : c.opening = none)
      (hp : SamePolicy p inp.newPolicy) (heffect : effect = .none ∨ effect = .keepalive)
      (hreplacing : replacing = c.replacing ∨ replacing = 0) :
    Move c inp
      { conn := { c with policy := p, outcomingBl := out, replacing }
        flow := .fail
        gseq := inp.gseq
        effect }
  | handsOver (p : Policy) (e : Conn β) (reset fromPeer : Bool)
      (hs : c.state = .acceptingWaitConnectMsgAuth) (hopening : c.opening = none)
      (hp : SamePolicy p inp.newPolicy) (he : inp.existing = some e)
      (hv : Judges { c with policy := p } c.connectMsg inp.peerLess (some e)
        (.replace reset fromPeer)) :
    Move c inp
      { conn := ({ c with policy := p, sd := none } : Conn β).stop
        gseq := inp.gseq
        effect := .replace (e.markReplacing c.sd c.connectMsg inp.authorizerReply reset fromPeer) }
  | opens (p : Policy) (hs : c.state = .acceptingWaitConnectMsgAuth) (hopening : c.opening = none)
      (hp : SamePolicy p inp.newPolicy)
      (hv : Judges { c with policy := p } c.connectMsg inp.peerLess inp.existing .open) :
    Move c inp (({ c with policy := p } : Conn β).openSession c.connectMsg inp.authorizerReply
      inp.protoVersion inp.gseq)
  | notifies (hs : c.state = .acceptingWaitConnectMsgAuth) (hopening : c.opening ≠ none)
      (hreset : c.queueReset = false) (hreplacing : c.replacing = 0 ∨ c.replacing = 2) :
    Move c inp { conn := { c with queueReset := true, notified := true }, gseq := inp.gseq }
  | gotSeq (n : ℕ) (hs : c.state = .acceptingWaitSeq) (hread : inp.read = .done (.seq n)) :
    Move c inp
      { conn := { c with q := c.q.discardRequeuedUpTo n, state := .acceptingReady }
        gseq := inp.gseq }
  | accepted (hs : c.state = .acceptingReady) :
    Move c inp { conn := { c with connectMsg := {}, state := .opened }, gseq := inp.gseq }

variable {enc}

/-! ## Every pass is a move

A lemma for each function that a pass calls, from the inside to the outside. Each follows the tests
of its function, and at the end of each branch stands the constructor that belongs to it. -/

theorem move_sendThen {c d : Conn β} {inp : Input β} {frames : List Frame} {next : State}
    (hprep : Prepares c inp d frames next) :
    Move enc c inp (d.sendThen enc frames next inp) := by
  rw [sendThen]
  rcases d.trySend_cases (frames.flatMap enc) inp.kernel with h | ⟨k, b, h⟩
  · rw [h]
    exact .failsSend d frames next hprep
  · rw [h]
    cases hlen : ((d.outcomingBl ++ frames.flatMap enc).drop k).length with
    | zero =>
      exact .sends d frames next k b next _ hprep (.now (List.length_eq_zero_iff.mp hlen))
    | succ n =>
      refine .sends d frames next k b .waitSend next hprep (.later fun hnil ↦ ?_)
      rw [hnil] at hlen
      exact absurd hlen (by simp)

/-- The field `replacing` has no part in sending. -/
theorem sendThen_replacing (c : Conn β) (frames : List Frame) (next : State) (inp : Input β)
    (n : ℕ) :
    { c.sendThen enc frames next inp with
        conn := { (c.sendThen enc frames next inp).conn with replacing := n } } =
      ({ c with replacing := n } : Conn β).sendThen enc frames next inp := by
  simp only [sendThen, trySend, setAction_eq]
  by_cases hout : c.outcomingBl ++ frames.flatMap enc = []
  · rw [if_pos hout, if_pos hout, hout]
  · rw [if_neg hout, if_neg hout]
    cases inp.kernel with
    | none => rfl
    | some k =>
      dsimp only
      cases hlen : ((c.outcomingBl ++ frames.flatMap enc).drop k).length <;> rfl

theorem move_finishOpen {c : Conn β} {inp : Input β} {frames : List Frame} {next : State}
    (hs : c.state = .acceptingWaitConnectMsgAuth) (hopening : c.opening = some (frames, next)) :
    Move enc c inp (c.finishOpen enc frames next inp) := by
  simp only [finishOpen]
  split_ifs with hnotify
  · exact .notifies hs (by simp [hopening]) (by simpa using hnotify.2.2) hnotify.2.1
  · rw [sendThen_replacing]
    exact move_sendThen (.reply frames next hs hopening)

theorem move_onRead {c : Conn β} {inp : Input β} {k : Chunk → Outcome β}
    (hk : ∀ chunk, inp.read = .done chunk → Move enc c inp (k chunk)) :
    Move enc c inp (c.onRead inp k) := by
  rw [onRead]
  split
  · exact .fails
  · exact .waits c.evRead
  · exact hk _ ‹_›

theorem move_ite {c : Conn β} {inp : Input β} {p : Prop} [Decidable p] {a b : Outcome β}
    (ha : p → Move enc c inp a) (hb : ¬ p → Move enc c inp b) :
    Move enc c inp (if p then a else b) := by
  by_cases hp : p
  · rw [if_pos hp]
    exact ha hp
  · rw [if_neg hp]
    exact hb hp

theorem move_handleConnectReply {c : Conn β} {inp : Input β}
    (hs : c.state = .connectingWaitConnectReplyAuth) :
    Move enc c inp (c.handleConnectReply c.connectReply inp) := by
  have hheeds {d : Conn β} {s : State} {g : ℕ} (h : Heeds c inp d s g) :
      Move enc c inp (d.goto s g) := .heeds d s g hs h
  rw [handleConnectReply]
  refine move_ite (fun _ ↦ .fails) fun _ ↦ ?_
  refine move_ite (fun htag ↦ move_ite (fun _ ↦ .fails) fun _ ↦ hheeds (.badAuthorizer htag))
    fun _ ↦ ?_
  refine move_ite (fun htag ↦ hheeds (.resetSession htag)) fun _ ↦ ?_
  refine move_ite (fun htag ↦ hheeds (.retryGlobal htag)) fun _ ↦ ?_
  refine move_ite (fun htag ↦ move_ite (fun hle ↦ .aborts ?_) fun hlt ↦
    hheeds (.retrySession htag (Nat.lt_of_not_le hlt))) fun _ ↦ ?_
  · rw [TripsAssert, hs]
    exact ⟨htag, hle⟩
  refine move_ite (fun htag ↦ hheeds (.wait htag)) fun _ ↦ ?_
  refine move_ite (fun htag ↦ move_ite (fun hfeat ↦ hheeds (.seq htag hfeat)) fun _ ↦ .fails) fun _ ↦ ?_
  exact move_ite (fun htag ↦ move_ite (fun hfeat ↦ hheeds (.ready htag hfeat)) fun _ ↦ .fails) fun _ ↦ .fails

/-- The signature requirement changes only the features the policy requires. -/
theorem requireSignatures_eq (c : Conn β) (inp : Input β) :
    ∃ p, SamePolicy p c.policy ∧ c.requireSignatures inp = { c with policy := p } := by
  rw [requireSignatures]
  split_ifs
  · exact ⟨{ c.policy with featuresRequired := c.policy.featuresRequired ||| featureMsgAuth },
      rfl, rfl⟩
  · exact ⟨c.policy, rfl, rfl⟩

/-- A refusal is sent, or fails to be sent. -/
theorem refuse_cases (c : Conn β) (tag : ℕ) (m : MsgConnect) (reply : MsgConnectReply)
    (auth : Bytes) (inp : Input β) (effect : Effect β) :
    (∃ out, c.refuse enc tag m reply auth inp effect =
      { conn := { c with outcomingBl := out }, flow := .fail, gseq := inp.gseq, effect }) ∨
    ∃ (r : MsgConnectReply) (k : ℕ) (evWrite : Bool), r.tag = tag ∧
      r.connectSeq = reply.connectSeq ∧ r.globalSeq = reply.globalSeq ∧
      c.refuse enc tag m reply auth inp effect =
        { conn := { c with
            outcomingBl := (c.outcomingBl ++ enc (.reply r auth)).drop k
            evWrite
            state := .acceptingWaitConnectMsg }
          wrote := (c.outcomingBl ++ enc (.reply r auth)).take k
          gseq := inp.gseq
          effect } := by
  rw [refuse]
  rcases c.replyAccept_cases enc tag m { reply with protocolVersion := inp.protoVersion } auth
    inp.kernel with h | ⟨k, b, h⟩
  · rw [h]
    exact Or.inl ⟨_, rfl⟩
  · rw [h]
    exact Or.inr ⟨c.acceptReply tag m { reply with protocolVersion := inp.protoVersion } auth, k, b,
      rfl, rfl, rfl, rfl⟩

theorem effect_of_denies {c : Conn β} {inp : Input β} {p : Policy} {tag : ℕ}
    {reply : MsgConnectReply} {effect : Effect β} (h : Denies c inp p tag reply effect) :
    effect = .none ∨ effect = .keepalive := by
  cases h with
  | unfit => exact Or.inl rfl
  | verdict => exact Or.inl rfl
  | wait => exact Or.inr rfl
  | busy => exact Or.inl rfl

theorem move_refuse {c : Conn β} {inp : Input β} {p : Policy} {tag : ℕ} {reply : MsgConnectReply}
    {auth : Bytes} {effect : Effect β} (hs : c.state = .acceptingWaitConnectMsgAuth)
    (hopening : c.opening = none) (hp : SamePolicy p inp.newPolicy)
    (hdeny : Denies c inp p tag reply effect) :
    Move enc c inp (({ c with policy := p } : Conn β).refuse enc tag c.connectMsg reply auth inp
      effect) := by
  rcases refuse_cases ({ c with policy := p } : Conn β) tag c.connectMsg reply auth inp effect with
    ⟨out, h⟩ | ⟨r, k, b, htag, hseq, hglobal, h⟩
  · rw [h]
    exact .failsReply p out effect c.replacing hs hopening hp (effect_of_denies hdeny) (Or.inl rfl)
  · rw [h]
    exact .refuses p tag reply auth effect r k b hs hopening hp hdeny htag hseq hglobal

theorem move_carryOut {c : Conn β} {inp : Input β} {p : Policy}
    (hs : c.state = .acceptingWaitConnectMsgAuth) (hopening : c.opening = none)
    (hp : SamePolicy p inp.newPolicy) :
    Move enc c inp (({ c with policy := p } : Conn β).carryOut enc c.connectMsg inp
      (({ c with policy := p } : Conn β).judge inp.existing c.connectMsg inp.peerLess)) := by
  have hv := judges_judge ({ c with policy := p } : Conn β) inp.existing c.connectMsg inp.peerLess
  generalize ({ c with policy := p } : Conn β).judge inp.existing c.connectMsg inp.peerLess = v at hv ⊢
  cases v with
  | reply tag reply => exact move_refuse hs hopening hp (.verdict tag reply hv)
  | wait => exact move_refuse hs hopening hp (.wait hv)
  | busy =>
    rw [carryOut, refuseBusy]
    rcases refuse_cases ({ c with policy := p } : Conn β) Tag.retrySession c.connectMsg
      { connectSeq := inc32 c.connectMsg.connectSeq } inp.authorizerReply inp .none with
      ⟨out, h⟩ | ⟨r, k, b, htag, hseq, hglobal, h⟩
    · rw [h]
      exact .failsReply p out .none 0 hs hopening hp (Or.inl rfl) (Or.inr rfl)
    · rw [h]
      exact .refuses p _ _ _ _ r k b hs hopening hp (.busy hv) htag hseq hglobal
  | replace reset fromPeer =>
    -- only a registered connection is replaced
    cases he : inp.existing with
    | none =>
      rw [he] at hv
      cases hv
    | some e =>
      rw [carryOut, he]
      exact .handsOver p e reset fromPeer hs hopening hp he (he ▸ hv)
  | «open» => exact .opens p hs hopening hp hv

theorem move_gotConnectMsg {c : Conn β} {inp : Input β}
    (hs : c.state = .acceptingWaitConnectMsgAuth) (hopening : c.opening = none) :
    Move enc c inp (c.gotConnectMsg enc inp) := by
  obtain ⟨p, hp, hsign⟩ := requireSignatures_eq ({ c with policy := inp.newPolicy } : Conn β) inp
  have hunfit {q : Policy} {tag : ℕ} {auth : Bytes} (hq : SamePolicy q inp.newPolicy)
      (htag : tag ∈ [Tag.badProtoVer, Tag.features, Tag.badAuthorizer]) :
      Move enc c inp (({ c with policy := q } : Conn β).refuse enc tag c.connectMsg {} auth inp
        .none) := move_refuse hs hopening hq (.unfit tag htag)
  simp only [gotConnectMsg, handleConnectMsg, hsign]
  refine move_ite (fun _ ↦ hunfit rfl (by simp)) fun _ ↦ ?_
  refine move_ite (fun _ ↦ hunfit hp (by simp)) fun _ ↦ ?_
  refine move_ite (fun _ ↦ hunfit hp (by simp)) fun _ ↦ ?_
  exact move_carryOut hs hopening hp

/-- **One pass of `_process_connection` is a move.** -/
theorem move_processConnection (c : Conn β) (inp : Input β) :
    Move enc c inp (c.processConnection enc inp) := by
  rw [processConnection]
  split <;> rename_i hs
  · -- `STATE_WAIT_SEND`
    rw [flushed]
    refine move_ite (fun _ ↦ .waits false) fun hout ↦ ?_
    rw [ne_eq, not_not] at hout
    refine move_ite (fun hnone ↦ .aborts ?_) fun hafter ↦ .flushes hs hout hafter
    rw [TripsAssert, hs]
    exact ⟨hout, hnone⟩
  · -- `STATE_CONNECTING`
    cases hserver : c.policy.server with
    | true =>
      have habort : c.dial inp = { conn := c, flow := .abort, gseq := inp.gseq } := by
        simp only [dial, hserver, if_true]
      rw [habort]
      refine .aborts ?_
      rw [TripsAssert, hs]
      exact hserver
    | false =>
      cases hsd : inp.newSd with
      | none => exact .failsDial hs hserver hsd
      | some fd => exact .dials fd hs hserver hsd
  · -- `STATE_CONNECTING_WAIT_BANNER`
    refine move_onRead fun chunk hread ↦ ?_
    split
    · exact move_ite (fun heq ↦ move_sendThen (.banner hs (heq ▸ hread))) fun _ ↦ .fails
    · exact .fails
  · -- `STATE_CONNECTING_WAIT_IDENTIFY_PEER`
    refine move_onRead fun chunk hread ↦ ?_
    split
    · exact move_ite (fun _ ↦ move_sendThen (.addr hs hread)) fun _ ↦ .fails
    · exact .fails
  · -- `STATE_CONNECTING_SEND_CONNECT_MSG`
    rw [sendConnectMsg]
    split_ifs
    · exact move_sendThen (.connect c.authorizer _ hs rfl rfl rfl)
    · exact move_sendThen (.connect inp.newAuthorizer _ hs rfl rfl rfl)
  · -- `STATE_CONNECTING_WAIT_CONNECT_REPLY`
    refine move_onRead fun chunk hread ↦ ?_
    split
    · exact .hears _ hs hread
    · exact .fails
  · -- `STATE_CONNECTING_WAIT_CONNECT_REPLY_AUTH`
    have hreply : Move enc c inp (c.handleConnectReply c.connectReply inp) :=
      move_handleConnectReply hs
    refine move_ite (fun _ ↦ hreply) fun _ ↦ move_ite (fun _ ↦ .fails) fun _ ↦ ?_
    exact move_onRead fun _ _ ↦ move_ite (fun _ ↦ .fails) fun _ ↦ hreply
  · -- `STATE_CONNECTING_WAIT_ACK_SEQ`
    refine move_onRead fun chunk hread ↦ ?_
    split
    · exact move_sendThen (.seq _ hs hread)
    · exact .fails
  · -- `STATE_CONNECTING_READY`
    by_cases hseq : inc32 c.connectSeq = c.connectReply.connectSeq
    · exact .connected hs hseq
    · simp only [connectDone, if_neg hseq]
      refine .aborts ?_
      rw [TripsAssert, hs]
      exact hseq
  · -- `STATE_ACCEPTING`
    exact move_ite (fun _ ↦ move_sendThen (.greeting hs)) fun _ ↦ .fails
  · -- `STATE_ACCEPTING_WAIT_BANNER_ADDR`
    refine move_onRead fun chunk _ ↦ ?_
    split
    · exact move_ite (fun _ ↦ .identified hs) fun _ ↦ .fails
    · exact .fails
  · -- `STATE_ACCEPTING_WAIT_CONNECT_MSG`
    refine move_onRead fun chunk hread ↦ ?_
    split
    · exact .asked _ hs hread
    · exact .fails
  · -- `STATE_ACCEPTING_WAIT_CONNECT_MSG_AUTH`
    split
    · exact move_finishOpen hs ‹_›
    · have hgot : Move enc c inp (c.gotConnectMsg enc inp) := move_gotConnectMsg hs ‹_›
      exact move_ite (fun _ ↦ hgot) fun _ ↦ move_onRead fun _ _ ↦ hgot
  · -- `STATE_ACCEPTING_WAIT_SEQ`
    refine move_onRead fun chunk hread ↦ ?_
    split
    · exact .gotSeq _ hs hread
    · exact .fails
  · -- `STATE_ACCEPTING_READY`
    exact .accepted hs
  · refine .aborts ?_
    rw [TripsAssert]
    cases hstate : c.state <;> first | exact absurd hstate ‹_› | exact Or.inl rfl | exact Or.inr (by simp)

/-- **One pass of `do_process`** reads frames in an open session, does nothing in `STATE_STANDBY` and
`STATE_CLOSED`, fails in `STATE_WAIT`, and is a move of the handshake in the other states; a failing
move drops the authorizer. -/
theorem pass_cases (K : Codec) (flags : CrcFlags) (enc : Frame → List β) (c : Conn β)
    (inp : Input β) :
    (c.state.isOpen = true ∧ c.pass K flags enc inp = c.processOpen K flags inp) ∨
    (c.pass K flags enc inp = { conn := c, gseq := inp.gseq }) ∨
    (c.state = .wait ∧ c.pass K flags enc inp =
      ({ c with state := .connectingSendConnectMsg } : Conn β).failed inp.gseq) ∨
    ∃ o, Move enc c inp o ∧ c.state.isOpen = false ∧ c.state ≠ .wait ∧
      (c.pass K flags enc inp = o ∨ (o.flow = .fail ∧ c.pass K flags enc inp =
        { o with conn := { o.conn with authorizer := none, gotBadAuth := false } })) := by
  by_cases hopen : c.state.isOpen = true
  · exact Or.inl ⟨hopen, pass_of_isOpen hopen⟩
  · apply Or.inr
    simp only [pass, processState, if_neg hopen]
    split <;> rename_i hs
    · exact Or.inl (by simp)
    · exact Or.inl (by simp)
    · refine Or.inr (Or.inl ⟨hs, ?_⟩)
      simp [failed, hs, State.code, State.ctorIdx]
    · refine Or.inr (Or.inr ⟨_, move_processConnection c inp, by simpa using hopen, ‹_›, ?_⟩)
      split_ifs with hfail
      · exact Or.inr ⟨hfail.1, rfl⟩
      · exact Or.inl rfl

/-- What every pass of `do_process` that neither fails nor aborts comes to: a pass of an open session,
nothing at all, or a move of the handshake. -/
theorem pass_of_moves {K : Codec} {flags : CrcFlags} {enc : Frame → List β} {c : Conn β} {inp : Input β}
    {Q : Outcome β → Prop} (hopen : c.state.isOpen = true → Q (c.processOpen K flags inp))
    (hstay : Q { conn := c, gseq := inp.gseq })
    (hmove : ∀ o, Move enc c inp o → c.state.isOpen = false → o.flow ≠ .fail → o.flow ≠ .abort → Q o)
    (hfail : (c.pass K flags enc inp).flow ≠ .fail) (habort : (c.pass K flags enc inp).flow ≠ .abort) :
    Q (c.pass K flags enc inp) := by
  rcases pass_cases K flags enc c inp with ⟨hs, heq⟩ | heq | ⟨-, heq⟩ | ⟨o, hmoves, hs, -, heq | ⟨hflow, heq⟩⟩
  · rw [heq]
    exact hopen hs
  · rw [heq]
    exact hstay
  · rw [heq] at hfail
    exact absurd rfl hfail
  · rw [heq] at hfail habort ⊢
    exact hmove o hmoves hs hfail habort
  · rw [heq] at hfail
    exact absurd hflow hfail

end Conn

end AsyncMessenger
