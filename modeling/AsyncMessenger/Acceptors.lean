import AsyncMessenger.Attempts

/-!
# The accepting side of a race

An accepted connection that nobody knows yet, and the registered connection that has the accepting
end of a socket: because it has accepted the session, or because it has taken the socket over in
`do_replace` and waits for the connect message to come again.

## The accepting end

While it waits for the connect message again, the registered connection finds itself in the
registry, which counts as finding nobody, and since `replacing` is set it does not ask for a reset:
every fit message is answered with SEQ or READY. After that it is in one of the states that lead to
the open session (`Callee`).

## The accepted connection

The accepted connection gets rid of its socket in one of two ways. If no connection is registered,
it accepts the session; if the registered one yields, it hands the socket over. It does not take the
connect message for that of a peer that was reset, since the registered connection has the
`connect_seq` 0 as well, or has heard from a later attempt. In all other cases its answer is one
that leaves the attempt at the other end an attempt (`mild_of_denies`).
-/

namespace AsyncMessenger

namespace Conn

variable {K : Codec} {flags : CrcFlags}

/-! ## The accepting end of a session

Its passes are gone through as those of the other parts are. The one that decides is where it has
read the connect message; what it prepares there is kept while the lock is released. -/

/-- The states of the accepting end from the connect message to the open session. -/
def calleeStates : List State :=
  [.acceptingWaitConnectMsg, .acceptingWaitConnectMsgAuth, .acceptingWaitSeq, .acceptingReady]

/-- The states that follow the reply of an accepted session. -/
def repliedStates : List State := [.acceptingWaitSeq, .acceptingReady]

/-- The accepting end of a session that is being made, or has been made. -/
structure Callee (c : Conn Chunk) : Prop where
  place : c.state ∈ calleeStates ∨ c.state.isOpen = true ∨
    c.state = .waitSend ∧ c.stateAfterSend ∈ repliedStates
  claimed : c.replacing ≠ 1
  judging : c.state = .acceptingWaitConnectMsg ∨ c.state = .acceptingWaitConnectMsgAuth →
    c.opening = none → c.replacing ≠ 0
  opening : ∀ frames next, c.opening = some (frames, next) →
    c.state = .acceptingWaitConnectMsgAuth ∧ next ∈ repliedStates ∧
      Carries (fun _ ↦ True) Settling (frames.flatMap Frame.chunks)
  asked : c.state = .acceptingWaitConnectMsgAuth → c.connectMsg.connectSeq ≤ 1
  output : Carries (fun _ ↦ True) Settling c.outcomingBl

/-- What a pass of the accepting end leaves behind. -/
structure Callee.Kept (c : Conn Chunk) (o : Outcome Chunk) : Prop where
  callee : o.conn.Callee
  sd : o.conn.sd = c.sd
  wrote : Carries (fun _ ↦ True) Settling o.wrote

/-- The session that `handle_connect_msg` accepts. -/
theorem callee_openSession {c : Conn Chunk} {m : MsgConnect} {auth : Bytes} {protoVersion gseq : ℕ}
    (hs : c.state = .acceptingWaitConnectMsgAuth) (hrepl : c.replacing ≠ 1)
    (hasked : c.connectMsg.connectSeq ≤ 1) (hm : m.connectSeq ≤ 1)
    (hout : Carries (fun _ ↦ True) Settling c.outcomingBl) :
    Callee.Kept c (c.openSession m auth protoVersion gseq) := by
  obtain ⟨r, next, rest, hopening, hnext, hrest, haccepted, htag⟩ :=
    Dialogue.opening_openSession c m auth protoVersion gseq
  have hr : Settling r := by
    have hne : r.connectSeq ≠ 0 := by
      rw [haccepted.next, inc32_eq (by omega)]
      exact Nat.succ_ne_zero _
    refine ⟨?_, fun h ↦ ?_, fun _ ↦ hne⟩
    · rcases htag with h | h <;> rw [h] <;> decide
    · rcases htag with h' | h' <;> rw [h'] at h <;> exact absurd h (by decide)
  have hframes : Carries (fun _ ↦ True) Settling ((Frame.reply r auth :: rest).flatMap Frame.chunks) := by
    rw [List.flatMap_cons]
    have hnil : asks (rest.flatMap Frame.chunks) = [] ∧ replies (rest.flatMap Frame.chunks) = [] := by
      rcases hrest with rfl | ⟨n, rfl⟩ <;> exact ⟨rfl, rfl⟩
    exact Carries.append_iff.mpr ⟨.reply auth hr, .of_nil hnil⟩
  have hsame : (c.openSession m auth protoVersion gseq).conn.state = c.state ∧
      (c.openSession m auth protoVersion gseq).conn.replacing = c.replacing ∧
      (c.openSession m auth protoVersion gseq).conn.connectMsg = c.connectMsg ∧
      (c.openSession m auth protoVersion gseq).conn.outcomingBl = c.outcomingBl ∧
      (c.openSession m auth protoVersion gseq).conn.sd = c.sd ∧
      (c.openSession m auth protoVersion gseq).wrote = [] := by
    rw [openSession]
    dsimp only
    split_ifs <;> exact ⟨rfl, rfl, rfl, rfl, rfl, rfl⟩
  obtain ⟨hstate, hreplacing, hmsg, hbl, hsd, hwrote⟩ := hsame
  refine ⟨⟨?_, ?_, fun _ hnone ↦ ?_, fun frames next' heq ↦ ?_, fun _ ↦ ?_, ?_⟩, hsd, ?_⟩
  · rw [hstate, hs]
    exact Or.inl (by decide)
  · rwa [hreplacing]
  · rw [hopening] at hnone
    exact absurd hnone (by simp)
  · rw [hopening, Option.some_inj, Prod.mk.injEq] at heq
    obtain ⟨rfl, rfl⟩ := heq
    refine ⟨hstate.trans hs, ?_, hframes⟩
    rcases hnext with rfl | rfl <;> decide
  · rwa [hmsg]
  · rwa [hbl]
  · rw [hwrote]
    exact .nil

/-- The refusals that do not depend on the registered connection. -/
theorem mem_mild_of_unfit {tag : ℕ}
    (h : tag ∈ [Tag.badProtoVer, Tag.features, Tag.badAuthorizer]) :
    tag ∈ [Tag.badProtoVer, Tag.features, Tag.badAuthorizer, Tag.retryGlobal] := by
  simp only [List.mem_cons, List.not_mem_nil, or_false] at h ⊢
  rcases h with h | h | h
  · exact Or.inl h
  · exact Or.inr (Or.inl h)
  · exact Or.inr (Or.inr (Or.inl h))

namespace Callee

variable {c : Conn Chunk}

theorem not_state (h : c.Callee) {s : State} (hs : c.state = s)
    (hno : s ≠ .waitSend ∧ s ∉ calleeStates ∧ s.isOpen = false) : False := by
  have hplace := h.place
  rw [hs] at hplace
  rcases hplace with hmem | hopen | ⟨hsend, -⟩
  · exact hno.2.1 hmem
  · rw [hno.2.2] at hopen
    exact absurd hopen (by decide)
  · exact hno.1 hsend

theorem opening_eq_none (h : c.Callee) {s : State} (hs : c.state = s)
    (hne : s ≠ .acceptingWaitConnectMsgAuth) : c.opening = none := by
  cases hopening : c.opening with
  | none => rfl
  | some p => exact absurd (hs.symm.trans (h.opening p.1 p.2 hopening).1) hne

/-- The accepting end once its reply is on the way. -/
theorem of_replied {c' : Conn Chunk} (hplace : c'.state ∈ repliedStates ∨ c'.state.isOpen = true ∨
      c'.state = .waitSend ∧ c'.stateAfterSend ∈ repliedStates)
    (hrepl : c'.replacing ≠ 1) (hopening : c'.opening = none)
    (hout : Carries (fun _ ↦ True) Settling c'.outcomingBl) : c'.Callee := by
  have hlater : c'.state ≠ .acceptingWaitConnectMsg ∧ c'.state ≠ .acceptingWaitConnectMsgAuth := by
    rcases hplace with hmem | hopen | ⟨hsend, -⟩
    · revert hmem
      generalize c'.state = s
      cases s <;> decide
    · revert hopen
      generalize c'.state = s
      cases s <;> decide
    · rw [hsend]
      decide
  refine ⟨?_, hrepl, fun hs ↦ ?_, fun frames next heq ↦ ?_, fun hs ↦ absurd hs hlater.2, hout⟩
  · refine hplace.imp_left fun hmem ↦ ?_
    revert hmem
    generalize c'.state = s
    cases s <;> decide
  · exact (hs.elim hlater.1 hlater.2).elim
  · rw [hopening] at heq
    exact absurd heq (by simp)

/-- The accepting end goes on waiting for a connect message. -/
theorem waits_again {c' : Conn Chunk} (hs : c'.state = .acceptingWaitConnectMsg)
    (hrepl : c'.replacing ≠ 1 ∧ c'.replacing ≠ 0) (hopening : c'.opening = none)
    (hout : Carries (fun _ ↦ True) Settling c'.outcomingBl) : c'.Callee := by
  refine ⟨Or.inl ?_, hrepl.1, fun _ _ ↦ hrepl.2, fun frames next heq ↦ ?_, fun hauth ↦ ?_, hout⟩
  · rw [hs]
    decide
  · rw [hopening] at heq
    exact absurd heq (by simp)
  · exact absurd (hs.symm.trans hauth) (by decide)

/-- **One move of the accepting end**: while it waits for a connect message it is being replaced, so
it answers every fit one with SEQ or READY. -/
theorem kept_of_move {inp : Input Chunk} {o : Outcome Chunk} (h : c.Callee)
    (hmove : Move Frame.chunks c inp o) (hexisting : inp.existing = none)
    (hread : inp.read.Gives (fun m ↦ m.connectSeq ≤ 1) (fun _ ↦ True)) (hfail : o.flow ≠ .fail)
    (habort : o.flow ≠ .abort) : Kept c o := by
  cases hmove with
  | waits evRead =>
    exact ⟨⟨h.place, h.claimed, h.judging, h.opening, h.asked, h.output⟩, rfl, .nil⟩
  | flushes hs hout hafter =>
    have hmem : c.stateAfterSend ∈ repliedStates := by
      rcases h.place with hmem | hopen | ⟨-, hmem⟩
      · rw [hs] at hmem
        exact absurd hmem (by decide)
      · rw [hs] at hopen
        exact absurd hopen (by decide)
      · exact hmem
    exact ⟨of_replied (Or.inl hmem) h.claimed (h.opening_eq_none hs (by decide)) h.output, rfl, .nil⟩
  | aborts htrips => exact absurd rfl habort
  | fails => exact absurd rfl hfail
  | dials fd hs => exact (h.not_state hs (by decide)).elim
  | failsDial hs => exact (h.not_state hs (by decide)).elim
  | sends d frames next k evWrite s a hprep hnext =>
    cases hprep with
    | banner hs => exact (h.not_state hs (by decide)).elim
    | addr hs => exact (h.not_state hs (by decide)).elim
    | connect auth m hs => exact (h.not_state hs (by decide)).elim
    | seq n hs => exact (h.not_state hs (by decide)).elim
    | greeting hs => exact (h.not_state hs (by decide)).elim
    | reply frames next hs hopening =>
      obtain ⟨-, hmem, hframes⟩ := h.opening frames next hopening
      obtain ⟨hwrote, hout⟩ := (Carries.append_iff.mpr ⟨h.output, hframes⟩).split k
      refine ⟨of_replied ?_ Nat.zero_ne_one rfl hout, rfl, hwrote⟩
      cases hnext with
      | now => exact Or.inl hmem
      | later => exact Or.inr (Or.inr ⟨rfl, hmem⟩)
  | failsSend => exact absurd rfl hfail
  | hears r hs => exact (h.not_state hs (by decide)).elim
  | heeds d s g hs => exact (h.not_state hs (by decide)).elim
  | connected hs => exact (h.not_state hs (by decide)).elim
  | identified hs => exact (h.not_state hs (by decide)).elim
  | asked m hs hm =>
    have hopening := h.opening_eq_none hs (by decide)
    have hmem : State.acceptingWaitConnectMsgAuth ∈ calleeStates := by decide
    refine ⟨⟨Or.inl hmem, h.claimed, fun _ _ ↦ h.judging (Or.inl hs) hopening,
      fun frames next heq ↦ ?_, fun _ ↦ hread.connect hm, h.output⟩, rfl, .nil⟩
    exact absurd (hopening.symm.trans heq) (by simp)
  | refuses p tag reply auth effect r k evWrite hs hopening hp hdeny htag =>
    -- there is no other connection to compare with, so only an unfit peer is refused
    have hrepl := h.judging (Or.inr hs) hopening
    have hmem : tag ∈ [Tag.badProtoVer, Tag.features, Tag.badAuthorizer, Tag.retryGlobal] := by
      cases hdeny with
      | unfit tag hmem => exact mem_mild_of_unfit hmem
      | verdict tag reply hv =>
        rw [hexisting] at hv
        cases hv with
        | stranger hzero => exact absurd hzero hrepl
      | wait hv =>
        rw [hexisting] at hv
        cases hv
      | busy hv =>
        rw [hexisting] at hv
        cases hv
    have hr : Settling r := (mild_of_mem (w := False) (htag ▸ hmem)).settling id
    obtain ⟨hwrote, hout⟩ :=
      (Carries.append_iff.mpr ⟨h.output, .reply auth hr⟩).split k
    exact ⟨waits_again rfl ⟨h.claimed, hrepl⟩ hopening hout, rfl, hwrote⟩
  | failsReply => exact absurd rfl hfail
  | handsOver p e reset fromPeer hs hopening hp he =>
    rw [hexisting] at he
    exact absurd he (by simp)
  | opens p hs hopening hp hv =>
    have hkept : Kept ({ c with policy := p } : Conn Chunk) (({ c with policy := p } :
        Conn Chunk).openSession c.connectMsg inp.authorizerReply inp.protoVersion inp.gseq) :=
      callee_openSession hs h.claimed (h.asked hs) (h.asked hs) h.output
    exact ⟨hkept.callee, hkept.sd, hkept.wrote⟩
  | notifies =>
    exact ⟨⟨h.place, h.claimed, h.judging, h.opening, h.asked, h.output⟩, rfl, .nil⟩
  | gotSeq n hs =>
    have hmem : State.acceptingReady ∈ repliedStates := by decide
    exact ⟨of_replied (Or.inl hmem) h.claimed (h.opening_eq_none hs (by decide)) h.output, rfl, .nil⟩
  | accepted hs =>
    exact ⟨of_replied (Or.inr (Or.inl rfl)) h.claimed (h.opening_eq_none hs (by decide)) h.output, rfl,
      .nil⟩

/-- **One pass of the accepting end.** -/
theorem kept_of_pass {inp : Input Chunk} (h : c.Callee) (hexisting : inp.existing = none)
    (hread : inp.read.Gives (fun m ↦ m.connectSeq ≤ 1) (fun _ ↦ True))
    (hfail : (c.pass K flags Frame.chunks inp).flow ≠ .fail)
    (habort : (c.pass K flags Frame.chunks inp).flow ≠ .abort) :
    Kept c (c.pass K flags Frame.chunks inp) := by
  refine pass_of_moves (Q := Kept c) (fun hopen ↦ ?_) ⟨h, rfl, .nil⟩
    (fun o hmove _ ↦ h.kept_of_move hmove hexisting hread) hfail habort
  obtain ⟨hreads, hopen'⟩ : c.Reads (c.processOpen K flags inp).conn := reads_processOpen hopen
  have hwrote : (c.processOpen K flags inp).wrote = [] := (harmless_processOpen c inp).2.1
  have hnone : c.opening = none := h.opening_eq_none rfl fun hs ↦ by
    rw [hs] at hopen
    exact absurd hopen (by decide)
  generalize c.processOpen K flags inp = o at hreads hopen' hwrote
  have hsame {α : Type} (f : Conn Chunk → α) (hf : ∀ c, f (outsideReading c) = f c) :
      f o.conn = f c := by
    rw [← hf o.conn, hreads, hf c]
  refine ⟨of_replied (Or.inr (Or.inl hopen')) ?_ ((hsame Conn.opening fun _ ↦ rfl).trans hnone) ?_,
    hsame sd fun _ ↦ rfl, ?_⟩
  · rw [hsame replacing fun _ ↦ rfl]
    exact h.claimed
  · rw [hsame outcomingBl fun _ ↦ rfl]
    exact h.output
  · rw [hwrote]
    exact .nil

theorem of_view {c' : Conn Chunk} (h : c.Callee) (hview : c'.outsideWriting = c.outsideWriting)
    (hout : Carries (fun _ ↦ True) Settling c'.outcomingBl) : c'.Callee := by
  have hstate : c'.state = c.state := eq_of_outsideWriting state (fun _ ↦ rfl) hview
  have hafter : c'.stateAfterSend = c.stateAfterSend :=
    eq_of_outsideWriting stateAfterSend (fun _ ↦ rfl) hview
  have hrepl : c'.replacing = c.replacing := eq_of_outsideWriting replacing (fun _ ↦ rfl) hview
  have hopening : c'.opening = c.opening := eq_of_outsideWriting Conn.opening (fun _ ↦ rfl) hview
  have hmsg : c'.connectMsg = c.connectMsg := eq_of_outsideWriting connectMsg (fun _ ↦ rfl) hview
  constructor
  · rw [hstate, hafter]
    exact h.place
  · rw [hrepl]
    exact h.claimed
  · rw [hstate, hopening, hrepl]
    exact h.judging
  · rw [hopening, hstate]
    exact h.opening
  · rw [hstate, hmsg]
    exact h.asked
  · exact hout

theorem part : Part Callee (fun _ ↦ True) Settling := ⟨fun h ↦ h.output, of_view⟩

end Callee

/-- **`do_replace` of an attempt**: it waits for the connect message on its new socket. -/
theorem Attempt.callee_of_doReplace {c : Conn Chunk} {w : Prop} {r : ReplaceInput} (h : c.Attempt w)
    (hzero : c.replacingConnect.connectSeq = 0) (hleft : (c.doReplace Frame.chunks r).left ≠ none) :
    (c.doReplace Frame.chunks r).conn.Callee ∧
      (c.doReplace Frame.chunks r).conn.sd = c.replacingSd ∧
      Carries (fun _ ↦ True) Settling (c.doReplace Frame.chunks r).wrote := by
  obtain ⟨reply, htag, hseq, hcases⟩ := c.doReplace_cases Frame.chunks r
  have hreply : Settling reply := by
    refine ⟨?_, fun _ ↦ ?_, fun haccept ↦ ?_⟩
    · rw [htag]
      decide
    · rw [hseq, hzero]
      decide
    · rw [htag] at haccept
      exact absurd haccept (by decide)
  have hfields : (c.takeOver r.random).replacing = 2 ∧ (c.takeOver r.random).opening = c.opening ∧
      (c.takeOver r.random).sd = c.replacingSd := by
    rw [takeOver]
    split_ifs <;> exact ⟨rfl, rfl, rfl⟩
  obtain ⟨hrepl, hopening, hsd⟩ := hfields
  rcases hcases with ⟨out, heq⟩ | ⟨k, b, heq⟩
  · rw [heq] at hleft
    exact absurd rfl hleft
  · have hframes : Carries (fun _ ↦ True) Settling
        (Frame.reply reply c.replacingAuthorizerReply).chunks := .reply _ hreply
    obtain ⟨hwrote, hout⟩ := hframes.split k
    rw [heq]
    refine ⟨Callee.waits_again rfl ?_ (hopening.trans h.running.2) hout, hsd, hwrote⟩
    constructor
    · exact hrepl.trans_ne (by decide)
    · exact hrepl.trans_ne (by decide)

/-! ## An accepted connection

`Meets` lists the three ways in which a registered connection of this messenger can meet the attempt
of the peer, with what each of them means for the answer. -/

/-- The states of an accepted connection that nobody has registered. -/
def vettingStates : List State :=
  [.accepting, .acceptingWaitBannerAddr, .acceptingWaitConnectMsg, .acceptingWaitConnectMsgAuth]

/-- An accepted connection that nobody has registered. It may answer WAIT only if `w`. -/
structure Vetting (c : Conn Chunk) (w : Prop) : Prop where
  place : c.state ∈ vettingStates ∨
    c.state = .waitSend ∧ c.stateAfterSend = .acceptingWaitBannerAddr
  unclaimed : c.replacing = 0 ∧ c.opening = none
  asked : c.state = .acceptingWaitConnectMsgAuth → c.connectMsg.connectSeq = 0
  output : Carries (fun _ ↦ True) (Mild w) c.outcomingBl
  empty : c.q.pending = []

/-- An attempt that is to be replaced. -/
theorem Attempt.markReplacing {e : Conn Chunk} {w : Prop} (h : e.Attempt w) (fd : Option Fd)
    (m : MsgConnect) (auth : Bytes) (reset fromPeer : Bool) :
    (e.markReplacing fd m auth reset fromPeer).Attempt w :=
  ⟨h.lossless, h.running, h.connectSeq, Nat.le_refl 1, h.place, h.idle, h.heard, h.output⟩

/-- How the registered connection meets an attempt of the peer: it knows a later one, it gives way,
or it insists, which is answered with WAIT. -/
inductive Meets (e : Conn Chunk) (m : MsgConnect) (peerLess resetcheck : Bool) (w : Prop) : Prop
  | outdates (hglobal : m.globalSeq < e.peerGlobalSeq)
  | yields (hseq : e.connectSeq = 0) (hlossy : e.policy.lossy = false) (hless : peerLess = true)
      (hbusy : e.busy = false) (hopened : e.state ≠ .opened)
      (hstandby : e.state = .standby → resetcheck = true)
  | insists (hseq : e.connectSeq = 0) (hlossy : e.policy.lossy = false) (hless : peerLess = false)
      (hserver : e.policy.server = false) (hopened : e.state ≠ .opened)
      (hstandby : e.state ≠ .standby) (hw : w)

/-- What a pass of the accepted connection leaves behind. -/
inductive Vetted (c : Conn Chunk) (w : Prop) (inp : Input Chunk) (o : Outcome Chunk) : Prop
  | stays (hconn : o.conn.Vetting w) (hsd : o.conn.sd = c.sd)
      (hwrote : Carries (fun _ ↦ True) (Mild w) o.wrote)
      (heffect : o.effect = .none ∨ o.effect = .keepalive)
  | opens (hexisting : inp.existing = none) (hconn : o.conn.Callee) (hsd : o.conn.sd = c.sd)
      (hwrote : o.wrote = []) (heffect : o.effect = .register)
  | hands (e : Conn Chunk) (hs : c.state = .acceptingWaitConnectMsgAuth)
      (hexisting : inp.existing = some e) (hglobal : e.peerGlobalSeq ≤ c.connectMsg.globalSeq)
      (hless : inp.peerLess = true) (hasked : c.connectMsg.connectSeq = 0) (hwrote : o.wrote = [])
      (heffect : o.effect =
        .replace (e.markReplacing c.sd c.connectMsg inp.authorizerReply false false))

namespace Vetting

variable {c : Conn Chunk} {w : Prop}

theorem imp {w' : Prop} (h : c.Vetting w) (hw : w → w') : c.Vetting w' :=
  ⟨h.place, h.unclaimed, h.asked, h.output.imp (fun _ hm ↦ hm) fun _ hr ↦ hr.imp hw, h.empty⟩

theorem not_state (h : c.Vetting w) {s : State} (hs : c.state = s)
    (hno : s ≠ .waitSend ∧ s ∉ vettingStates) : False := by
  have hplace := h.place
  rw [hs] at hplace
  rcases hplace with hmem | ⟨hsend, -⟩
  · exact hno.2 hmem
  · exact hno.1 hsend

/-- A registered connection with the `connect_seq` 0 gives way, if at all, with both flags down. -/
theorem flags_of_claims {e : Conn Chunk} {m : MsgConnect} {peerLess reset fromPeer : Bool}
    (hzero : m.connectSeq = 0) (hseq : e.connectSeq = 0) (hlossy : e.policy.lossy = false)
    (h : Claims c e m peerLess reset fromPeer) :
    reset = false ∧ fromPeer = false ∧
      (e.state = .opened ∨ e.state = .standby ∨ peerLess = true ∨ e.policy.server = true) := by
  cases h with
  | lossy h => exact absurd (hlossy.symm.trans h) (by decide)
  | reset _ _ hpos => exact absurd hseq (Nat.ne_of_gt hpos)
  | idle _ _ hs => exact ⟨rfl, rfl, hs.elim Or.inl fun hs ↦ Or.inr (Or.inl hs)⟩
  | wins _ _ _ hless => exact ⟨rfl, rfl, Or.inr (Or.inr hless)⟩
  | ahead _ hlt => exact absurd hzero (Nat.ne_of_gt (Nat.zero_le _ |>.trans_lt hlt))

/-- **The registered connection meets the attempt of a peer**: none of the refusals would change the
attempt. -/
theorem mild_of_denies {inp : Input Chunk} {p : Policy} {tag : ℕ} {reply r : MsgConnectReply}
    {effect : Effect Chunk} (hzero : c.connectMsg.connectSeq = 0)
    (hp : SamePolicy p inp.newPolicy)
    (hmeets : ∀ e, inp.existing = some e →
      e.Meets c.connectMsg inp.peerLess inp.newPolicy.resetcheck w)
    (hdeny : Denies c inp p tag reply effect) (htag : r.tag = tag) : Mild w r := by
  have hcheck : p.resetcheck = inp.newPolicy.resetcheck := by
    have hsame := congrArg Policy.resetcheck (show { p with featuresRequired := 0 } =
      { inp.newPolicy with featuresRequired := 0 } from hp)
    exact hsame
  -- only a waiting connection is answered WAIT
  have hwait (hw : w) (h : tag = Tag.wait) : Mild w r := by
    refine ⟨?_, fun _ ↦ hw⟩
    rw [htag, h]
    decide
  cases hdeny with
  | unfit tag hmem => exact mild_of_mem (htag ▸ mem_mild_of_unfit hmem)
  | verdict tag reply hv =>
    generalize hexisting : inp.existing = existing at hv
    cases hv with
    | stranger _ hpos => exact absurd hzero (Nat.ne_of_gt hpos)
    | old e =>
      apply mild_of_mem
      rw [htag]
      decide
    | behind e _ _ hpos => exact absurd hzero (Nat.ne_of_gt hpos)
    | level e hglobal _ _ hs hno =>
      cases hmeets e hexisting with
      | outdates hlt => exact absurd hlt (Nat.not_lt.mpr hglobal)
      | yields hseq _ _ _ hopened hstandby =>
        exact absurd ⟨hcheck.trans (hstandby (hs.resolve_left hopened)), hseq⟩ hno
      | insists _ _ _ _ hopened hstandby => exact (hs.elim hopened hstandby).elim
    | unknown e _ _ hlt => exact absurd hzero (Nat.ne_of_gt (Nat.zero_le _ |>.trans_lt hlt))
  | wait hv =>
    generalize hexisting : inp.existing = existing at hv
    cases hv with
    | race e hglobal _ _ _ hless =>
      cases hmeets e hexisting with
      | outdates hlt => exact absurd hlt (Nat.not_lt.mpr hglobal)
      | yields _ _ hless' => exact absurd (Or.inl hless') hless
      | insists _ _ _ _ _ _ hw => exact hwait hw rfl
  | busy hv =>
    generalize hexisting : inp.existing = existing at hv
    cases hv with
    | busy e reset fromPeer hglobal hclaim hbusy =>
      cases hmeets e hexisting with
      | outdates hlt => exact absurd hlt (Nat.not_lt.mpr hglobal)
      | yields _ _ _ hfree => exact absurd (hfree.symm.trans hbusy) (by decide)
      | insists hseq hlossy hless hserver hopened hstandby =>
        obtain ⟨-, -, hwhy⟩ := flags_of_claims hzero hseq hlossy hclaim
        rw [hless, hserver] at hwhy
        simp [hopened, hstandby] at hwhy

/-- If the registered connection is replaced, it has given way, with both flags down. -/
theorem flags_of_replace {d e : Conn Chunk} {m : MsgConnect}
    {peerLess resetcheck reset fromPeer : Bool} (hmeets : e.Meets m peerLess resetcheck w)
    (hzero : m.connectSeq = 0) (hv : Judges d m peerLess (some e) (.replace reset fromPeer)) :
    e.peerGlobalSeq ≤ m.globalSeq ∧ peerLess = true ∧ reset = false ∧ fromPeer = false := by
  cases hv with
  | replace _ _ _ hglobal hclaim =>
    cases hmeets with
    | outdates hlt => exact absurd hlt (Nat.not_lt.mpr hglobal)
    | yields hseq hlossy hless =>
      obtain ⟨hreset, hpeer, -⟩ := flags_of_claims hzero hseq hlossy hclaim
      exact ⟨hglobal, hless, hreset, hpeer⟩
    | insists hseq hlossy hless hserver hopened hstandby =>
      -- then none of the reasons to replace it is there
      obtain ⟨-, -, hwhy⟩ := flags_of_claims hzero hseq hlossy hclaim
      rw [hless, hserver] at hwhy
      simp [hopened, hstandby] at hwhy

/-- The session of an accepted connection, when nobody else is registered. -/
theorem opens (h : c.Vetting w) (p : Policy) (inp : Input Chunk)
    (hs : c.state = .acceptingWaitConnectMsgAuth) (hfirst : ¬w) :
    Callee.Kept ({ c with policy := p } : Conn Chunk) (({ c with policy := p } :
      Conn Chunk).openSession c.connectMsg inp.authorizerReply inp.protoVersion inp.gseq) := by
  have hasked : c.connectMsg.connectSeq ≤ 1 := (h.asked hs).trans_le (Nat.zero_le 1)
  have hout : Carries (fun _ ↦ True) Settling c.outcomingBl :=
    h.output.imp (fun _ hm ↦ hm) fun _ hr ↦ hr.settling hfirst
  have hrepl : c.replacing ≠ 1 := by
    rw [h.unclaimed.1]
    exact Nat.zero_ne_one
  exact callee_openSession hs hrepl hasked hasked hout

/-- **One move of an accepted connection.** -/
theorem vetted_of_move {inp : Input Chunk} {o : Outcome Chunk} (h : c.Vetting w)
    (hmove : Move Frame.chunks c inp o)
    (hmeets : c.state = .acceptingWaitConnectMsgAuth → ∀ e, inp.existing = some e →
      e.Meets c.connectMsg inp.peerLess inp.newPolicy.resetcheck w)
    (hfirst : inp.existing = none → ¬ w)
    (hread : inp.read.Gives (fun m ↦ m.connectSeq = 0) (fun _ ↦ True)) (hfail : o.flow ≠ .fail)
    (habort : o.flow ≠ .abort) : Vetted c w inp o := by
  cases hmove with
  | waits evRead =>
    exact .stays ⟨h.place, h.unclaimed, h.asked, h.output, h.empty⟩ rfl .nil (Or.inl rfl)
  | flushes hs hout hafter =>
    have hbanner : c.stateAfterSend = .acceptingWaitBannerAddr := by
      rcases h.place with hmem | ⟨-, hafter⟩
      · rw [hs] at hmem
        exact absurd hmem (by decide)
      · exact hafter
    have hmem : c.stateAfterSend ∈ vettingStates := by
      rw [hbanner]
      decide
    refine .stays ⟨Or.inl hmem, h.unclaimed, fun hauth ↦ ?_, h.output, h.empty⟩ rfl .nil (Or.inl rfl)
    exact absurd (hbanner.symm.trans hauth) (by decide)
  | aborts htrips => exact absurd rfl habort
  | fails => exact absurd rfl hfail
  | dials fd hs => exact (h.not_state hs (by decide)).elim
  | failsDial hs => exact (h.not_state hs (by decide)).elim
  | sends d frames next k evWrite s a hprep hnext =>
    cases hprep with
    | banner hs => exact (h.not_state hs (by decide)).elim
    | addr hs => exact (h.not_state hs (by decide)).elim
    | connect auth m hs => exact (h.not_state hs (by decide)).elim
    | seq n hs => exact (h.not_state hs (by decide)).elim
    | greeting hs =>
      have hframes : Carries (fun _ ↦ True) (Mild w)
          ([Frame.banner, Frame.addrs].flatMap Frame.chunks) := .of_nil ⟨rfl, rfl⟩
      obtain ⟨hwrote, hout⟩ := (Carries.append_iff.mpr ⟨h.output, hframes⟩).split k
      have hplace : s ∈ vettingStates ∨ s = .waitSend ∧ a = .acceptingWaitBannerAddr := by
        cases hnext with
        | now => exact Or.inl (by decide)
        | later => exact Or.inr ⟨rfl, rfl⟩
      have hauth : s ≠ .acceptingWaitConnectMsgAuth := by
        cases hnext <;> decide
      exact .stays ⟨hplace, h.unclaimed, fun hs ↦ absurd hs hauth, hout, h.empty⟩ rfl hwrote
        (Or.inl rfl)
    | reply frames next hs hopening => exact absurd (h.unclaimed.2.symm.trans hopening) (by simp)
  | failsSend => exact absurd rfl hfail
  | hears r hs => exact (h.not_state hs (by decide)).elim
  | heeds d s g hs => exact (h.not_state hs (by decide)).elim
  | connected hs => exact (h.not_state hs (by decide)).elim
  | identified hs =>
    have hmem : State.acceptingWaitConnectMsg ∈ vettingStates := by decide
    exact .stays ⟨Or.inl hmem, h.unclaimed, fun hauth ↦ absurd hauth (by simp), h.output, h.empty⟩ rfl
      .nil (Or.inl rfl)
  | asked m hs hm =>
    have hmem : State.acceptingWaitConnectMsgAuth ∈ vettingStates := by decide
    exact .stays ⟨Or.inl hmem, h.unclaimed, fun _ ↦ hread.connect hm, h.output, h.empty⟩ rfl .nil
      (Or.inl rfl)
  | refuses p tag reply auth effect r k evWrite hs hopening hp hdeny htag =>
    -- whatever the peer is told, its attempt goes on or waits
    have hmild := mild_of_denies (h.asked hs) hp (hmeets hs) hdeny htag
    obtain ⟨hwrote, hout⟩ :=
      (Carries.append_iff.mpr ⟨h.output, .reply auth hmild⟩).split k
    have hmem : State.acceptingWaitConnectMsg ∈ vettingStates := by decide
    exact .stays ⟨Or.inl hmem, h.unclaimed, fun hauth ↦ absurd hauth (by simp), hout, h.empty⟩ rfl
      hwrote (effect_of_denies hdeny)
  | failsReply => exact absurd rfl hfail
  | handsOver p e reset fromPeer hs hopening hp he hv =>
    -- the registered connection is an attempt as well, so nothing is reset
    obtain ⟨hglobal, hless, rfl, rfl⟩ := flags_of_replace (hmeets hs e he) (h.asked hs) hv
    exact .hands e hs he hglobal hless (h.asked hs) rfl rfl
  | opens p hs hopening hp hv =>
    have hexisting : inp.existing = none := by
      generalize inp.existing = existing at hv
      cases hv
      rfl
    have hkept := h.opens p inp hs (hfirst hexisting)
    exact .opens hexisting hkept.callee hkept.sd rfl rfl
  | notifies hs hsome => exact absurd h.unclaimed.2 hsome
  | gotSeq n hs => exact (h.not_state hs (by decide)).elim
  | accepted hs => exact (h.not_state hs (by decide)).elim

/-- **One pass of an accepted connection.** -/
theorem vetted_of_pass {inp : Input Chunk} (h : c.Vetting w)
    (hmeets : c.state = .acceptingWaitConnectMsgAuth → ∀ e, inp.existing = some e →
      e.Meets c.connectMsg inp.peerLess inp.newPolicy.resetcheck w)
    (hfirst : inp.existing = none → ¬ w)
    (hread : inp.read.Gives (fun m ↦ m.connectSeq = 0) (fun _ ↦ True))
    (hfail : (c.pass K flags Frame.chunks inp).flow ≠ .fail)
    (habort : (c.pass K flags Frame.chunks inp).flow ≠ .abort) :
    Vetted c w inp (c.pass K flags Frame.chunks inp) := by
  refine pass_of_moves (Q := Vetted c w inp) (fun hopen ↦ (h.not_state rfl ?_).elim)
    (.stays h rfl .nil (Or.inl rfl)) (fun o hmove _ ↦ h.vetted_of_move hmove hmeets hfirst hread) hfail
    habort
  revert hopen
  generalize c.state = s
  cases s <;> decide

/-- The connect message is not taken for that of a peer that was reset. -/
theorem assumesReset_eq_false {inp : Input Chunk}
    (hmeets : c.state = .acceptingWaitConnectMsgAuth → ∀ e, inp.existing = some e →
      e.Meets c.connectMsg inp.peerLess inp.newPolicy.resetcheck w) :
    c.assumesReset inp = false := by
  rw [assumesReset]
  cases hlook : c.looksUp inp with
  | false => rfl
  | true =>
    have hs : c.state = .acceptingWaitConnectMsgAuth := by
      simp only [looksUp, Bool.and_eq_true, beq_iff_eq] at hlook
      exact hlook.1.1.1.1.1
    cases hexisting : inp.existing with
    | none => rfl
    | some e =>
      dsimp only [Bool.true_and]
      have hfresh (reset fromPeer : Bool)
          (heq : ({ c with policy := inp.newPolicy } : Conn Chunk).judgeExisting e c.connectMsg
            inp.peerLess = .replace reset fromPeer) : fromPeer = false := by
        rw [judgeExisting] at heq
        cases hmeets hs e hexisting with
        | outdates hlt =>
          rw [if_pos hlt] at heq
          cases heq
        | yields hseq hlossy =>
          rw [hlossy, hseq] at heq
          split_ifs at heq <;> simp_all
        | insists hseq hlossy =>
          rw [hlossy, hseq] at heq
          split_ifs at heq <;> simp_all
      split <;> rename_i heq
      · exact hfresh _ _ heq
      · rfl

/-- `handle_write` of an accepted connection. -/
theorem of_trySend {kernel : Option ℕ} (h : c.Vetting w) (hleft : (c.trySend [] kernel).left ≠ none) :
    (c.trySend [] kernel).conn.Vetting w ∧ (c.trySend [] kernel).conn.sd = c.sd ∧
      Carries (fun _ ↦ True) (Mild w) (c.trySend [] kernel).wrote := by
  rcases c.trySend_cases [] kernel with heq | ⟨k, b, heq⟩
  · rw [heq] at hleft
    exact absurd rfl hleft
  · rw [List.append_nil] at heq
    obtain ⟨hwrote, hout⟩ := h.output.split k
    rw [heq]
    exact ⟨⟨h.place, h.unclaimed, h.asked, hout, h.empty⟩, rfl, hwrote⟩

end Vetting

end Conn

end AsyncMessenger
