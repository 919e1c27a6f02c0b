import AsyncMessenger.ClientFault
import AsyncMessenger.MutualAuth

/-!
# The assertions of a client

What a server sends reaches three assertions of the connecting side. Two compare the `connect_seq`
of a reply with the client's own, in `handle_connect_reply` and in `STATE_CONNECTING_READY`. The
third is the `assert(0)` of `entity_addr_t::set_port`: a messenger that does not know its own
address yet takes it from the first server it talks to, whatever family of address the server claims
it to be.

The addresses are decoded here from the bytes of `STATE_CONNECTING_WAIT_IDENTIFY_PEER`, and the
verdict on them replaces `Input.addrOk`.

## The condition

`Consistent` is asked of each reply at the moment it is heeded. RETRY_SESSION has to ask for a
higher `connect_seq`, and a reply that would go on to the session has to carry the next one. A reply
whose features do not suffice fails before any of its numbers is looked at, and nothing is asked of
it. The invariant then is `Fits`: from the reply on to `STATE_CONNECTING_READY` the two numbers stay
in step.

What is malformed ends in the fail path whatever the server is (`flow_of_malformed`), so the result
says both: no assertion trips, and what should fail does.
-/

namespace AsyncMessenger

/-! ## Addresses

As far as the two functions need them that look at an address from the wire: its family, its port,
and whether the host is blank. -/

/-- `entity_addr_t`. `family` is `ss_family` in host order, `rest` the remaining bytes of the
`sockaddr_storage`. -/
structure EntityAddr where
  type : ℕ := 0
  nonce : ℕ := 0
  family : ℕ := 0
  rest : Bytes := []
  deriving DecidableEq, Repr

/-- `AF_INET`. -/
def afInet : ℕ := 2

/-- `AF_INET6`. -/
def afInet6 : ℕ := 10

namespace EntityAddr

/-- `entity_addr_t::decode`: two little-endian words and the raw `sockaddr_storage`, whose family is in
network order on the wire. -/
def ofBytes (bs : Bytes) : EntityAddr where
  type := LittleEndian.decode (bs.take 4)
  nonce := LittleEndian.decode ((bs.drop 4).take 4)
  family := LittleEndian.decode ((bs.drop 8).take 2).reverse
  rest := (bs.drop 10).take 126

/-- `is_ip`. -/
def isIp (a : EntityAddr) : Bool := a.family == afInet || a.family == afInet6

/-- `get_port`: both kinds of address keep it, in network order, behind the family. -/
def getPort (a : EntityAddr) : ℕ :=
  if a.isIp then LittleEndian.decode (a.rest.take 2).reverse else 0

/-- `set_port`; `none` is its `assert(0)`. -/
def setPort (a : EntityAddr) (port : ℕ) : Option EntityAddr :=
  if a.isIp then
    some { a with rest := (LittleEndian.encode 2 port).reverse ++ a.rest.drop 2 }
  else none

/-- `is_blank_ip`. -/
def isBlankIp (a : EntityAddr) : Bool :=
  if a.family = afInet then ((a.rest.drop 2).take 4).all (· == 0)
  else if a.family = afInet6 then ((a.rest.drop 6).take 16).all (· == 0)
  else true

/-- The comparison of `STATE_CONNECTING_WAIT_IDENTIFY_PEER`: the peer claims the address `paddr`. -/
def claims (peerAddr paddr : EntityAddr) : Bool :=
  peerAddr == paddr || (paddr.isBlankIp && peerAddr.getPort == paddr.getPort &&
    peerAddr.nonce == paddr.nonce)

end EntityAddr

/-- What a messenger knows about its own address. -/
structure MyInst where
  needAddr : Bool := true
  addr : EntityAddr := {}
  deriving DecidableEq, Repr

/-- `AsyncMessenger::learned_addr`; `none` is the failed assertion in `set_port`. -/
def MyInst.learnedAddr (i : MyInst) (forMe : EntityAddr) : Option MyInst :=
  if i.needAddr then
    (forMe.setPort i.addr.getPort).map fun t ↦
      { needAddr := false, addr := { i.addr with family := t.family, rest := t.rest } }
  else some i

theorem MyInst.learnedAddr_eq_none_iff (i : MyInst) (forMe : EntityAddr) :
    i.learnedAddr forMe = none ↔ i.needAddr = true ∧ forMe.isIp = false := by
  rw [learnedAddr]
  split_ifs with hneed
  · rw [Option.map_eq_none_iff, EntityAddr.setPort]
    split_ifs with hip <;> simp [hneed, hip]
  · simp [hneed]

/-! ## The connecting side with its addresses

A pass that completes the two addresses is a pass with a verdict, after the messenger has learned
what it could; every other pass is that of the connection itself. -/

/-- A connection and what its messenger knows about itself. -/
structure Dialer (β : Type) where
  node : Node β
  inst : MyInst := {}

/-- The steps of a dialer. -/
inductive Dialer.Event (β : Type)
  | own (e : Node.Recv β)
  /-- Another connection of the messenger calls `learned_addr`. -/
  | learned (forMe : EntityAddr)

namespace Conn

variable {β : Type} {enc : Frame → List β} {K : Codec} {flags : CrcFlags}

/-- The reply that completes the handshake carries the next `connect_seq`. -/
def Fits (c : Conn β) : Prop :=
  c.phase ≠ .none ∧ (c.phase = .connectingWaitAckSeq ∨ c.phase = .connectingReady →
    c.connectReply.connectSeq = inc32 c.connectSeq)

/-- The fields `Fits` looks at. -/
def fitView (c : Conn β) : State × MsgConnectReply × ℕ := (c.phase, c.connectReply, c.connectSeq)

theorem Fits.congr {c c' : Conn β} (h : c.Fits) (hview : c'.fitView = c.fitView) : c'.Fits := by
  simp only [fitView, Prod.mk.injEq] at hview
  obtain ⟨hphase, hreply, hseq⟩ := hview
  rw [Fits, hphase, hreply, hseq]
  exact h

theorem fits_of_not_late {c : Conn β} (h : c.phase ∉ latePhases) : c.Fits := by
  simp only [latePhases, List.mem_cons, List.not_mem_nil, or_false, not_or] at h
  refine ⟨h.2.2, ?_⟩
  rintro (hphase | hphase)
  · exact absurd hphase h.1
  · exact absurd hphase h.2.1

theorem fits_of_state {c : Conn β} {s : State} (hs : c.state = s) (hne : s ≠ .waitSend)
    (hnot : s ∉ latePhases) : c.Fits := by
  apply fits_of_not_late
  rw [phase_of_state hs hne]
  exact hnot

theorem fits_rule : CoreRule enc (Fits (β := β)) := by
  refine .of_parted (fun c c' hcore h ↦ h.congr ?_) (fun c h ↦ h.congr rfl)
    (fun c _ _ _ _ _ _ h ↦ h.congr rfl) fun c hs ↦ ?_
  · have hview : c'.core.fitView = c.core.fitView := by rw [hcore]
    exact hview
  · simp only [parted, List.mem_cons, List.not_mem_nil, or_false] at hs
    rcases hs with hs | hs | hs | hs <;> exact fits_of_state hs (by decide) (by decide)

/-- A pass keeps the numbers in step if the reply does that completes the handshake. -/
theorem fits_pass {c : Conn β} {inp : Input β} (hlater : c.Later) (h : c.Fits)
    (hreply : c.state = .connectingWaitConnectReplyAuth → completes c.connectReply →
      featMissing c.policy.featuresRequired c.connectReply.features = 0 →
      c.connectReply.connectSeq = inc32 c.connectSeq) :
    (c.pass K flags enc inp).conn.Fits := by
  rcases pass_cases K flags enc c inp with ⟨hopen, heq⟩ | heq | ⟨-, heq⟩ | ⟨o, hmove, -, -, heq⟩
  · have hreads : c.Reads (c.processOpen K flags inp).conn := reads_processOpen hopen
    rw [heq]
    refine fits_of_state rfl ?_ ?_
    · rintro hs
      exact absurd hreads.2 (by rw [hs]; decide)
    · intro hmem
      simp only [latePhases, List.mem_cons, List.not_mem_nil, or_false] at hmem
      rcases hmem with hs | hs | hs <;> exact absurd hreads.2 (by rw [hs]; decide)
  · rw [heq]
    exact h
  · rw [heq]
    exact fits_of_state (s := .connectingSendConnectMsg) rfl (by decide) (by decide)
  · have ho : o.conn.Fits := by
      by_cases hlate : o.conn.phase ∈ latePhases
      · obtain ⟨hview, hfrom⟩ := late_move hlater hmove hlate
        simp only [lateView, Prod.mk.injEq] at hview
        obtain ⟨hreply', -, hseq'⟩ := hview
        rw [Fits, hreply', hseq']
        rcases hfrom with hsame | ⟨hack, hready⟩ | ⟨hs, hcomp, hfeat, hnone⟩
        · rw [hsame]
          exact h
        · exact ⟨by rw [hready]; decide, fun _ ↦ h.2 (Or.inl hack)⟩
        · exact ⟨hnone, fun _ ↦ hreply hs hcomp hfeat⟩
      · exact fits_of_not_late hlate
    rcases heq with heq | ⟨-, heq⟩
    · rw [heq]
      exact ho
    · rw [heq]
      exact ho.congr rfl

/-- Only the asserts of `TripsAssert` end a move. -/
theorem Move.tripsAssert {c : Conn β} {inp : Input β} {o : Outcome β} (h : Move enc c inp o)
    (habort : o.flow = .abort) : c.TripsAssert := by
  cases h with
  | aborts h => exact h
  | dials fd hs hserver hsd => simp [dial, hserver, hsd, goto] at habort
  | failsDial hs hserver hsd => simp [dial, hserver, hsd, failed] at habort
  | connected hs hseq => simp [connectDone, hseq] at habort
  | _ => simp [openSession, failed] at habort

/-- A client's pass aborts in one of two states, on a reply with the wrong `connect_seq`. -/
theorem abort_of_client {c : Conn β} {inp : Input β}
    (habort : (c.pass K flags enc inp).flow = .abort) (hclient : c.phase.isClient = true)
    (hdialled : c.phase ≠ .connecting) (hnone : c.phase ≠ .none) :
    c.state = .connectingWaitConnectReplyAuth ∧ c.connectReply.tag = Tag.retrySession ∧
        c.connectReply.connectSeq ≤ c.connectSeq ∨
      c.state = .connectingReady ∧ c.connectReply.connectSeq ≠ inc32 c.connectSeq := by
  rcases pass_cases K flags enc c inp with ⟨hopen, -⟩ | heq | ⟨-, heq⟩ | ⟨o, hmove, hopen, hwait, heq⟩
  · rw [phase, if_neg (by rintro hs; rw [hs] at hopen; exact absurd hopen (by decide))] at hclient
    rw [not_isOpen_of_isClient hclient] at hopen
    exact absurd hopen (by simp)
  · rw [heq] at habort
    exact absurd habort (by simp)
  · rw [heq] at habort
    exact absurd habort (by simp [failed])
  · have hflow : o.flow = .abort := by
      rcases heq with heq | ⟨-, heq⟩ <;> rw [heq] at habort <;> exact habort
    have htrips := hmove.tripsAssert hflow
    rw [TripsAssert] at htrips
    split at htrips
    · rename_i hs
      rw [phase, if_pos hs] at hnone
      exact absurd htrips.2 hnone
    · rename_i hs
      exact absurd (phase_of_state hs (by decide)) hdialled
    · rename_i hs
      exact Or.inl ⟨hs, htrips⟩
    · rename_i hs
      exact Or.inr ⟨hs, fun h ↦ htrips h.symm⟩
    · rename_i hsend _ _ _
      have hphase : c.phase = c.state := phase_of_state rfl hsend
      rw [hphase] at hclient
      rcases htrips with h | h
      · rw [hopen] at h
        exact absurd h (by simp)
      · simp only [List.mem_cons, List.not_mem_nil, or_false] at h
        rcases h with h | h | h | h
        · rw [h] at hclient
          exact absurd hclient (by decide)
        · rw [h] at hclient
          exact absurd hclient (by decide)
        · rw [h] at hclient
          exact absurd hclient (by decide)
        · exact absurd h hwait

/-- The server's data is malformed: a wrong banner, the wrong address, an authorizer that is too long or
not accepted, a tag that no reply has, or features it lacks. -/
def Malformed (c : Conn β) (inp : Input β) : Prop :=
  match c.state with
  | .connectingWaitBanner => ∃ bs, inp.read = .done (.banner bs) ∧ bs ≠ AsyncMessenger.banner
  | .connectingWaitIdentifyPeer => inp.read = .done .addrs ∧ inp.addrOk = false
  | .connectingWaitConnectReplyAuth =>
    stateBufferSize < c.connectReply.authorizerLen ∨
      (c.connectReply.authorizerLen = 0 ∨ ∃ chunk, inp.read = .done chunk) ∧
        (c.connectReply.authorizerLen ≠ 0 ∧ c.authorizer.isSome = true ∧ inp.verifyReply = false ∨
          c.connectReply.tag ∉ [Tag.badAuthorizer, Tag.resetSession, Tag.retryGlobal,
            Tag.retrySession, Tag.wait, Tag.seq, Tag.ready] ∨
          completes c.connectReply ∧
            featMissing c.policy.featuresRequired c.connectReply.features ≠ 0)
  | _ => False

/-- A reply with an unknown tag, or without the features the client requires, fails. -/
theorem flow_handleConnectReply {c : Conn β} {inp : Input β}
    (h : c.connectReply.tag ∉ [Tag.badAuthorizer, Tag.resetSession, Tag.retryGlobal,
        Tag.retrySession, Tag.wait, Tag.seq, Tag.ready] ∨
      completes c.connectReply ∧ featMissing c.policy.featuresRequired c.connectReply.features ≠ 0) :
    (c.handleConnectReply c.connectReply inp).flow = .fail := by
  rw [handleConnectReply]
  rcases h with hunknown | ⟨htag | htag, hmissing⟩
  · simp only [List.mem_cons, List.not_mem_nil, or_false, not_or] at hunknown
    obtain ⟨h1, h2, h3, h4, h5, h6, h7⟩ := hunknown
    rw [if_neg h1, if_neg h2, if_neg h3, if_neg h4, if_neg h5, if_neg h6, if_neg h7]
    split_ifs <;> rfl
  · rw [htag, if_neg (by decide), if_neg (by decide), if_neg (by decide), if_neg (by decide),
      if_neg (by decide), if_neg (by decide), if_neg (by decide), if_pos rfl, if_neg hmissing]
    rfl
  · rw [htag, if_neg (by decide), if_neg (by decide), if_neg (by decide), if_neg (by decide),
      if_neg (by decide), if_neg (by decide), if_pos rfl, if_neg hmissing]
    rfl

/-- **Malformed data ends in the fail path.** -/
theorem flow_of_malformed {c : Conn β} {inp : Input β} (h : c.Malformed inp) :
    (c.pass K flags enc inp).flow = .fail := by
  have hstate : (c.processState K flags enc inp).flow = .fail := by
    rw [Malformed] at h
    split at h <;> rename_i hs
    · obtain ⟨bs, hread, hne⟩ := h
      rw [processState_eq (by rw [hs]; rfl) (by rw [hs]; decide), processConnection, hs]
      simp only [onRead, hread, if_neg hne]
      rfl
    · rw [processState_eq (by rw [hs]; rfl) (by rw [hs]; decide), processConnection, hs]
      simp only [onRead, h.1, h.2]
      rfl
    · rw [processState_eq (by rw [hs]; rfl) (by rw [hs]; decide), processConnection, hs]
      dsimp only
      rcases h with hlong | ⟨hdone, hbad⟩
      · rw [if_neg (by rw [stateBufferSize] at hlong; omega), if_pos hlong]
        rfl
      · by_cases hzero : c.connectReply.authorizerLen = 0
        · rw [if_pos hzero]
          exact flow_handleConnectReply (hbad.resolve_left fun hno ↦ hno.1 hzero)
        · rw [if_neg hzero]
          by_cases hlong : stateBufferSize < c.connectReply.authorizerLen
          · rw [if_pos hlong]
            rfl
          · obtain ⟨chunk, hread⟩ := hdone.resolve_left hzero
            rw [if_neg hlong, onRead, hread]
            dsimp only
            rcases hbad with ⟨-, hsome, hverify⟩ | hbad
            · rw [if_pos ⟨hsome, by simp [hverify]⟩]
              rfl
            · split_ifs
              · rfl
              · exact flow_handleConnectReply hbad
    · exact absurd h id
  simp only [pass]
  split_ifs <;> exact hstate

end Conn

namespace Dialer

variable {β : Type} {enc : Frame → List β} {K : Codec} {flags : CrcFlags} {peerAddr : EntityAddr}

open Conn Node

/-- The two addresses that a pass of `STATE_CONNECTING_WAIT_IDENTIFY_PEER` finds complete: the one the
peer claims for itself, and the one it claims for this messenger. -/
def identifies (s : Dialer β) (e : Node.Recv β) : Option (EntityAddr × EntityAddr) :=
  match e.1 with
  | .pass inp => match inp.read with
    | .error => none
    | _ =>
      if s.node.conn.state = .connectingWaitIdentifyPeer ∧ sizeofEntityAddr * 2 ≤ e.2.length then
        some (.ofBytes (e.2.take sizeofEntityAddr),
          .ofBytes ((e.2.drop sizeofEntityAddr).take sizeofEntityAddr))
      else none
  | _ => none

/-- The pass continues with the verdict on the addresses. -/
def withVerdict (ok : Bool) (e : Node.Recv β) : Node.Recv β :=
  match e.1 with
  | .pass inp => (.pass { inp with addrOk := ok }, e.2)
  | _ => e

variable (peerAddr) in
/-- The checks on the addresses: what the pass goes on with, and what the messenger knows afterwards.
`none` is a failed assertion in `learned_addr`. -/
def identify (s : Dialer β) (e : Node.Recv β) : Option (Node.Recv β × MyInst) :=
  match s.identifies e with
  | none => some (e, s.inst)
  | some (paddr, forMe) =>
    if peerAddr.claims paddr then (s.inst.learnedAddr forMe).map fun i ↦ (withVerdict true e, i)
    else some (withVerdict false e, s.inst)

variable (enc K flags peerAddr) in
/-- One step of a connection to `peerAddr`. -/
def step (s : Dialer β) : Event β → Option (Dialer β)
  | .learned forMe => (s.inst.learnedAddr forMe).map fun i ↦ { s with inst := i }
  | .own e => (s.identify peerAddr e).bind fun r ↦
      (nextRecv enc K flags s.node r.1).map fun n ↦ { node := n, inst := r.2 }

variable (enc K flags peerAddr) in
/-- A pass of the client, between `STATE_CONNECTING_WAIT_BANNER` and `STATE_OPEN`, evaluates an assertion
that is false. -/
def trips (s : Dialer β) : Event β → Bool
  | .learned _ => false
  | .own e => match e.1, s.node.loc with
    | .pass _, .process _ =>
      s.node.conn.phase.isClient && s.node.conn.phase != .connecting &&
        match s.identify peerAddr e with
        | none => true
        | some (e', _) => match receive s.node.conn e'.2 e'.1 with
          | .pass inp => decide ((s.node.conn.pass K flags enc inp).flow = .abort)
          | _ => false
    | _, _ => false

variable (enc K flags peerAddr) in
/-- A pass that finds malformed data fails. -/
def FailsMalformed (s : Dialer β) : Event β → Prop
  | .learned _ => True
  | .own e => ∀ e' i inp, s.identify peerAddr e = some (e', i) →
      receive s.node.conn e'.2 e'.1 = .pass inp → s.node.conn.Malformed inp →
      (s.node.conn.pass K flags enc inp).flow = .fail

variable (peerAddr) in
/-- The server's numbers and addresses are what the client asserts: RETRY_SESSION asks for a higher
`connect_seq`, READY and SEQ with all the features the client requires carry the next one, and the
first address a server claims for the messenger is an IP address. -/
def Consistent (s : Dialer β) : Event β → Prop
  | .learned _ => True
  | .own e => ∀ inp, e.1 = .pass inp →
      (s.node.conn.state = .connectingWaitConnectReplyAuth →
        (s.node.conn.connectReply.tag = Tag.retrySession →
          s.node.conn.connectSeq < s.node.conn.connectReply.connectSeq) ∧
        (completes s.node.conn.connectReply →
          featMissing s.node.conn.policy.featuresRequired s.node.conn.connectReply.features = 0 →
          s.node.conn.connectReply.connectSeq = inc32 s.node.conn.connectSeq)) ∧
      ∀ paddr forMe, s.identifies e = some (paddr, forMe) → peerAddr.claims paddr = true →
        s.inst.needAddr = true → forMe.isIp = true

/-- The invariant of a connection whose server is consistent. -/
def Inv (s : Dialer β) : Prop := s.node.conn.Later ∧ s.node.conn.Fits

theorem withVerdict_eq_pass {ok : Bool} {e : Node.Recv β} {inp : Input β}
    (h : (withVerdict ok e).1 = .pass inp) : ∃ inp₀, e.1 = .pass inp₀ := by
  rw [withVerdict] at h
  split at h
  · exact ⟨_, ‹_›⟩
  · exact ⟨inp, h⟩

/-- What goes on is the same step. -/
theorem pass_of_identify {s : Dialer β} {e e' : Node.Recv β} {i : MyInst} {inp : Input β}
    (h : s.identify peerAddr e = some (e', i)) (hpass : e'.1 = .pass inp) :
    ∃ inp₀, e.1 = .pass inp₀ := by
  rw [identify] at h
  split at h
  · rw [Option.some_inj, Prod.mk.injEq] at h
    exact ⟨inp, h.1 ▸ hpass⟩
  · split_ifs at h
    · rw [Option.map_eq_some_iff] at h
      obtain ⟨j, -, hj⟩ := h
      rw [Prod.mk.injEq] at hj
      exact withVerdict_eq_pass (hj.1 ▸ hpass)
    · rw [Option.some_inj, Prod.mk.injEq] at h
      exact withVerdict_eq_pass (h.1 ▸ hpass)

theorem inv_step {s s' : Dialer β} {e : Event β} (h : s.Inv) (hcons : s.Consistent peerAddr e)
    (hstep : s.step enc K flags peerAddr e = some s') : s'.Inv := by
  cases e with
  | learned forMe =>
    rw [step, Option.map_eq_some_iff] at hstep
    obtain ⟨i, -, rfl⟩ := hstep
    exact h
  | own e =>
    rw [step, Option.bind_eq_some_iff] at hstep
    obtain ⟨⟨e', i⟩, hid, hnext⟩ := hstep
    rw [Option.map_eq_some_iff] at hnext
    obtain ⟨n, hnext, rfl⟩ := hnext
    refine ⟨later_next h.1 hnext,
      next_core fits_rule h.2 (fun inp k hpass _ ↦ fits_pass h.1 h.2 fun hs hcomp hfeat ↦ ?_) hnext⟩
    obtain ⟨inp₀, he', -⟩ := receive_eq_pass hpass
    obtain ⟨inp₁, he⟩ := pass_of_identify hid he'
    exact ((hcons inp₁ he).1 hs).2 hcomp hfeat

/-- A consistent server trips nothing. -/
theorem trips_eq_false {s : Dialer β} {e : Event β} (h : s.Inv) (hcons : s.Consistent peerAddr e) :
    s.trips enc K flags peerAddr e = false := by
  cases e with
  | learned forMe => rfl
  | own e =>
    rw [Bool.eq_false_iff]
    intro htrips
    simp only [trips] at htrips
    split at htrips
    · rename_i inp k he hloc
      simp only [Bool.and_eq_true, bne_iff_ne, ne_eq] at htrips
      obtain ⟨⟨hclient, hdialled⟩, htrips⟩ := htrips
      obtain ⟨hreply, haddr⟩ := hcons inp he
      split at htrips
      · rename_i hid
        rw [identify] at hid
        split at hid
        · exact absurd hid (by simp)
        · rename_i paddr forMe haddrs
          split_ifs at hid with hclaims
          rw [Option.map_eq_none_iff, MyInst.learnedAddr_eq_none_iff] at hid
          have hip := haddr paddr forMe haddrs hclaims hid.1
          rw [hid.2] at hip
          exact absurd hip (by simp)
      · split at htrips
        · rw [decide_eq_true_iff] at htrips
          rcases abort_of_client htrips hclient hdialled h.2.1 with ⟨hs, htag, hle⟩ | ⟨hs, hne⟩
          · exact absurd ((hreply hs).1 htag) (by omega)
          · exact hne (h.2.2 (Or.inr (phase_of_state hs (by decide))))
        · exact absurd htrips (by simp)
    · exact absurd htrips (by simp)

theorem failsMalformed (s : Dialer β) (e : Event β) : s.FailsMalformed enc K flags peerAddr e := by
  cases e with
  | learned forMe => trivial
  | own e => exact fun e' i inp _ _ hbad ↦ flow_of_malformed hbad

/-- **No server trips an assertion of the client**, in every run in which its replies and addresses are
what the client asserts; malformed data ends in the fail path in any case. -/
theorem no_assert_trips {n : Node β} {inst : MyInst} {es : List (Event β)} (hinit : Initial n)
    (hmeets : Run.Meets (step enc K flags peerAddr) (Consistent peerAddr) { node := n, inst } es) :
    Run.Meets (step enc K flags peerAddr)
      (fun s e ↦ s.trips enc K flags peerAddr e = false ∧ s.FailsMalformed enc K flags peerAddr e)
      { node := n, inst } es := by
  refine Run.Meets.of_invariant (fun s e s' h hc hs ↦ inv_step h hc hs)
    (fun s e h hc ↦ ⟨trips_eq_false h hc, failsMalformed s e⟩) ?_ hmeets
  cases hinit with
  | outgoing policy =>
    exact ⟨later_outgoing _,
      fits_of_state (s := .connecting) rfl (by decide) (by decide)⟩
  | accepted fd =>
    exact ⟨later_accepted _,
      fits_of_state (s := .accepting) rfl (by decide) (by decide)⟩

/-- `Consistent`, for evaluation. -/
def consistentTest (s : Dialer β) : Event β → Bool
  | .learned _ => true
  | .own e =>
    (s.node.conn.state != .connectingWaitConnectReplyAuth ||
      (decide (s.node.conn.connectSeq < s.node.conn.connectReply.connectSeq) &&
        s.node.conn.connectReply.connectSeq == inc32 s.node.conn.connectSeq)) &&
    (s.identifies e).all (·.2.isIp)

theorem consistent_of_test {s : Dialer β} {e : Event β} (h : s.consistentTest e = true) :
    s.Consistent peerAddr e := by
  cases e with
  | learned forMe => trivial
  | own e =>
    intro inp _
    simp only [consistentTest, Bool.and_eq_true, Bool.or_eq_true, bne_iff_ne, decide_eq_true_iff,
      beq_iff_eq] at h
    constructor
    · intro hs
      obtain ⟨hlt, hnext⟩ := h.1.resolve_left fun hne ↦ hne hs
      exact ⟨fun _ ↦ hlt, fun _ _ ↦ hnext⟩
    · intro paddr forMe haddrs _ _
      have hall := h.2
      rw [haddrs, Option.all_some] at hall
      exact hall

/-- The frames themselves as output units, the trivial codec, both checksums. -/
abbrev frameStep (peerAddr : EntityAddr) : Dialer Frame → Event Frame → Option (Dialer Frame) :=
  step (fun f ↦ [f]) Codec.trivial ⟨true, true⟩ peerAddr

/-- The wire form of an address without port and host. -/
def addrBytes (family : UInt8) : Bytes :=
  List.replicate 8 0 ++ [0, family] ++ List.replicate 126 0

/-- A client dials a server with an IPv4 address and reads its banner. -/
def greeted : List (Event Frame) :=
  [.own (.process true, []), .own (.pass { newSd := some ⟨0, .con⟩ }, []),
    .own (.pass { kernel := some 1 }, banner)]

/-- The server claims that the client's address is of the given family. -/
def addressed (family : UInt8) : Event Frame :=
  .own (.pass { kernel := some 1 }, addrBytes 2 ++ addrBytes family)

/-- The client sends its connect message and reads `reply`. -/
def replied (reply : MsgConnectReply) : List (Event Frame) :=
  [.own (.pass { kernel := some 1 }, []), .own (.pass {}, reply.bytes)]

/-- A server that answers READY with the next `connect_seq`, to a messenger that learns its address from
it. -/
theorem no_assert_trips_ready :
    Run.Meets (frameStep (.ofBytes (addrBytes 2)))
      (fun s e ↦ s.trips (fun f ↦ [f]) Codec.trivial ⟨true, true⟩ (.ofBytes (addrBytes 2)) e = false ∧
        s.FailsMalformed (fun f ↦ [f]) Codec.trivial ⟨true, true⟩ (.ofBytes (addrBytes 2)) e)
      { node := outgoing (Policy.losslessClient 0 0) }
      (greeted ++ [addressed 2] ++ replied { tag := Tag.ready, connectSeq := 1 } ++
        [.own (.pass {}, []), .own (.pass {}, [])]) ∧
    (Run.exec (frameStep (.ofBytes (addrBytes 2))) { node := outgoing (Policy.losslessClient 0 0) }
      (greeted ++ [addressed 2] ++ replied { tag := Tag.ready, connectSeq := 1 } ++
        [.own (.pass {}, []), .own (.pass {}, [])])).map
      (fun s ↦ (s.node.conn.state, s.inst.needAddr)) = some (.opened, false) := by
  refine ⟨no_assert_trips (.outgoing _) ?_, by decide +kernel⟩
  exact Run.Meets.of_check (fun _ _ ↦ consistent_of_test) (by decide +kernel)

theorem not_meets_of_trips {s : Dialer Frame} {es : List (Event Frame)} {e : Event Frame}
    (h : (Run.exec (frameStep peerAddr) s es).map
      (fun s ↦ s.trips (fun f ↦ [f]) Codec.trivial ⟨true, true⟩ peerAddr e) = some true) :
    ¬ Run.Meets (frameStep peerAddr)
      (fun s e ↦ s.trips (fun f ↦ [f]) Codec.trivial ⟨true, true⟩ peerAddr e = false) s
      (es ++ [e]) := by
  intro hmeets
  obtain ⟨t, ht, htrips⟩ := Option.map_eq_some_iff.mp h
  exact absurd (htrips.symm.trans (hmeets.of_exec ht).1) (by simp)

/-- Three servers that bring the client down: one that claims an address without family for it, one that
answers RETRY_SESSION with a `connect_seq` that is not higher, and one that answers READY with a wrong
one. -/
theorem servers_trip_asserts :
    (¬ Run.Meets (frameStep (.ofBytes (addrBytes 2)))
      (fun s e ↦ s.trips (fun f ↦ [f]) Codec.trivial ⟨true, true⟩ (.ofBytes (addrBytes 2)) e = false)
      { node := outgoing (Policy.losslessClient 0 0) } (greeted ++ [addressed 0])) ∧
    (¬ Run.Meets (frameStep (.ofBytes (addrBytes 2)))
      (fun s e ↦ s.trips (fun f ↦ [f]) Codec.trivial ⟨true, true⟩ (.ofBytes (addrBytes 2)) e = false)
      { node := outgoing (Policy.losslessClient 0 0) }
      ((greeted ++ [addressed 2] ++ replied { tag := Tag.retrySession }) ++
        [.own (.pass {}, [])])) ∧
    ¬ Run.Meets (frameStep (.ofBytes (addrBytes 2)))
      (fun s e ↦ s.trips (fun f ↦ [f]) Codec.trivial ⟨true, true⟩ (.ofBytes (addrBytes 2)) e = false)
      { node := outgoing (Policy.losslessClient 0 0) }
      ((greeted ++ [addressed 2] ++ replied { tag := Tag.ready, connectSeq := 7 } ++
        [.own (.pass {}, [])]) ++ [.own (.pass {}, [])]) :=
  ⟨not_meets_of_trips (by decide +kernel), not_meets_of_trips (by decide +kernel),
    not_meets_of_trips (by decide +kernel)⟩

end Dialer

end AsyncMessenger
