import AsyncMessenger.Registry

/-!
# Refused connection attempts

`handle_connect_msg` has more than ten exits. Two of them change the messenger: the socket is handed
to the registered connection, or the connection registers itself. All others answer with
`_reply_accept` and go on waiting for the next connect message.

## The answer

`answer` is the tag such an exit answers with, found out in the order of the source: the protocol,
the features, the authorizer, and then the comparison with the registered connection.
`refused_handleConnectMsg` says what the exit does: the reply goes out, and nothing is done to the
outside, except that WAIT asks the registered connection for a keepalive. The cases are those of
`judge`, which `Judges` lists.

## The messenger

`handleConnectMsg_of_answer` says the same of the whole messenger. It holds of any messenger, so
that nothing has to be known of how it got there.
-/

namespace AsyncMessenger

/-- The tags `handle_connect_msg` refuses with. -/
def Tag.refusals : List ℕ :=
  [Tag.badProtoVer, Tag.features, Tag.badAuthorizer, Tag.retryGlobal, Tag.retrySession, Tag.wait,
    Tag.resetSession]

/-- `MSGR_ENTITY_TYPE_MDS`. -/
def entityTypeMds : ℕ := 2

/-- `MSGR_ENTITY_TYPE_OSD`. -/
def entityTypeOsd : ℕ := 4

/-- The options `msgrx_require_signatures`, `msgrx_cluster_require_signatures` and
`msgrx_service_require_signatures`. -/
structure SignatureConf where
  always : Bool
  cluster : Bool
  service : Bool

/-- The configuration asks for signed messages from a peer of this type. -/
def SignatureConf.demands (conf : SignatureConf) (peerType : ℕ) : Bool :=
  if peerType = entityTypeOsd ∨ peerType = entityTypeMds then conf.always || conf.cluster
  else conf.always || conf.service

namespace Conn

variable {β : Type} {enc : Frame → List β}

/-- The tag `handle_connect_msg` gives to `_reply_accept`, if it ends there. -/
def answer (c : Conn β) (inp : Input β) : Option ℕ :=
  if c.connectMsg.protocolVersion ≠ inp.protoVersion then some Tag.badProtoVer
  else if featMissing (c.requireSignatures inp).policy.featuresRequired c.connectMsg.features ≠ 0 then
    some Tag.features
  else if !inp.authorizerValid then some Tag.badAuthorizer
  else match (c.requireSignatures inp).judge inp.existing c.connectMsg inp.peerLess with
    | .reply tag _ => some tag
    | .wait => some Tag.wait
    | .busy => some Tag.retrySession
    | .replace .. => none
    | .open => none

/-- The peer speaks the same protocol, offers every feature that is required of it, and its authorizer
has been accepted. -/
structure Admits (c : Conn β) (inp : Input β) : Prop where
  protocol : c.connectMsg.protocolVersion = inp.protoVersion
  features :
    featMissing (c.requireSignatures inp).policy.featuresRequired c.connectMsg.features = 0
  authorizer : inp.authorizerValid = true

/-- `o` is the end of a `handle_connect_msg` that has answered with `tag`. -/
structure Refused (enc : Frame → List β) (c : Conn β) (inp : Input β) (tag : ℕ) (o : Outcome β) :
    Prop where
  reply : ∃ (r : MsgConnectReply) (auth : Bytes), r.tag = tag ∧
    o.wrote ++ o.conn.outcomingBl = c.outcomingBl ++ enc (.reply r auth)
  gseq : o.gseq = inp.gseq
  effect : o.effect = if tag = Tag.wait then .keepalive else .none
  state : o.conn.state = .acceptingWaitConnectMsg ∨ o.conn.state = c.state

theorem refused_refuse (c : Conn β) (tag : ℕ) (m : MsgConnect) (reply : MsgConnectReply)
    (auth : Bytes) (inp : Input β) {effect : Effect β}
    (heffect : effect = if tag = Tag.wait then .keepalive else .none) :
    Refused enc c inp tag (c.refuse enc tag m reply auth inp effect) := by
  let reply' : MsgConnectReply := { reply with protocolVersion := inp.protoVersion }
  rw [refuse]
  rcases c.replyAccept_cases enc tag m reply' auth inp.kernel with h | ⟨k, evWrite, h⟩
  · rw [h]
    exact ⟨⟨c.acceptReply tag m reply' auth, auth, rfl, rfl⟩, rfl, heffect, Or.inr rfl⟩
  · rw [h]
    refine ⟨⟨c.acceptReply tag m reply' auth, auth, rfl, ?_⟩, rfl, heffect, Or.inl rfl⟩
    exact List.take_append_drop k _

theorem refused_refuseBusy (c : Conn β) (m : MsgConnect) (inp : Input β) :
    Refused enc c inp Tag.retrySession (c.refuseBusy enc m inp) := by
  have h : Refused enc c inp Tag.retrySession (c.refuse enc Tag.retrySession m
      { connectSeq := inc32 m.connectSeq } inp.authorizerReply inp .none) :=
    refused_refuse c _ m _ _ inp rfl
  rw [refuseBusy]
  split_ifs
  · exact ⟨h.reply, h.gseq, h.effect, h.state⟩
  · exact h

/-- The signature rules change nothing but the required features. -/
theorem Refused.of_requireSignatures {c : Conn β} {inp : Input β} {tag : ℕ} {o : Outcome β}
    (h : Refused enc (c.requireSignatures inp) inp tag o) : Refused enc c inp tag o := by
  obtain ⟨p, -, heq⟩ := requireSignatures_eq c inp
  rw [heq] at h
  exact ⟨h.reply, h.gseq, h.effect, h.state⟩

/-- The tags of the answers that depend on the registered connection. -/
theorem tag_of_judges {c : Conn β} {m : MsgConnect} {peerLess : Bool} {existing : Option (Conn β)}
    {tag : ℕ} {reply : MsgConnectReply} (h : Judges c m peerLess existing (.reply tag reply)) :
    tag ∈ [Tag.retryGlobal, Tag.retrySession, Tag.resetSession] := by
  cases h <;> simp

/-- A refusal says one of seven things. -/
theorem mem_refusals_of_answer {c : Conn β} {inp : Input β} {tag : ℕ}
    (h : c.answer inp = some tag) : tag ∈ Tag.refusals := by
  rw [answer] at h
  have hv := judges_judge (c.requireSignatures inp) inp.existing c.connectMsg inp.peerLess
  split_ifs at h
  · cases h
    decide
  · cases h
    decide
  · cases h
    decide
  · split at h
    next tag' reply heq =>
      cases h
      rw [heq] at hv
      have hmem := tag_of_judges hv
      simp only [List.mem_cons, List.not_mem_nil, or_false] at hmem
      rcases hmem with rfl | rfl | rfl <;> decide
    all_goals first | cases h; decide | cases h

/-- Every exit that answers does so and nothing else. -/
theorem refused_handleConnectMsg {c : Conn β} {inp : Input β} {tag : ℕ}
    (h : c.answer inp = some tag) : Refused enc c inp tag (c.handleConnectMsg enc inp) := by
  rw [answer] at h
  rw [handleConnectMsg]
  by_cases hproto : c.connectMsg.protocolVersion ≠ inp.protoVersion
  · rw [if_pos hproto] at h ⊢
    cases h
    exact refused_refuse c _ _ _ _ inp rfl
  rw [if_neg hproto] at h ⊢
  dsimp only at h ⊢
  apply Refused.of_requireSignatures
  by_cases hfeat :
      featMissing (c.requireSignatures inp).policy.featuresRequired c.connectMsg.features ≠ 0
  · rw [if_pos hfeat] at h ⊢
    cases h
    exact refused_refuse _ _ _ _ _ inp rfl
  rw [if_neg hfeat] at h ⊢
  by_cases hauth : (!inp.authorizerValid) = true
  · rw [if_pos hauth] at h ⊢
    cases h
    exact refused_refuse _ _ _ _ _ inp rfl
  rw [if_neg hauth] at h ⊢
  have hv := judges_judge (c.requireSignatures inp) inp.existing c.connectMsg inp.peerLess
  generalize (c.requireSignatures inp).judge inp.existing c.connectMsg inp.peerLess = v at h hv ⊢
  cases v with
  | reply tag' reply =>
    cases h
    have hmem := tag_of_judges hv
    simp only [List.mem_cons, List.not_mem_nil, or_false] at hmem
    rcases hmem with rfl | rfl | rfl <;> exact refused_refuse _ _ _ _ _ inp rfl
  | wait =>
    cases h
    exact refused_refuse _ _ _ _ _ inp rfl
  | busy =>
    cases h
    exact refused_refuseBusy _ _ inp
  | replace reset fromPeer => cases h
  | «open» => cases h

/-- A peer that is not admitted is told so. -/
theorem answer_of_not_admits {c : Conn β} {inp : Input β} (h : ¬ c.Admits inp) :
    ∃ tag, c.answer inp = some tag ∧ tag ≠ Tag.wait := by
  rw [answer]
  split_ifs with hproto hfeat hauth
  · exact ⟨_, rfl, by decide⟩
  · exact ⟨_, rfl, by decide⟩
  · exact ⟨_, rfl, by decide⟩
  · refine absurd ⟨?_, ?_, ?_⟩ h
    · exact not_not.mp hproto
    · exact not_not.mp hfeat
    · simpa using hauth

/-- An exit that does not answer sends nothing, and it is only for a peer that is admitted. -/
theorem admits_of_answer_none {c : Conn β} {inp : Input β} (h : c.answer inp = none) :
    c.Admits inp ∧ (c.handleConnectMsg enc inp).wrote = [] := by
  have hadmits : c.Admits inp := by
    by_contra hnot
    obtain ⟨tag, hsome, -⟩ := answer_of_not_admits hnot
    rw [h] at hsome
    cases hsome
  refine ⟨hadmits, ?_⟩
  have hproto : ¬ c.connectMsg.protocolVersion ≠ inp.protoVersion := not_not.mpr hadmits.protocol
  have hfeat : ¬ featMissing (c.requireSignatures inp).policy.featuresRequired
      c.connectMsg.features ≠ 0 := not_not.mpr hadmits.features
  have hauth : ¬ (!inp.authorizerValid) = true := by simp [hadmits.authorizer]
  rw [answer, if_neg hproto, if_neg hfeat, if_neg hauth] at h
  rw [handleConnectMsg, if_neg hproto]
  dsimp only
  rw [if_neg hfeat, if_neg hauth]
  generalize (c.requireSignatures inp).judge inp.existing c.connectMsg inp.peerLess = v at h ⊢
  cases v with
  | reply => cases h
  | wait => cases h
  | busy => cases h
  | replace => rfl
  | «open» => rfl

end Conn

namespace Messenger

variable {α β : Type} [DecidableEq α] (enc : Frame → List β)

/-- What `handle_connect_msg` of connection `i` meets. -/
def connectInput (s : Messenger α β) (conf : SignatureConf) (i : ℕ) (inp : Input β) : Input β :=
  { s.fillInput i inp with
    requireSignatures := conf.demands (s.member i).node.conn.connectMsg.hostType }

/-- `handle_connect_msg` of connection `i`, up to the release of the lock, with what it does to the
messenger. -/
def handleConnectMsg (s : Messenger α β) (conf : SignatureConf) (i : ℕ) (inp : Input β) :
    Messenger α β :=
  let o := (s.member i).node.conn.handleConnectMsg enc (s.connectInput conf i inp)
  s.settle i ((s.member i).withConn o.conn) o.effect o.gseq

/-- `send_keepalive` on a connection. -/
def woken (m : Member α β) : Member α β :=
  if m.node.conn.state = .closed then m
  else m.withConn ({ m.node.conn with keepalive := true } : Conn β).startWrite

/-- What a keepalive does to the connections. -/
theorem member_affect_keepalive (s : Messenger α β) (i j : ℕ) :
    (s.affect i .keepalive).member j =
      if s.existing i = some j then woken (s.member j) else s.member j := by
  rw [affect]
  cases hex : s.existing i with
  | none => rfl
  | some k =>
    dsimp only
    by_cases hjk : j = k
    · subst hjk
      rw [if_pos rfl, woken]
      split_ifs
      · rfl
      · exact member_put_self _ _
    · rw [if_neg fun h ↦ hjk (Option.some.inj h).symm]
      split_ifs
      · rfl
      · exact member_put_of_ne hjk _

/-- A refused connection attempt changes the connection that made it and, if the answer is WAIT, wakes
the registered one. -/
theorem handleConnectMsg_of_answer {s : Messenger α β} {conf : SignatureConf} {i : ℕ} {inp : Input β}
    {tag : ℕ} (h : (s.member i).node.conn.answer (s.connectInput conf i inp) = some tag) :
    (s.handleConnectMsg enc conf i inp).conns = s.conns ∧
    (s.handleConnectMsg enc conf i inp).accepting = s.accepting ∧
    ∀ j, j ≠ i → (s.handleConnectMsg enc conf i inp).member j =
      if tag = Tag.wait ∧ s.existing i = some j then woken (s.member j) else s.member j := by
  rw [handleConnectMsg]
  have ho : Conn.Refused enc _ _ _ _ := Conn.refused_handleConnectMsg h
  generalize (s.member i).node.conn.handleConnectMsg enc (s.connectInput conf i inp) = o at ho ⊢
  -- the connection is not closed by its answer, so that nothing is unregistered
  have hopen : Node.closes (s.member i).node ((s.member i).withConn o.conn).node = false := by
    rw [Node.closes, Member.withConn]
    rcases ho.state with hs | hs
    · rw [hs]
      simp
    · rw [hs]
      cases (s.member i).node.conn.state <;> rfl
  have hregister : o.effect.isRegister = false := by
    rw [ho.effect]
    split_ifs <;> rfl
  rw [settle, if_neg (by simp [hopen])]
  have hlists := lists_affect (s := ({ s with gseq := o.gseq } : Messenger α β).put i
    ((s.member i).withConn o.conn)) hregister i
  refine ⟨hlists.1, hlists.2, fun j hj ↦ ?_⟩
  rw [ho.effect]
  by_cases hwait : tag = Tag.wait
  · rw [if_pos hwait, member_affect_keepalive, member_put_of_ne hj]
    have hex : (({ s with gseq := o.gseq } : Messenger α β).put i
        ((s.member i).withConn o.conn)).existing i = s.existing i := by
      rw [existing, member_put_self]
      rfl
    rw [hex]
    by_cases hsome : s.existing i = some j
    · rw [if_pos hsome, if_pos ⟨hwait, hsome⟩]
    · rw [if_neg hsome, if_neg fun h ↦ hsome h.2]
  · rw [if_neg hwait, if_neg fun h ↦ hwait h.1]
    exact member_put_of_ne hj _

/-- Nothing happens to the other connections on behalf of a peer that is not admitted. -/
theorem handleConnectMsg_of_not_admits {s : Messenger α β} {conf : SignatureConf} {i : ℕ}
    {inp : Input β} (h : ¬ (s.member i).node.conn.Admits (s.connectInput conf i inp)) :
    (s.handleConnectMsg enc conf i inp).conns = s.conns ∧
    (s.handleConnectMsg enc conf i inp).accepting = s.accepting ∧
    ∀ j, j ≠ i → (s.handleConnectMsg enc conf i inp).member j = s.member j := by
  obtain ⟨tag, hanswer, hwait⟩ := Conn.answer_of_not_admits h
  obtain ⟨hconns, haccepting, hmember⟩ := handleConnectMsg_of_answer enc hanswer
  refine ⟨hconns, haccepting, fun j hj ↦ ?_⟩
  rw [hmember j hj, if_neg fun h ↦ hwait h.1]

/-- A refused connect changes nothing: the answer goes out with one of the seven tags, the registry
stays as it is, and so does every other connection, unless the answer is WAIT and the connection is the
registered one, which then is asked for a keepalive. Only a peer that is admitted changes the registry
or has a connection marked for replacement; then nothing is answered yet. -/
theorem refused_connect_changes_nothing (s : Messenger α β) (conf : SignatureConf) (i : ℕ)
    (inp : Input β) :
    (∀ tag, (s.member i).node.conn.answer (s.connectInput conf i inp) = some tag →
      tag ∈ Tag.refusals ∧
      (∃ (r : MsgConnectReply) (auth : Bytes), r.tag = tag ∧
        ((s.member i).node.conn.handleConnectMsg enc (s.connectInput conf i inp)).wrote ++
          ((s.member i).node.conn.handleConnectMsg enc (s.connectInput conf i inp)).conn.outcomingBl =
            (s.member i).node.conn.outcomingBl ++ enc (.reply r auth)) ∧
      (s.handleConnectMsg enc conf i inp).conns = s.conns ∧
      (s.handleConnectMsg enc conf i inp).accepting = s.accepting ∧
      ∀ j, j ≠ i → (s.handleConnectMsg enc conf i inp).member j =
        if tag = Tag.wait ∧ s.existing i = some j then woken (s.member j) else s.member j) ∧
    ((s.handleConnectMsg enc conf i inp).conns ≠ s.conns ∨
        (s.handleConnectMsg enc conf i inp).accepting ≠ s.accepting ∨
        (∃ j, j ≠ i ∧ ((s.handleConnectMsg enc conf i inp).member j).node.conn.replacing ≠
          (s.member j).node.conn.replacing) →
      (s.member i).node.conn.Admits (s.connectInput conf i inp)) ∧
    ((s.member i).node.conn.answer (s.connectInput conf i inp) = none →
      (s.member i).node.conn.Admits (s.connectInput conf i inp) ∧
      ((s.member i).node.conn.handleConnectMsg enc (s.connectInput conf i inp)).wrote = []) := by
  refine ⟨?_, ?_, Conn.admits_of_answer_none⟩
  · intro tag h
    have ho : Conn.Refused enc _ _ _ _ := Conn.refused_handleConnectMsg h
    exact ⟨Conn.mem_refusals_of_answer h, ho.reply, handleConnectMsg_of_answer enc h⟩
  · intro hchange
    by_contra hnot
    obtain ⟨hconns, haccepting, hmember⟩ := handleConnectMsg_of_not_admits enc hnot
    rcases hchange with h | h | ⟨j, hj, h⟩
    · exact h hconns
    · exact h haccepting
    · rw [hmember j hj] at h
      exact h rfl

end Messenger

end AsyncMessenger
