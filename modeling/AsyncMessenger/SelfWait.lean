import AsyncMessenger.Lib.Run
import AsyncMessenger.NodeInvariant

/-!
# The event thread and its own `sending`

`handle_write` calls `do_process` in `STATE_WAIT_SEND` while it still has `sending` set. When a pass
of that `do_process` fails, or meets a CLOSE tag, it calls `wait_sending`, and the thread waits for
a flag that only the same thread would clear.

`Refuses` lists, state by state, what makes a pass fail. In every run in which no pass of the nested
`do_process` meets such an input the thread never waits for itself (`never_waits_for_itself`). If it
ever does, it is for good: `WaitsForItself.next` says that no step of any thread ends it.

The list is checked function by function, from the results of the pass back to its input: whatever
ends in `wait_sending` has met something that is listed for its state. The steps of the threads come
after that, and there only one of them can lead to such a wait, a pass of the nested `do_process`.
-/

namespace AsyncMessenger

variable {β : Type} {enc : Frame → List β} {K : Codec} {flags : CrcFlags}

namespace Conn

/-- The read fails, or what it delivers is bad. -/
def BadRead (inp : Input β) (bad : Chunk → Prop) : Prop :=
  inp.read = .error ∨ ∃ chunk, inp.read = .done chunk ∧ bad chunk

/-- `handle_connect_reply` does not go on. -/
def RefusesReply (c : Conn β) : Prop :=
  c.connectReply.tag = Tag.features ∨ c.connectReply.tag = Tag.badProtoVer ∨
  (c.connectReply.tag = Tag.badAuthorizer ∧ c.gotBadAuth = true) ∨
  ((c.connectReply.tag = Tag.seq ∨ c.connectReply.tag = Tag.ready) ∧
    featMissing c.policy.featuresRequired c.connectReply.features ≠ 0) ∨
  (c.connectReply.tag ≠ Tag.badAuthorizer ∧ c.connectReply.tag ≠ Tag.resetSession ∧
    c.connectReply.tag ≠ Tag.retryGlobal ∧ c.connectReply.tag ≠ Tag.retrySession ∧
    c.connectReply.tag ≠ Tag.wait ∧ c.connectReply.tag ≠ Tag.seq ∧ c.connectReply.tag ≠ Tag.ready)

/-- `handle_connect_msg` answers at once, instead of accepting the session or handing the socket
over. -/
def AnswersAtOnce (c : Conn β) (inp : Input β) : Prop :=
  let d := ({ c with policy := inp.newPolicy } : Conn β).requireSignatures inp
  c.connectMsg.protocolVersion ≠ inp.protoVersion ∨
  featMissing d.policy.featuresRequired c.connectMsg.features ≠ 0 ∨ inp.authorizerValid = false ∨
  (d.judge inp.existing c.connectMsg inp.peerLess ≠ .open ∧
    ∀ reset fromPeer, d.judge inp.existing c.connectMsg inp.peerLess ≠ .replace reset fromPeer)

variable (K flags) in
/-- The input makes a pass of `do_process` leave through `fail`, or the peer has closed the
session. -/
def Refuses (c : Conn β) (inp : Input β) : Prop :=
  match c.state with
  | .opened => BadRead inp fun chunk ↦ ∀ t, chunk = .tag t → stateOfTag t = none
  | .openKeepalive2 => inp.read = .error
  | .openKeepalive2Ack => inp.read = .error
  | .openTagAck => BadRead inp fun chunk ↦ ∀ seq, chunk ≠ .seq seq
  | .openMessageHeader => BadRead inp fun chunk ↦
      ∀ h, chunk = .header h → flags.header = true ∧ Message.headerCrc K h ≠ h.crc
  | .openMessageReadFront =>
    c.currentHeader.frontLen ≠ 0 ∧ BadRead inp fun chunk ↦ ∀ bs, chunk ≠ .bytes bs
  | .openMessageReadMiddle =>
    c.currentHeader.middleLen ≠ 0 ∧ BadRead inp fun chunk ↦ ∀ bs, chunk ≠ .bytes bs
  | .openMessageReadData =>
    c.msgLeft ≠ 0 ∧ BadRead inp fun chunk ↦ ∀ bs, chunk ≠ .bytes bs
  | .openMessageReadFooter => BadRead inp fun chunk ↦
      ∀ f, chunk = .footer f → f.flags &&& MsgFooter.complete = 0
  | .openMessageDispatch =>
    Message.decodeMessage K flags inp.newId c.currentHeader c.currentFooter c.front c.middle
      c.data = none
  | .openTagClose => True
  | .connecting => inp.newSd = none
  | .connectingWaitBanner => BadRead inp fun chunk ↦
      ∀ bs, chunk = .banner bs → bs ≠ AsyncMessenger.banner ∨ inp.kernel = none
  | .connectingWaitIdentifyPeer => BadRead inp fun chunk ↦
      chunk = .addrs → inp.addrOk = false ∨ inp.kernel = none
  | .connectingSendConnectMsg => inp.kernel = none
  | .connectingWaitConnectReply => BadRead inp fun chunk ↦ ∀ r, chunk ≠ .reply r
  | .connectingWaitConnectReplyAuth =>
    if c.connectReply.authorizerLen = 0 then c.RefusesReply
    else stateBufferSize < c.connectReply.authorizerLen ∨ BadRead inp fun _ ↦
      (c.authorizer.isSome = true ∧ inp.verifyReply = false) ∨ c.RefusesReply
  | .connectingWaitAckSeq => BadRead inp fun chunk ↦ ∀ seq, chunk = .seq seq → inp.kernel = none
  | .accepting => inp.addrOk = false ∨ inp.kernel = none
  | .acceptingWaitBannerAddr => BadRead inp fun chunk ↦
      ∀ bs, chunk = .bannerAddr bs → bs ≠ AsyncMessenger.banner
  | .acceptingWaitConnectMsg => BadRead inp fun chunk ↦ ∀ m, chunk ≠ .connect m
  | .acceptingWaitConnectMsgAuth =>
    if c.opening.isSome then inp.kernel = none
    else (c.connectMsg.authorizerLen ≠ 0 ∧ inp.read = .error) ∨
      (inp.kernel = none ∧ c.AnswersAtOnce inp)
  | .acceptingWaitSeq => BadRead inp fun chunk ↦ ∀ seq, chunk ≠ .seq seq
  | .wait => True
  | _ => False

/-- The pass ends in `wait_sending`. -/
def Waits (o : Outcome β) : Prop := o.flow = .fail ∨ o.flow = .close

theorem badRead_of_waits_onRead {c : Conn β} {inp : Input β} {k : Chunk → Outcome β}
    {bad : Chunk → Prop} (hbad : ∀ chunk, Waits (k chunk) → bad chunk)
    (h : Waits (c.onRead inp k)) : BadRead inp bad := by
  rw [onRead] at h
  split at h
  · exact Or.inl ‹_›
  · exact absurd h (by simp [Waits])
  · exact Or.inr ⟨_, ‹_›, hbad _ h⟩

theorem error_of_badRead_false {inp : Input β} (h : BadRead inp fun _ ↦ False) :
    inp.read = .error := by
  rcases h with herror | ⟨chunk, -, hfalse⟩
  · exact herror
  · exact hfalse.elim

theorem not_waits_goto {c : Conn β} {s : State} {g : ℕ} : ¬ Waits (c.goto s g) := by
  simp [Waits, goto]

theorem kernel_of_trySend_fails {c : Conn β} {bl : List β} {kernel : Option ℕ}
    (h : (c.trySend bl kernel).left = none) : kernel = none := by
  simp only [trySend] at h
  split_ifs at h
  cases kernel with
  | none => rfl
  | some k => exact absurd h (by simp)

theorem kernel_of_waits_sendThen {c : Conn β} {frames : List Frame} {next : State} {inp : Input β}
    (h : Waits (c.sendThen enc frames next inp)) : inp.kernel = none := by
  simp only [sendThen] at h
  split at h
  · exact kernel_of_trySend_fails ‹_›
  · exact absurd h (by simp [Waits])
  · exact absurd h (by simp [Waits])

theorem kernel_of_waits_refuse {c : Conn β} {tag : ℕ} {m : MsgConnect} {reply : MsgConnectReply}
    {auth : Bytes} {inp : Input β} {effect : Effect β}
    (h : Waits (c.refuse enc tag m reply auth inp effect)) : inp.kernel = none := by
  simp only [refuse] at h
  split at h
  · rename_i hleft
    rw [replyAccept] at hleft
    dsimp only at hleft
    split at hleft
    · exact kernel_of_trySend_fails ‹_›
    · rename_i hsome
      rw [hsome] at hleft
      exact absurd hleft (by simp)
  · exact absurd h (by simp [Waits])

/-- One branch of a chain of tests. -/
theorem waits_ite {p : Prop} [Decidable p] {a b : Outcome β} {P : Prop} (ha : p → Waits a → P)
    (hb : ¬ p → Waits b → P) (h : Waits (if p then a else b)) : P := by
  by_cases hp : p
  · rw [if_pos hp] at h
    exact ha hp h
  · rw [if_neg hp] at h
    exact hb hp h

theorem refusesReply_of_waits {c : Conn β} {inp : Input β}
    (h : Waits (c.handleConnectReply c.connectReply inp)) : c.RefusesReply := by
  have hgoto {d : Conn β} {s : State} {g : ℕ} (hw : Waits (d.goto s g)) : c.RefusesReply :=
    absurd hw not_waits_goto
  have hmissing (htag : c.connectReply.tag = Tag.seq ∨ c.connectReply.tag = Tag.ready)
      (hf : ¬ featMissing c.policy.featuresRequired c.connectReply.features = 0) : c.RefusesReply :=
    Or.inr (Or.inr (Or.inr (Or.inl ⟨htag, hf⟩)))
  rw [handleConnectReply] at h
  refine waits_ite (fun htag _ ↦ ?_) (fun _ ↦ ?_) h
  · exact htag.elim Or.inl fun ht ↦ Or.inr (Or.inl ht)
  refine waits_ite (fun hauth ↦ ?_) (fun hauth ↦ ?_)
  · exact waits_ite (fun hbad _ ↦ Or.inr (Or.inr (Or.inl ⟨hauth, hbad⟩))) fun _ ↦ hgoto
  refine waits_ite (fun _ ↦ hgoto) (fun hreset ↦ ?_)
  refine waits_ite (fun _ ↦ hgoto) (fun hglobal ↦ ?_)
  refine waits_ite (fun _ ↦ ?_) (fun hsession ↦ ?_)
  · exact waits_ite (fun _ hw ↦ absurd hw (by simp [Waits])) fun _ ↦ hgoto
  refine waits_ite (fun _ ↦ hgoto) (fun hwait ↦ ?_)
  refine waits_ite (fun htag ↦ ?_) (fun hseq ↦ ?_)
  · exact waits_ite (fun _ ↦ hgoto) fun hf _ ↦ hmissing (Or.inl htag) hf
  refine waits_ite (fun htag ↦ ?_) (fun hready _ ↦ ?_)
  · exact waits_ite (fun _ ↦ hgoto) fun hf _ ↦ hmissing (Or.inr htag) hf
  exact Or.inr (Or.inr (Or.inr (Or.inr ⟨hauth, hreset, hglobal, hsession, hwait, hseq, hready⟩)))

theorem answersAtOnce_of_waits {c : Conn β} {inp : Input β} (h : Waits (c.gotConnectMsg enc inp)) :
    inp.kernel = none ∧ c.AnswersAtOnce inp := by
  rw [gotConnectMsg, handleConnectMsg] at h
  refine waits_ite (fun hproto hw ↦ ?_) (fun _ ↦ ?_) h
  · exact ⟨kernel_of_waits_refuse hw, Or.inl hproto⟩
  refine waits_ite (fun hfeat hw ↦ ?_) (fun _ ↦ ?_)
  · exact ⟨kernel_of_waits_refuse hw, Or.inr (Or.inl hfeat)⟩
  refine waits_ite (fun hauth hw ↦ ?_) (fun _ hw ↦ ?_)
  · exact ⟨kernel_of_waits_refuse hw, Or.inr (Or.inr (Or.inl (by simpa using hauth)))⟩
  have hbusy {d : Conn β} (hw : Waits (d.refuseBusy enc c.connectMsg inp)) : inp.kernel = none := by
    have hflow : (d.refuseBusy enc c.connectMsg inp).flow = (d.refuse enc Tag.retrySession
        c.connectMsg { connectSeq := inc32 c.connectMsg.connectSeq } inp.authorizerReply inp
        .none).flow := by
      rw [refuseBusy]
      split_ifs <;> rfl
    rw [Waits, hflow] at hw
    exact kernel_of_waits_refuse hw
  suffices hkernel : inp.kernel = none ∧
      (({ c with policy := inp.newPolicy } : Conn β).requireSignatures inp).judge inp.existing
        c.connectMsg inp.peerLess ≠ .open ∧
      ∀ reset fromPeer, (({ c with policy := inp.newPolicy } : Conn β).requireSignatures inp).judge
        inp.existing c.connectMsg inp.peerLess ≠ .replace reset fromPeer from
    ⟨hkernel.1, Or.inr (Or.inr (Or.inr hkernel.2))⟩
  generalize (({ c with policy := inp.newPolicy } : Conn β).requireSignatures inp).judge inp.existing
    c.connectMsg inp.peerLess = v at hw ⊢
  cases v with
  | reply tag reply => exact ⟨kernel_of_waits_refuse hw, by simp, by simp⟩
  | wait => exact ⟨kernel_of_waits_refuse hw, by simp, by simp⟩
  | busy => exact ⟨hbusy hw, by simp, by simp⟩
  | replace => exact absurd hw (by simp [carryOut, Waits])
  | «open» => exact absurd hw (by simp [carryOut, openSession, Waits])

theorem refuses_of_waits_processOpen {c : Conn β} {inp : Input β} (hopen : c.state.isOpen = true)
    (h : Waits (c.processOpen K flags inp)) : c.Refuses K flags inp := by
  have hgoto {d : Conn β} {s : State} {g : ℕ} {P : Prop} (hw : Waits (d.goto s g)) : P :=
    absurd hw not_waits_goto
  rw [processOpen] at h
  rw [Refuses]
  split at h <;> rename_i hs <;> try simp only [hs]
  · -- `STATE_OPEN`
    refine badRead_of_waits_onRead (fun chunk hw t ht ↦ ?_) h
    subst ht
    dsimp only at hw
    split at hw
    · exact hgoto hw
    · assumption
  · -- `STATE_OPEN_KEEPALIVE2`
    have hbad : BadRead inp fun _ ↦ False := badRead_of_waits_onRead (fun _ hw ↦ hgoto hw) h
    exact error_of_badRead_false hbad
  · -- `STATE_OPEN_KEEPALIVE2_ACK`
    have hbad : BadRead inp fun _ ↦ False := badRead_of_waits_onRead (fun _ hw ↦ hgoto hw) h
    exact error_of_badRead_false hbad
  · -- `STATE_OPEN_TAG_ACK`
    exact badRead_of_waits_onRead (fun chunk hw seq hc ↦ by subst hc; exact hgoto hw) h
  · -- `STATE_OPEN_MESSAGE_HEADER`
    refine badRead_of_waits_onRead (fun chunk hw header hc ↦ ?_) h
    subst hc
    exact waits_ite (fun hcrc _ ↦ hcrc) (fun _ ↦ hgoto) hw
  · -- `STATE_OPEN_MESSAGE_THROTTLE_MESSAGE`
    exact absurd h (by simp [Waits, goto])
  · -- `STATE_OPEN_MESSAGE_THROTTLE_BYTES`
    exact absurd h (by simp [Waits, goto])
  · -- `STATE_OPEN_MESSAGE_READ_FRONT`
    refine waits_ite (fun _ ↦ hgoto) (fun hlen hw ↦ ⟨hlen, ?_⟩) h
    exact badRead_of_waits_onRead (fun chunk hw bs hc ↦ by subst hc; exact hgoto hw) hw
  · -- `STATE_OPEN_MESSAGE_READ_MIDDLE`
    refine waits_ite (fun _ ↦ hgoto) (fun hlen hw ↦ ⟨hlen, ?_⟩) h
    exact badRead_of_waits_onRead (fun chunk hw bs hc ↦ by subst hc; exact hgoto hw) hw
  · -- `STATE_OPEN_MESSAGE_READ_DATA_PREPARE`
    exact hgoto h
  · -- `STATE_OPEN_MESSAGE_READ_DATA`
    refine waits_ite (fun _ ↦ hgoto) (fun hlen hw ↦ ⟨hlen, ?_⟩) h
    exact badRead_of_waits_onRead (fun chunk hw bs hc ↦ by subst hc; exact hgoto hw) hw
  · -- `STATE_OPEN_MESSAGE_READ_FOOTER`
    refine badRead_of_waits_onRead (fun chunk hw f hc ↦ ?_) h
    subst hc
    exact waits_ite (fun habort _ ↦ habort) (fun _ ↦ hgoto) hw
  · -- `STATE_OPEN_MESSAGE_THROTTLE_DISPATCH_SIZE`
    exact hgoto h
  · -- a message that decodes is dropped or delivered, and neither waits
    rcases dispatchMessage_cases (K := K) c inp with
      ⟨hm, -⟩ | ⟨m, -, -, hd⟩ | ⟨m, b, p, flow, -, -, hflow, hd⟩
    · exact hm
    · rw [hd] at h
      exact absurd h (by simp [Waits])
    · rw [hd] at h
      rcases hflow with rfl | ⟨rfl, -⟩ <;> exact absurd h (by simp [Waits])
  · -- the only open state left is the one of the CLOSE tag
    have hclose : c.state = .openTagClose := by
      revert hopen
      cases hstate : c.state with
      | openTagClose => exact fun _ ↦ rfl
      | _ => first | exact fun hfalse ↦ absurd hfalse (by decide) | exact absurd hstate ‹_›
    rw [hclose]
    trivial

theorem refuses_of_waits_processConnection {c : Conn β} {inp : Input β}
    (h : Waits (c.processConnection enc inp)) : c.Refuses K flags inp := by
  have hgoto {d : Conn β} {s : State} {g : ℕ} {P : Prop} (hw : Waits (d.goto s g)) : P :=
    absurd hw not_waits_goto
  have hnext {d : Conn β} {g : ℕ} {P : Prop} (hw : Waits ({ conn := d, gseq := g } : Outcome β)) : P :=
    absurd hw (by simp [Waits])
  have habort {d : Conn β} {g : ℕ} {P : Prop}
      (hw : Waits ({ conn := d, flow := .abort, gseq := g } : Outcome β)) : P :=
    absurd hw (by simp [Waits])
  rw [processConnection] at h
  rw [Refuses]
  split at h <;> rename_i hs <;> try simp only [hs]
  · -- `STATE_WAIT_SEND`
    rw [flushed] at h
    exact waits_ite (fun _ ↦ hnext) (fun _ ↦ waits_ite (fun _ ↦ habort) fun _ ↦ hgoto) h
  · -- `STATE_CONNECTING`
    rw [dial] at h
    refine waits_ite (fun _ ↦ habort) (fun _ ↦ waits_ite (fun _ ↦ hgoto) fun hsd _ ↦ ?_) h
    simpa using hsd
  · -- `STATE_CONNECTING_WAIT_BANNER`
    refine badRead_of_waits_onRead (fun chunk hw bs hc ↦ ?_) h
    subst hc
    exact waits_ite (fun _ hw ↦ Or.inr (kernel_of_waits_sendThen hw)) (fun hb _ ↦ Or.inl hb) hw
  · -- `STATE_CONNECTING_WAIT_IDENTIFY_PEER`
    refine badRead_of_waits_onRead (fun chunk hw hc ↦ ?_) h
    subst hc
    exact waits_ite (fun _ hw ↦ Or.inr (kernel_of_waits_sendThen hw))
      (fun hb _ ↦ Or.inl (by simpa using hb)) hw
  · -- `STATE_CONNECTING_SEND_CONNECT_MSG`
    exact kernel_of_waits_sendThen h
  · -- `STATE_CONNECTING_WAIT_CONNECT_REPLY`
    exact badRead_of_waits_onRead (fun chunk hw r hc ↦ by subst hc; exact hgoto hw) h
  · -- `STATE_CONNECTING_WAIT_CONNECT_REPLY_AUTH`
    refine waits_ite (fun hlen hw ↦ ?_) (fun hlen ↦ ?_) h
    · rw [if_pos hlen]
      exact refusesReply_of_waits hw
    rw [if_neg hlen]
    refine waits_ite (fun hbig _ ↦ Or.inl hbig) (fun _ hw ↦ Or.inr ?_)
    refine badRead_of_waits_onRead (fun chunk ↦ ?_) hw
    exact waits_ite (fun hverify _ ↦ Or.inl (by simpa using hverify))
      (fun _ hw ↦ Or.inr (refusesReply_of_waits hw))
  · -- `STATE_CONNECTING_WAIT_ACK_SEQ`
    refine badRead_of_waits_onRead (fun chunk hw seq hc ↦ ?_) h
    subst hc
    exact kernel_of_waits_sendThen hw
  · -- `STATE_CONNECTING_READY`
    rw [connectDone] at h
    exact waits_ite (fun _ ↦ hnext) (fun _ ↦ habort) h
  · -- `STATE_ACCEPTING`
    exact waits_ite (fun _ hw ↦ Or.inr (kernel_of_waits_sendThen hw))
      (fun hb _ ↦ Or.inl (by simpa using hb)) h
  · -- `STATE_ACCEPTING_WAIT_BANNER_ADDR`
    refine badRead_of_waits_onRead (fun chunk hw bs hc ↦ ?_) h
    subst hc
    exact waits_ite (fun _ ↦ hgoto) (fun hb _ ↦ hb) hw
  · -- `STATE_ACCEPTING_WAIT_CONNECT_MSG`
    exact badRead_of_waits_onRead (fun chunk hw m hc ↦ by subst hc; exact hgoto hw) h
  · -- `STATE_ACCEPTING_WAIT_CONNECT_MSG_AUTH`
    split at h
    · rename_i hopening
      rw [hopening, Option.isSome_some, if_pos rfl]
      -- only the send can fail, not the notification
      rw [finishOpen] at h
      split_ifs at h
      · exact hnext h
      · exact kernel_of_waits_sendThen h
    · rename_i hopening
      rw [hopening, Option.isSome_none, if_neg (by simp)]
      refine waits_ite (fun _ hw ↦ Or.inr (answersAtOnce_of_waits hw)) (fun hlen hw ↦ ?_) h
      rcases badRead_of_waits_onRead (fun _ hw ↦ answersAtOnce_of_waits hw) hw with herror | hbad
      · exact Or.inl ⟨hlen, herror⟩
      · exact Or.inr hbad.choose_spec.2
  · -- `STATE_ACCEPTING_WAIT_SEQ`
    exact badRead_of_waits_onRead (fun chunk hw seq hc ↦ by subst hc; exact hgoto hw) h
  · -- `STATE_ACCEPTING_READY`
    exact hgoto h
  · exact absurd h (by simp [Waits])

/-- What fails a pass is one of the listed inputs. -/
theorem refuses_of_waits {c : Conn β} {inp : Input β} (h : Waits (c.pass K flags enc inp)) :
    c.Refuses K flags inp := by
  have hstate : Waits (c.processState K flags enc inp) := by
    simp only [pass] at h
    split_ifs at h <;> exact h
  by_cases hopen : c.state.isOpen = true
  · rw [processState, if_pos hopen] at hstate
    exact refuses_of_waits_processOpen hopen hstate
  · rw [processState, if_neg hopen] at hstate
    split at hstate
    · exact absurd hstate (by simp [Waits])
    · exact absurd hstate (by simp [Waits])
    · rename_i hs
      rw [Refuses, hs]
      trivial
    · exact refuses_of_waits_processConnection hstate

end Conn

namespace Node

open Conn

variable (K flags) in
/-- No pass of the `do_process` inside `handle_write` meets an input that fails it. -/
def NestedProceeds (n : Node β) : Event β → Prop
  | .pass inp => n.loc = .process .nested → ¬ n.conn.Refuses K flags inp
  | _ => True

/-- The event thread waits in `wait_sending` for the flag its own `handle_write` has set. -/
def WaitsForItself (n : Node β) : Prop := ∃ close prev, n.loc = .waiting .nested close prev

theorem not_waitsForItself_of_loc {n : Node β}
    (h : ∀ close prev, n.loc ≠ .waiting .nested close prev) : ¬ n.WaitsForItself := by
  rintro ⟨close, prev, hloc⟩
  exact h close prev hloc

theorem not_waits_again {c : Conn β} {win : Option (Window β)} {prev : State} {k : Caller} :
    ¬ (again c win prev k).WaitsForItself := by
  refine not_waitsForItself_of_loc fun close prev' ↦ ?_
  rw [again]
  split_ifs
  · simp
  · rw [loc_finish]
    simp

theorem not_waits_fault {c : Conn β} {win : Option (Window β)} {k : Option Caller} :
    ¬ (fault c win k).node.WaitsForItself := by
  refine not_waitsForItself_of_loc fun close prev ↦ ?_
  rw [fault]
  split_ifs
  · rw [loc_finish]
    simp
  · simp
  · rw [loc_finish]
    simp

theorem not_waits_afterWait {c : Conn β} {win : Option (Window β)} {k : Caller} {close : Bool}
    {prev : State} {r : ReplaceInput} :
    ¬ (afterWait enc c win k close prev r).node.WaitsForItself := by
  rw [afterWait]
  split_ifs
  · exact not_waits_again
  · exact not_waitsForItself_of_loc (by simp)
  · exact not_waits_fault

theorem not_waits_writeFlush {c : Conn β} {gather : ℕ} :
    ¬ (writeFlush enc c gather).WaitsForItself := by
  refine not_waitsForItself_of_loc fun close prev ↦ ?_
  rw [writeFlush]
  split_ifs <;> simp [openWindow, writeDone]

theorem not_waits_writeMessages {c : Conn β} {gather : ℕ} :
    ¬ (writeMessages enc K flags c gather).WaitsForItself := by
  rw [writeMessages]
  split_ifs
  · exact not_waits_writeFlush
  · split
    · exact not_waits_writeFlush
    · exact not_waitsForItself_of_loc (by simp [openWindow])

theorem not_waits_afterWrite {c : Conn β} {pc : WritePc} {left : Option ℕ} {gather : ℕ}
    {r : ReplaceInput} : ¬ (afterWrite enc K flags c pc left gather r).node.WaitsForItself := by
  have hdone : ¬ (writeDone c).WaitsForItself := not_waitsForItself_of_loc (by simp [writeDone])
  have hother : ¬ (if c.state = .waitSend then ({ conn := c, loc := .process .nested } : Node β)
      else writeDone c).WaitsForItself := by
    split_ifs
    · exact not_waitsForItself_of_loc (by simp)
    · exact hdone
  rcases left with _ | _ | left
  · simp only [afterWrite, writeFail]
    split_ifs
    · exact not_waitsForItself_of_loc (by simp)
    · exact not_waits_fault
  · cases pc with
    | message => exact not_waits_writeMessages
    | flush => exact hdone
    | other => exact hother
  · cases pc with
    | message => exact not_waits_writeFlush
    | flush => exact hdone
    | other => exact hother

theorem not_waits_handleWrite {c : Conn β} {win : Option (Window β)} {gather : ℕ} :
    ¬ (handleWrite enc K flags c win gather).WaitsForItself := by
  simp only [handleWrite]
  split_ifs
  · exact not_waitsForItself_of_loc (by simp)
  · exact not_waits_writeMessages
  · exact not_waitsForItself_of_loc (by simp)
  · exact not_waitsForItself_of_loc (by simp [writeDone])
  · exact not_waitsForItself_of_loc (by simp [openWindow])
  · exact not_waitsForItself_of_loc (by simp)

theorem not_waits_relock {n : Node β} {w : Window β} {gather : ℕ} {r : ReplaceInput}
    (h : ¬ n.WaitsForItself) :
    ¬ (relock enc K flags { n with win := none } w gather r).node.WaitsForItself := by
  have hreturn (c : Conn β) (left : Option ℕ) :
      ¬ (returnTrySend enc K flags c w.owner n.loc left gather r).node.WaitsForItself := by
    rw [returnTrySend.eq_def]
    split
    · exact h
    · exact not_waits_afterWrite
    · exact h
  simp only [relock]
  split_ifs
  · exact hreturn _ _
  · split
    · exact h
    · split_ifs
      · exact h
      · exact hreturn _ _

theorem not_waits_processPass {n : Node β} {k : Caller} {inp : Input β} (hloc : n.loc = .process k)
    (hproceeds : n.loc = .process .nested → ¬ n.conn.Refuses K flags inp) :
    ¬ (processPass enc K flags n k inp).node.WaitsForItself := by
  have hwait (close : Bool) (hflow : Waits (n.conn.pass K flags enc inp)) :
      ¬ (waitSending enc n (n.conn.pass K flags enc inp).conn k close
        inp.replace).node.WaitsForItself := by
    rw [waitSending]
    split_ifs
    · rintro ⟨close', prev, hwaiting⟩
      simp only [Loc.waiting.injEq] at hwaiting
      exact hproceeds (hwaiting.1 ▸ hloc) (refuses_of_waits hflow)
    · exact not_waits_afterWait
  simp only [processPass]
  split
  · exact not_waits_again
  · exact not_waitsForItself_of_loc (by rw [loc_finish]; simp)
  · exact not_waitsForItself_of_loc (by rw [hloc]; simp)
  · exact hwait false (Or.inl ‹_›)
  · exact hwait true (Or.inr ‹_›)

theorem not_waits_next {n n' : Node β} {e : Event β} (h : ¬ n.WaitsForItself)
    (hproceeds : n.NestedProceeds K flags e) (hnext : n.next enc K flags e = some n') :
    ¬ n'.WaitsForItself := by
  rw [next, Option.map_eq_some_iff] at hnext
  obtain ⟨res, hstep, rfl⟩ := hnext
  cases (Step.of_step hstep).2 with
  | sendMessage =>
    simp only [sendMessage]
    split_ifs <;> exact h
  | sendKeepaliveClosed => exact h
  | sendKeepalive => exact h
  | sendmsg => exact h
  | sendmsgError => exact h
  | relock => exact not_waits_relock h
  | setStopping => exact h
  | markDisposable => exact h
  | cStop => exact h
  | handOver => exact h
  | handleReplace =>
    simp only [handleReplace]
    split_ifs <;> exact h
  | timer => exact not_waitsForItself_of_loc (by simp)
  | readable => exact not_waitsForItself_of_loc (by simp)
  | pass inp k hloc => exact not_waits_processPass hloc hproceeds
  | wake => exact not_waits_afterWait
  | leave => exact not_waitsForItself_of_loc (by rw [loc_finish]; simp)
  | handleWrite => exact not_waits_handleWrite

/-- While the thread waits for itself, nobody else is sending: the flag is its own and stays. -/
theorem WaitsForItself.blocked {n : Node β} (hwf : n.WF) (h : n.WaitsForItself) :
    n.win = none ∧ n.conn.sending = true := by
  obtain ⟨close, prev, hloc⟩ := h
  have hnested : n.loc.isNested = true := by rw [hloc]; rfl
  exact ⟨hwf.nested hnested, hwf.sending_iff.mpr (Or.inr hnested)⟩

/-- **Waiting for itself, the thread waits for good**: no step of any thread ends it. -/
theorem WaitsForItself.next {n n' : Node β} {e : Event β} (hwf : n.WF) (h : n.WaitsForItself)
    (hnext : n.next enc K flags e = some n') : n'.WaitsForItself := by
  obtain ⟨hwin, hsending⟩ := h.blocked hwf
  obtain ⟨close, prev, hloc⟩ := h
  -- a step that keeps the place of the event thread
  have hstays {m : Node β} (hm : m.loc = n.loc) : m.WaitsForItself := ⟨close, prev, hm.trans hloc⟩
  have hbusy {P : Prop} (hidle : n.loc = .idle) : P := by
    rw [hloc] at hidle
    cases hidle
  rw [Node.next, Option.map_eq_some_iff] at hnext
  obtain ⟨res, hstep, rfl⟩ := hnext
  cases (Step.of_step hstep).2 with
  | sendMessage m concurrent gather =>
    apply hstays
    have hqueued : n.conn.sendsDirectly concurrent = false := by
      rw [sendsDirectly, hsending]
      simp
    simp only [Node.sendMessage, hqueued, Bool.false_eq_true, if_false]
    split_ifs <;> rfl
  | sendKeepaliveClosed | sendKeepalive | setStopping | markDisposable | handOver => exact hstays rfl
  | sendmsg taken w hw | sendmsgError w hw | relock gather r w hw =>
    rw [hwin] at hw
    cases hw
  | cStop hidle | handleReplace r hidle | timer hidle | readable hidle | handleWrite gather hidle =>
    exact hbusy hidle
  | pass inp k hprocess =>
    rw [hloc] at hprocess
    cases hprocess
  | wake r k close prev _ hfree =>
    rw [hsending] at hfree
    cases hfree
  | leave k hleaving =>
    rw [hloc] at hleaving
    cases hleaving

/-- **The event thread does not wait for itself**, in every run in which no pass of the `do_process`
inside `handle_write` is given an input that fails it. -/
theorem never_waits_for_itself {n n' : Node β} {es : List (Event β)} (hinit : Initial n)
    (hmeets : Run.Meets (next enc K flags) (NestedProceeds K flags) n es)
    (hrun : Run.exec (next enc K flags) n es = some n') : ¬ n'.WaitsForItself := by
  refine Run.invariant_of_meets (fun s e s' h hc hs ↦ not_waits_next h hc hs) ?_ hmeets hrun
  cases hinit <;> exact not_waitsForItself_of_loc (by simp [outgoing, accepted])

/-- The banner of an accepted connection does not fit the socket at once: `handle_write` flushes it
and goes on with the handshake. -/
def delayedBanner : List (Event Frame) :=
  [.process true, .pass { kernel := some 0 }, .pass {}, .handleWrite 5, .sendmsg 2, .relock 0 {},
    .pass {}]

/-- The peer's banner arrives in time. -/
theorem never_waits_for_itself_delayed_banner :
    ∃ n, Run.exec (next (fun f ↦ [f]) Codec.trivial ⟨true, true⟩) (accepted ⟨0, .acc⟩)
        (delayedBanner ++ [.pass { read := .done (.bannerAddr banner) }]) = some n ∧
      ¬ n.WaitsForItself := by
  have hbanner (n : Node Frame) (hs : n.conn.state = .acceptingWaitBannerAddr) :
      n.NestedProceeds Codec.trivial ⟨true, true⟩
        (.pass { read := .done (.bannerAddr banner) }) := by
    rintro - hbad
    rw [Refuses, hs] at hbad
    rcases hbad with herror | ⟨chunk, hchunk, hbad⟩
    · exact absurd herror (by simp)
    · rw [Read.done.injEq] at hchunk
      exact hbad _ hchunk.symm rfl
  have hmeets : Run.Meets (next (fun f ↦ [f]) Codec.trivial ⟨true, true⟩)
      (NestedProceeds Codec.trivial ⟨true, true⟩) (accepted ⟨0, .acc⟩)
      (delayedBanner ++ [.pass { read := .done (.bannerAddr banner) }]) := by
    refine .cons trivial rfl (.cons nofun rfl (.cons nofun rfl (.cons trivial rfl (.cons trivial rfl
      (.cons trivial rfl (.cons (fun _ ↦ id) rfl (.cons (hbanner _ rfl) rfl trivial)))))))
  exact ⟨_, rfl, never_waits_for_itself (.accepted _) hmeets rfl⟩

/-- The peer goes away right after the flush, and the thread waits for itself for good. -/
theorem delayed_banner_read_error :
    ∃ n, Run.exec (next (fun f ↦ [f]) Codec.trivial ⟨true, true⟩) (accepted ⟨0, .acc⟩)
        (delayedBanner ++ [.pass { read := .error }]) = some n ∧
      n.WaitsForItself ∧ n.conn.sending = true ∧ n.conn.wantSend = true :=
  ⟨_, rfl, ⟨false, .acceptingWaitBannerAddr, rfl⟩, rfl, rfl⟩

end Node

end AsyncMessenger
