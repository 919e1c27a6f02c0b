import AsyncMessenger.Lib.Run
import AsyncMessenger.NodeFrame

/-!
# The reads into `state_buffer`

`state_buffer` has `STATE_BUFFER_SIZE` bytes, and a read into it has a length of its own in every
state. All of them are constants but two: the authorizer of the peer's reply, whose length the
connecting side checks first, and the authorizer behind a connect message, whose length the
accepting side takes as it comes. So every read fits, in every run, as long as no connect message
announces an authorizer larger than the buffer.

A read is a pair of a state and a length, and the lengths that are constants are compared with the
size of the buffer once. What is left are invariants of the two authorizers: from the moment a
length has been read to the end of the read it governs, the field that has it does not change
(`AuthFits`).
-/

namespace AsyncMessenger

variable {β : Type} {enc : Frame → List β} {K : Codec} {flags : CrcFlags}

namespace Conn

/-- Every read into `state_buffer` fits it. -/
def ReadsFit (c : Conn β) : Prop :=
  ∀ len, c.readCall = some (.stateBuffer, len) → len ≤ stateBufferSize

/-- The connect message whose authorizer is about to be read announces one that fits. -/
structure AuthFits (c : Conn β) : Prop where
  afterSend : c.stateAfterSend ≠ .acceptingWaitConnectMsgAuth
  afterOpen : ∀ frames next, c.opening = some (frames, next) → next ≠ .acceptingWaitConnectMsgAuth
  fits : c.state = .acceptingWaitConnectMsgAuth → c.connectMsg.authorizerLen ≤ stateBufferSize

theorem readsFit_of_authFits {c : Conn β} (h : c.AuthFits) : c.ReadsFit := by
  intro len hcall
  rw [readCall] at hcall
  split at hcall
  case h_13 hs =>
    split_ifs at hcall with hzero hbig
    simp only [Option.some_inj, Prod.mk.injEq] at hcall
    omega
  case h_17 hs =>
    split_ifs at hcall
    simp only [Option.some_inj, Prod.mk.injEq] at hcall
    exact hcall.2 ▸ h.fits hs
  -- the other reads have a fixed length, or go to a buffer of their own
  all_goals first
    | (simp only [Option.some_inj, Prod.mk.injEq] at hcall; exact hcall.2 ▸ by decide)
    | (split_ifs at hcall; simp at hcall)
    | exact absurd hcall (by simp)

/-- The states the connection has in store. -/
def later (c : Conn β) : State × Option (List Frame × State) := (c.stateAfterSend, c.opening)

theorem AuthFits.of_state {c c' : Conn β} (h : c.AuthFits) (hlater : c'.later = c.later)
    (hstate : c'.state ≠ .acceptingWaitConnectMsgAuth) : c'.AuthFits := by
  simp only [later, Prod.mk.injEq] at hlater
  exact ⟨hlater.1 ▸ h.afterSend, hlater.2 ▸ h.afterOpen, fun hs ↦ absurd hs hstate⟩

theorem AuthFits.congr {c c' : Conn β} (h : c.AuthFits) (hlater : c'.later = c.later)
    (hstate : c'.state = c.state) (hconnect : c'.connectMsg = c.connectMsg) : c'.AuthFits := by
  simp only [later, Prod.mk.injEq] at hlater
  exact ⟨hlater.1 ▸ h.afterSend, hlater.2 ▸ h.afterOpen, fun hs ↦ hconnect ▸ h.fits (hstate ▸ hs)⟩

theorem authFits_trySend {c : Conn β} {bl : List β} {kernel : Option ℕ} (h : c.AuthFits) :
    (c.trySend bl kernel).conn.AuthFits := by
  simp only [trySend]
  split_ifs
  · rw [setAction_eq]
    exact h.congr rfl rfl rfl
  · split
    · exact h.congr rfl rfl rfl
    · rw [setAction_eq]
      exact h.congr rfl rfl rfl

theorem authFits_sendThen {c : Conn β} {frames : List Frame} {next : State} {inp : Input β}
    (h : c.AuthFits) (hnext : next ≠ .acceptingWaitConnectMsgAuth) :
    (c.sendThen enc frames next inp).conn.AuthFits := by
  simp only [sendThen]
  split
  · exact authFits_trySend h
  · exact (authFits_trySend h).of_state rfl hnext
  · exact ⟨hnext, (authFits_trySend h).afterOpen, fun hs ↦ absurd hs (by simp)⟩

theorem authFits_replyAccept {c : Conn β} {tag : ℕ} {m : MsgConnect} {reply : MsgConnectReply}
    {auth : Bytes} {kernel : Option ℕ} (h : c.AuthFits) :
    (c.replyAccept enc tag m reply auth kernel).conn.AuthFits := by
  simp only [replyAccept]
  split
  · exact authFits_trySend h
  · exact (authFits_trySend h).of_state rfl (by simp)

theorem authFits_refuse {c : Conn β} {tag : ℕ} {m : MsgConnect} {reply : MsgConnectReply}
    {auth : Bytes} {inp : Input β} {effect : Effect β} (h : c.AuthFits) :
    (c.refuse enc tag m reply auth inp effect).conn.AuthFits := by
  simp only [refuse]
  split <;> exact authFits_replyAccept h

theorem authFits_stop {c : Conn β} (h : c.AuthFits) : c.stop.AuthFits := by
  rw [stop]
  split_ifs
  · exact h
  · exact h.of_state rfl (by simp)

theorem authFits_faultRetry {c : Conn β} (h : c.AuthFits) : c.faultRetry.AuthFits := by
  simp only [faultRetry]
  split_ifs <;> exact h.of_state rfl (by simp)

theorem authFits_fault {c : Conn β} (h : c.AuthFits) : c.fault.AuthFits := by
  rw [fault]
  split_ifs
  · exact h
  · exact authFits_stop h
  · exact authFits_faultRetry h

theorem authFits_doReplace {c : Conn β} {r : ReplaceInput} (h : c.AuthFits) :
    (c.doReplace enc r).conn.AuthFits := by
  have htake : (c.takeOver r.random).AuthFits := by
    simp only [takeOver]
    split_ifs <;> exact h.of_state rfl (by simp)
  have hclear {d : Conn β} (hd : d.AuthFits) : d.clearAuthorizerReply.AuthFits :=
    hd.congr rfl rfl rfl
  obtain ⟨reply, -, -, ⟨out, heq⟩ | ⟨k, b, heq⟩⟩ := c.doReplace_cases enc r
  · rw [heq]
    exact hclear (authFits_fault (htake.congr rfl rfl rfl))
  · rw [heq]
    exact htake.of_state rfl (by simp [clearAuthorizerReply])

theorem authFits_rule : CoreRule enc (AuthFits (β := β)) where
  congr c c' hcore h := h.congr (congrArg later hcore).symm (congrArg Conn.state hcore).symm
    (congrArg Conn.connectMsg hcore).symm
  connect c _ h := h.of_state rfl (by simp [Conn.connect])
  lossy c h := h.congr rfl rfl rfl
  handOver c _ _ _ _ _ _ h := h.congr rfl rfl rfl
  stop c h := authFits_stop h
  faultRetry c _ _ h := authFits_faultRetry h
  doReplace c r _ h := authFits_doReplace h

/-! ## The passes -/

theorem authFits_handleConnectReply {c : Conn β} {r : MsgConnectReply} {inp : Input β}
    (h : c.AuthFits) :
    (c.handleConnectReply r inp).conn.AuthFits := by
  have hite {p : Prop} [Decidable p] {a b : Outcome β} (ha : a.conn.AuthFits)
      (hb : b.conn.AuthFits) : (if p then a else b).conn.AuthFits := by
    split_ifs
    · exact ha
    · exact hb
  have hgoto {d : Conn β} {s : State} {g : ℕ} (hlater : d.later = c.later)
      (hs : s ≠ .acceptingWaitConnectMsgAuth) : (d.goto s g).conn.AuthFits := h.of_state hlater hs
  rw [handleConnectReply]
  exact hite h (hite (hite h (hgoto rfl (by simp))) (hite (hgoto rfl (by simp))
    (hite (hgoto rfl (by simp)) (hite (hite h (hgoto rfl (by simp))) (hite (hgoto rfl (by simp))
      (hite (hite (hgoto rfl (by simp)) h) (hite (hite (hgoto rfl (by simp)) h) h)))))))

theorem authFits_gotConnectMsg {c : Conn β} {inp : Input β} (h : c.AuthFits) :
    (c.gotConnectMsg enc inp).conn.AuthFits := by
  have hpolicy : ({ c with policy := inp.newPolicy } : Conn β).AuthFits := h.congr rfl rfl rfl
  have hsign : (({ c with policy := inp.newPolicy } : Conn β).requireSignatures inp).AuthFits := by
    rw [requireSignatures]
    split_ifs <;> exact h.congr rfl rfl rfl
  simp only [gotConnectMsg, handleConnectMsg]
  generalize (({ c with policy := inp.newPolicy } : Conn β).requireSignatures inp) = d at hsign ⊢
  split_ifs
  · exact authFits_refuse hpolicy
  · exact authFits_refuse hsign
  · exact authFits_refuse hsign
  · generalize d.judge inp.existing c.connectMsg inp.peerLess = v
    cases v with
    | reply => exact authFits_refuse hsign
    | wait => exact authFits_refuse hsign
    | busy =>
      rw [carryOut, refuseBusy]
      split_ifs
      · exact (authFits_refuse hsign).congr rfl rfl rfl
      · exact authFits_refuse hsign
    | replace => exact authFits_stop (hsign.congr rfl rfl rfl)
    | «open» =>
      have hnext (q : Prop) [Decidable q] :
          (if q then State.acceptingWaitSeq else .acceptingReady) ≠ .acceptingWaitConnectMsgAuth := by
        split_ifs <;> simp
      simp only [carryOut, openSession]
      refine ⟨?_, ?_, ?_⟩
      · split_ifs <;> exact hsign.afterSend
      · rintro frames next heq
        simp only [Option.some_inj, Prod.mk.injEq] at heq
        exact heq.2 ▸ hnext _
      · split_ifs <;> exact hsign.fits

theorem authFits_onRead {c : Conn β} {inp : Input β} {k : Chunk → Outcome β} (h : c.AuthFits)
    (hk : ∀ chunk, inp.read = .done chunk → (k chunk).conn.AuthFits) :
    (c.onRead inp k).conn.AuthFits := by
  rw [onRead]
  split
  · exact h
  · exact h
  · exact hk _ ‹_›

/-- The only pass that can break the bound is the one that reads a connect message. -/
theorem authFits_processConnection {c : Conn β} {inp : Input β} (h : c.AuthFits)
    (hread : c.state = .acceptingWaitConnectMsg → ∀ m, inp.read = .done (.connect m) →
      m.authorizerLen ≤ stateBufferSize) : (c.processConnection enc inp).conn.AuthFits := by
  rw [processConnection]
  split <;> rename_i hs
  · -- `STATE_WAIT_SEND`
    rw [flushed]
    split_ifs
    · exact h.congr rfl rfl rfl
    · exact h
    · exact ⟨by simp [goto], h.afterOpen, fun hs' ↦ absurd hs' h.afterSend⟩
  · -- `STATE_CONNECTING`
    simp only [dial]
    split_ifs
    · exact h
    · exact h.of_state rfl (by simp [goto])
    · exact h.of_state rfl (by simp [failed, hs])
  · -- `STATE_CONNECTING_WAIT_BANNER`
    refine authFits_onRead h fun chunk _ ↦ ?_
    split
    · split_ifs
      · exact authFits_sendThen h (by simp)
      · exact h
    · exact h
  · -- `STATE_CONNECTING_WAIT_IDENTIFY_PEER`
    refine authFits_onRead h fun chunk _ ↦ ?_
    split
    · split_ifs
      · exact authFits_sendThen h (by simp)
      · exact h
    · exact h
  · -- `STATE_CONNECTING_SEND_CONNECT_MSG`
    refine authFits_sendThen (h.of_state ?_ ?_) (by simp)
    · split_ifs <;> rfl
    · split_ifs <;> simp [hs]
  · -- `STATE_CONNECTING_WAIT_CONNECT_REPLY`
    refine authFits_onRead h fun chunk _ ↦ ?_
    split
    · exact h.of_state rfl (by simp [goto])
    · exact h
  · -- `STATE_CONNECTING_WAIT_CONNECT_REPLY_AUTH`
    split_ifs
    · exact authFits_handleConnectReply h
    · exact h
    · exact authFits_onRead h fun _ _ ↦ h
    · exact authFits_onRead h fun _ _ ↦ authFits_handleConnectReply h
  · -- `STATE_CONNECTING_WAIT_ACK_SEQ`
    refine authFits_onRead h fun chunk _ ↦ ?_
    split
    · exact authFits_sendThen (h.congr rfl rfl rfl) (by simp)
    · exact h
  · -- `STATE_CONNECTING_READY`
    rw [connectDone]
    split_ifs
    · exact h.of_state rfl (by simp)
    · exact h
  · -- `STATE_ACCEPTING`
    split_ifs
    · exact authFits_sendThen h (by simp)
    · exact h
  · -- `STATE_ACCEPTING_WAIT_BANNER_ADDR`
    refine authFits_onRead h fun chunk _ ↦ ?_
    split
    · split_ifs
      · exact h.of_state rfl (by simp [goto])
      · exact h
    · exact h
  · -- `STATE_ACCEPTING_WAIT_CONNECT_MSG`
    refine authFits_onRead h fun chunk hchunk ↦ ?_
    split
    · exact ⟨h.afterSend, h.afterOpen, fun _ ↦ hread hs _ hchunk⟩
    · exact h
  · -- `STATE_ACCEPTING_WAIT_CONNECT_MSG_AUTH`
    split
    · rename_i frames next hopening
      have hnone : ({ c with opening := none, notified := false } : Conn β).AuthFits :=
        ⟨h.afterSend, fun _ _ heq ↦ absurd heq (by simp), h.fits⟩
      simp only [finishOpen]
      split_ifs
      · exact h.congr rfl rfl rfl
      · exact (authFits_sendThen hnone (h.afterOpen _ _ hopening)).congr rfl rfl rfl
    · split_ifs
      · exact authFits_gotConnectMsg h
      · exact authFits_onRead h fun _ _ ↦ authFits_gotConnectMsg h
  · -- `STATE_ACCEPTING_WAIT_SEQ`
    refine authFits_onRead h fun chunk _ ↦ ?_
    split
    · exact h.of_state rfl (by simp [goto])
    · exact h
  · -- `STATE_ACCEPTING_READY`
    exact h.of_state rfl (by simp [goto])
  · exact h

theorem authFits_pass {c : Conn β} {inp : Input β} (h : c.AuthFits)
    (hread : c.state = .acceptingWaitConnectMsg → ∀ m, inp.read = .done (.connect m) →
      m.authorizerLen ≤ stateBufferSize) : (c.pass K flags enc inp).conn.AuthFits := by
  by_cases hopen : c.state.isOpen = true
  · rw [pass_of_isOpen hopen]
    have hreads : c.Reads (c.processOpen K flags inp).conn := reads_processOpen hopen
    refine h.of_state ?_ fun hs ↦ ?_
    · have hlater := congrArg later hreads.1
      exact hlater
    · have hstill := hreads.2
      rw [hs] at hstill
      exact absurd hstill (by decide)
  · have hstate : (c.processState K flags enc inp).conn.AuthFits := by
      rw [processState, if_neg hopen]
      split
      · exact h
      · exact h
      · exact h.of_state rfl (by simp [failed])
      · exact authFits_processConnection h hread
    simp only [pass]
    split_ifs
    · exact hstate.congr rfl rfl rfl
    · exact hstate

end Conn

namespace Node

open Conn

/-- A step, with the bytes that have arrived on the connection's socket. -/
abbrev Recv (β : Type) := Event β × Bytes

/-- `read_until` finds the bytes that have arrived, unless the read fails. -/
def receive (c : Conn β) (arrived : Bytes) : Event β → Event β
  | .pass inp => match inp.read with
    | .error => .pass inp
    | _ => .pass { inp with read := (c.readBytes arrived).1 }
  | e => e

/-- A pass that reads has failed, or found what `read_until` makes of the stream. -/
theorem receive_eq_pass {c : Conn β} {arrived : Bytes} {e : Event β} {inp : Input β}
    (h : receive c arrived e = .pass inp) :
    ∃ inp₀, e = .pass inp₀ ∧ inp.newPolicy = inp₀.newPolicy ∧
      (inp.read = .error ∨ inp.read = (c.readBytes arrived).1) := by
  rw [receive.eq_def] at h
  split at h
  · rename_i inp₀
    split at h
    · rename_i herror
      rw [Event.pass.injEq] at h
      exact ⟨inp₀, rfl, by rw [h], Or.inl (by rw [← h, herror])⟩
    · rw [Event.pass.injEq] at h
      exact ⟨inp₀, rfl, by rw [← h], Or.inr (by rw [← h])⟩
  · rename_i hne
    exact absurd h (hne _)

/-- One step of a connection that reads from a byte stream. -/
def nextRecv (enc : Frame → List β) (K : Codec) (flags : CrcFlags) (n : Node β) (e : Recv β) :
    Option (Node β) :=
  n.next enc K flags (receive n.conn e.2 e.1)

/-- A connect message read by the step announces an authorizer that fits `state_buffer`. -/
def ConnectFits (n : Node β) (e : Recv β) : Prop :=
  n.conn.state = .acceptingWaitConnectMsg → MsgConnect.layout.sum ≤ e.2.length →
    (MsgConnect.ofBytes (e.2.take MsgConnect.layout.sum)).authorizerLen ≤ stateBufferSize

theorem authFits_nextRecv {n n' : Node β} {e : Recv β} (h : n.conn.AuthFits) (hfits : n.ConnectFits e)
    (hnext : nextRecv enc K flags n e = some n') : n'.conn.AuthFits := by
  refine next_core authFits_rule h (fun inp k hpass _ ↦ authFits_pass h fun hs m hm ↦ ?_) hnext
  obtain ⟨-, -, -, herror | hread⟩ := receive_eq_pass hpass
  · rw [herror] at hm
    exact absurd hm (by simp)
  rw [hread, readBytes, readCall, hs] at hm
  simp only [reduceCtorEq, if_false] at hm
  by_cases hlen : e.2.length < MsgConnect.layout.sum
  · rw [if_pos hlen] at hm
    exact absurd hm (by simp)
  · rw [if_neg hlen, chunkOf, hs, Read.done.injEq, Chunk.connect.injEq] at hm
    exact hm ▸ hfits hs (Nat.not_lt.mp hlen)

/-- **Handshake reads fit the state buffer**, in every run in which every connect message announces an
authorizer of at most `STATE_BUFFER_SIZE` bytes. -/
theorem reads_fit_state_buffer {n n' : Node β} {es : List (Recv β)} (hinit : Initial n)
    (hmeets : Run.Meets (nextRecv enc K flags) ConnectFits n es)
    (hrun : Run.exec (nextRecv enc K flags) n es = some n') : n'.conn.ReadsFit := by
  have hfits : n'.conn.AuthFits := by
    refine Run.invariant_of_meets (I := fun n ↦ n.conn.AuthFits)
      (fun s e s' h hc hs ↦ authFits_nextRecv h hc hs) ?_ hmeets hrun
    cases hinit with
    | outgoing policy =>
      exact ⟨by simp [outgoing, Conn.connect], by simp [outgoing, Conn.connect], by
        simp [outgoing, Conn.connect]⟩
    | accepted fd => exact ⟨by simp [accepted], by simp [accepted], by simp [accepted]⟩
  exact readsFit_of_authFits hfits

/-- A connection accepted on a socket reads the peer's banner and address and then `connect`. -/
def connectArrives (connect : MsgConnect) : List (Recv Frame) :=
  [(.process true, []), (.pass { kernel := some 2 }, []),
    (.pass {}, banner ++ List.replicate sizeofEntityAddr 0), (.pass {}, connect.bytes)]

/-- A connect message with an authorizer of 4096 bytes. -/
theorem reads_fit_state_buffer_at_limit :
    ∃ n, Run.exec (nextRecv (fun f ↦ [f]) Codec.trivial ⟨true, true⟩) (accepted ⟨0, .acc⟩)
        (connectArrives { authorizerLen := 4096 }) = some n ∧
      n.conn.readCall = some (.stateBuffer, 4096) ∧ n.conn.ReadsFit := by
  have hcall : (Run.exec (nextRecv (fun f ↦ [f]) Codec.trivial ⟨true, true⟩) (accepted ⟨0, .acc⟩)
      (connectArrives { authorizerLen := 4096 })).map (·.conn.readCall) =
        some (some (.stateBuffer, 4096)) := by
    decide +kernel
  have hmeets : Run.Meets (nextRecv (fun f ↦ [f]) Codec.trivial ⟨true, true⟩) ConnectFits
      (accepted ⟨0, .acc⟩) (connectArrives { authorizerLen := 4096 }) :=
    ⟨fun _ _ ↦ by decide, fun _ _ ↦ ⟨fun _ _ ↦ by decide, fun _ _ ↦
      ⟨fun _ _ ↦ by decide, fun _ _ ↦ ⟨fun _ _ ↦ by decide, fun _ _ ↦ trivial⟩⟩⟩⟩
  obtain ⟨n, hrun, hn⟩ := Option.map_eq_some_iff.mp hcall
  exact ⟨n, hrun, hn, reads_fit_state_buffer (.accepted _) hmeets hrun⟩

/-- A connect message with an authorizer of 4097 bytes makes the accepting side read past the end of
`state_buffer`. -/
theorem connect_overruns_state_buffer :
    ∃ n, Run.exec (nextRecv (fun f ↦ [f]) Codec.trivial ⟨true, true⟩) (accepted ⟨0, .acc⟩)
        (connectArrives { authorizerLen := 4097 }) = some n ∧
      n.conn.readCall = some (.stateBuffer, 4097) ∧ ¬ n.conn.ReadsFit := by
  have hcall : (Run.exec (nextRecv (fun f ↦ [f]) Codec.trivial ⟨true, true⟩) (accepted ⟨0, .acc⟩)
      (connectArrives { authorizerLen := 4097 })).map (·.conn.readCall) =
        some (some (.stateBuffer, 4097)) := by
    decide +kernel
  obtain ⟨n, hrun, hn⟩ := Option.map_eq_some_iff.mp hcall
  refine ⟨n, hrun, hn, fun hfit ↦ ?_⟩
  exact absurd (hfit 4097 hn) (by decide)

end Node

end AsyncMessenger
