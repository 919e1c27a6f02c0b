import AsyncMessenger.Moves
import AsyncMessenger.StateBuffer
import AsyncMessenger.StateMachine

/-!
# Mutual authentication

A client that sends an authorizer wants the server to prove itself in turn: `verify_reply` looks at
the authorizer bytes that follow a reply. The history variable `verified` remembers the last call
that succeeded, until the next reply arrives.

The call sits in the branch of `STATE_CONNECTING_WAIT_CONNECT_REPLY_AUTH` that reads those bytes.
A server that announces none, with `authorizer_len` zero, is not asked for anything, whatever the
tag of its reply.

## The proof and its reply

`Proven` is the invariant: a client in one of the states between its reply and the open session has
a proof for exactly this reply, with the connection it was asked for. `verifiedBy` is the history of
the calls, and the check itself is one lemma about one state. The other states only have to keep the
reply they have (`lateView`). With the condition that every reply which completes the handshake
announces some bytes, the client opens no session with a peer that has not proved itself.
-/

namespace AsyncMessenger

/-- A successful call of `verify_reply`: the authorizer, the reply that was being processed, and the
bytes it was called with. -/
structure Verified where
  authorizer : Bytes
  reply : MsgConnectReply
  bytes : Bytes
  deriving DecidableEq, Repr

/-- A connection, with the last successful `verify_reply` on the reply it is processing. -/
structure Client (β : Type) where
  node : Node β
  verified : Option Verified := none

namespace Conn

variable {β : Type}

/-- The tags that complete a handshake. -/
def completes (r : MsgConnectReply) : Prop := r.tag = Tag.ready ∨ r.tag = Tag.seq

/-- The call of `verify_reply` a pass makes, if it succeeds. -/
def verifies (c : Conn β) (inp : Input β) : Option Verified :=
  match inp.read, c.authorizer with
  | .done (.bytes bs), some a =>
    if c.readCall ≠ none ∧ inp.verifyReply then some ⟨a, c.connectReply, bs⟩ else none
  | _, _ => none

/-- What `verified` is after a pass: forgotten when the pass waits for a reply, set by
`verify_reply`. -/
def verifiedBy (c : Conn β) (v : Option Verified) (inp : Input β) : Option Verified :=
  match c.state with
  | .connectingWaitConnectReply => none
  | .connectingWaitConnectReplyAuth => c.verifies inp
  | _ => v

/-- Once a reply has completed the handshake, the server's proof is there, if the client has an
authorizer. -/
def Proven (v : Option Verified) (c : Conn β) : Prop :=
  c.phase = .connectingWaitAckSeq ∨ c.phase = .connectingReady →
    completes c.connectReply ∧ ∀ a, c.authorizer = some a →
      ∃ bs, v = some ⟨a, c.connectReply, bs⟩ ∧ bs.length = c.connectReply.authorizerLen

variable {enc : Frame → List β} {K : Codec} {flags : CrcFlags}

/-- The fields `Proven` looks at. -/
def proofView (c : Conn β) : State × MsgConnectReply × Option Bytes :=
  (c.phase, c.connectReply, c.authorizer)

theorem Proven.congr {v : Option Verified} {c c' : Conn β} (h : Proven v c)
    (hview : c'.proofView = c.proofView) : Proven v c' := by
  simp only [proofView, Prod.mk.injEq] at hview
  obtain ⟨hphase, hreply, hauth⟩ := hview
  rw [Proven, hphase, hreply, hauth]
  exact h

theorem proven_of_phase {v : Option Verified} {c : Conn β} (hseq : c.phase ≠ .connectingWaitAckSeq)
    (hready : c.phase ≠ .connectingReady) : Proven v c := by
  rintro (h | h)
  · exact absurd h hseq
  · exact absurd h hready

theorem proven_of_state {v : Option Verified} {c : Conn β} {s : State} (hs : c.state = s)
    (hne : s ∉ [State.waitSend, .connectingWaitAckSeq, .connectingReady]) : Proven v c := by
  simp only [List.mem_cons, List.not_mem_nil, or_false, not_or] at hne
  have hphase : c.phase = s := phase_of_state hs hne.1
  exact proven_of_phase (hphase ▸ hne.2.1) (hphase ▸ hne.2.2)

theorem proven_rule (v : Option Verified) : CoreRule enc (Proven (β := β) v) := by
  refine .of_parted (fun c c' hcore h ↦ h.congr ?_) (fun c h ↦ h.congr rfl)
    (fun c _ _ _ _ _ _ h ↦ h.congr rfl) fun c hs ↦ proven_of_state rfl fun hmem ↦ ?_
  · have hview : c'.core.proofView = c.core.proofView := by rw [hcore]
    exact hview
  · simp only [parted, List.mem_cons, List.not_mem_nil, or_false] at hs hmem
    rcases hs with hs | hs | hs | hs <;> rw [hs] at hmem <;> simp at hmem

/-! ## One pass

The states before the reply, the one that reads its authorizer, and those after it. -/

/-- The cleanup after a failed attempt leaves nothing to prove. -/
theorem Proven.cleared {v : Option Verified} {c : Conn β} (h : Proven v c) :
    Proven v ({ c with authorizer := none, gotBadAuth := false } : Conn β) := by
  intro hphase
  refine ⟨(h hphase).1, fun a ha ↦ ?_⟩
  exact absurd ha (by simp)

theorem proven_ite {v : Option Verified} {p : Prop} [Decidable p] {a b : Outcome β}
    (ha : p → Proven v a.conn) (hb : ¬ p → Proven v b.conn) :
    Proven v (if p then a else b).conn := by
  by_cases hp : p
  · rw [if_pos hp]
    exact ha hp
  · rw [if_neg hp]
    exact hb hp

/-- `handle_connect_reply` enters the last states only with a reply that completes the handshake. -/
theorem proven_handleConnectReply {v : Option Verified} {c : Conn β} {inp : Input β}
    (hs : c.state = .connectingWaitConnectReplyAuth)
    (hproof : completes c.connectReply → ∀ a, c.authorizer = some a →
      ∃ bs, v = some ⟨a, c.connectReply, bs⟩ ∧ bs.length = c.connectReply.authorizerLen) :
    Proven v (c.handleConnectReply c.connectReply inp).conn := by
  have hstay : Proven v c := proven_of_state hs (by decide)
  have hback (d : Conn β) (g : ℕ) : Proven v (d.goto .connectingSendConnectMsg g).conn :=
    proven_of_state (s := .connectingSendConnectMsg) rfl (by decide)
  rw [handleConnectReply]
  refine proven_ite (fun _ ↦ hstay) fun _ ↦ ?_
  refine proven_ite (fun _ ↦ proven_ite (fun _ ↦ hstay) fun _ ↦ hback _ _) fun _ ↦ ?_
  refine proven_ite (fun _ ↦ hback _ _) fun _ ↦ ?_
  refine proven_ite (fun _ ↦ hback _ _) fun _ ↦ ?_
  refine proven_ite (fun _ ↦ proven_ite (fun _ ↦ hstay) fun _ ↦ hback _ _) fun _ ↦ ?_
  refine proven_ite (fun _ ↦ proven_of_state (s := .wait) rfl (by decide)) fun _ ↦ ?_
  refine proven_ite (fun htag ↦ proven_ite (fun _ _ ↦ ?_) fun _ ↦ hstay) fun _ ↦ ?_
  · exact ⟨Or.inr htag, hproof (Or.inr htag)⟩
  · refine proven_ite (fun htag ↦ proven_ite (fun _ _ ↦ ?_) fun _ ↦ hstay) fun _ ↦ hstay
    exact ⟨Or.inl htag, hproof (Or.inl htag)⟩

/-- **The check itself.** In the state that reads the server's authorizer, a pass completes the
handshake only after `verify_reply` has succeeded, provided that the server announced one. -/
theorem proven_pass_auth {v : Option Verified} {c : Conn β} {inp : Input β}
    (hs : c.state = .connectingWaitConnectReplyAuth)
    (hsigned : completes c.connectReply → c.authorizer.isSome → c.connectReply.authorizerLen ≠ 0)
    (hread : ∀ chunk, inp.read = .done chunk → ∃ bs, chunk = .bytes bs ∧
      bs.length = c.connectReply.authorizerLen) :
    Proven (c.verifiedBy v inp) (c.pass K flags enc inp).conn := by
  have hstay : Proven (c.verifiedBy v inp) c := proven_of_state hs (by decide)
  have hstate : Proven (c.verifiedBy v inp) (c.processState K flags enc inp).conn := by
    rw [processState_eq (by rw [hs]; rfl) (by rw [hs]; decide), processConnection, hs]
    dsimp only
    refine proven_ite (fun hzero ↦ ?_) fun hpos ↦ proven_ite (fun _ ↦ hstay) fun hfits ↦ ?_
    · refine proven_handleConnectReply hs fun hcomp a ha ↦ ?_
      exact absurd hzero (hsigned hcomp (by rw [ha]; rfl))
    · rw [onRead]
      split
      · exact hstay
      · exact hstay
      · rename_i chunk hchunk
        obtain ⟨bs, rfl, hlen⟩ := hread chunk hchunk
        refine proven_ite (fun _ ↦ hstay) fun hok ↦ proven_handleConnectReply hs fun _ a ha ↦ ?_
        have hverify : inp.verifyReply = true := by simpa [ha] using hok
        have hcall : c.readCall ≠ none := by
          rw [readCall, hs]
          simp only [if_neg hpos, if_neg hfits]
          simp
        refine ⟨bs, ?_, hlen⟩
        rw [verifiedBy, hs]
        simp only [verifies, hchunk, ha, hverify, if_pos (And.intro hcall trivial)]
  simp only [pass]
  split_ifs
  · exact hstate.cleared
  · exact hstate

/-- What the last states of a client's handshake rest on. -/
def lateView (c : Conn β) : MsgConnectReply × Option Bytes × ℕ :=
  (c.connectReply, c.authorizer, c.connectSeq)

/-- The phases after the reply that completes a client's handshake; `STATE_NONE` is not entered. -/
def latePhases : List State := [.connectingWaitAckSeq, .connectingReady, .none]

/-- A move ends in a late phase only if it starts in one, or heeds a reply that completes the
handshake, with all the features the client requires; it then keeps what the phase rests on. -/
theorem late_move {c : Conn β} {inp : Input β} {o : Outcome β} (hlater : c.Later)
    (hmove : Move enc c inp o) (hlate : o.conn.phase ∈ latePhases) :
    o.conn.lateView = c.lateView ∧
      (o.conn.phase = c.phase ∨
        c.phase = .connectingWaitAckSeq ∧ o.conn.phase = .connectingReady ∨
        c.state = .connectingWaitConnectReplyAuth ∧ completes c.connectReply ∧
          featMissing c.policy.featuresRequired c.connectReply.features = 0 ∧
          o.conn.phase ≠ .none) := by
  -- a move that ends elsewhere has nothing to show
  have hno {d : Conn β} {s : State} {P : Prop} (hd : d.phase ∈ latePhases) (hs : d.state = s)
      (hne : s ≠ .waitSend) (hnot : s ∉ latePhases) : P := by
    rw [phase_of_state hs hne] at hd
    exact absurd hd hnot
  cases hmove with
  | waits => exact ⟨rfl, Or.inl rfl⟩
  | flushes hs hout hafter =>
    have hsend : c.stateAfterSend ≠ .waitSend := by
      rcases hlater.afterSend with h | h
      · exact absurd h hafter
      · intro hwait
        rw [hwait] at h
        exact absurd h (by decide)
    refine ⟨rfl, Or.inl ?_⟩
    have hphase : c.phase = c.stateAfterSend := if_pos hs
    rw [hphase]
    exact phase_of_state rfl hsend
  | aborts => exact ⟨rfl, Or.inl rfl⟩
  | fails => exact ⟨rfl, Or.inl rfl⟩
  | dials fd hs hserver hsd =>
    refine hno hlate (s := .connectingWaitBanner) ?_ (by decide) (by decide)
    simp [dial, hserver, hsd, goto]
  | failsDial hs hserver hsd =>
    refine hno hlate (s := .connecting) ?_ (by decide) (by decide)
    simp [dial, hserver, hsd, failed, hs]
  | sends d frames next k evWrite s a hprep hnext =>
    -- only the `in_seq` of a client leads to a late phase by sending
    have henter {P : Prop} (hsend : next ≠ .waitSend) (hnot : next ∉ latePhases) : P := by
      rw [hnext.phase_eq hsend rfl rfl] at hlate
      exact absurd hlate hnot
    cases hprep with
    | banner => exact henter (by decide) (by decide)
    | addr => exact henter (by decide) (by decide)
    | connect => exact henter (by decide) (by decide)
    | seq n hs =>
      exact ⟨rfl, Or.inr (Or.inl ⟨phase_of_state hs (by decide),
        hnext.phase_eq (by decide) rfl rfl⟩)⟩
    | greeting => exact henter (by decide) (by decide)
    | reply _ _ _ hopening =>
      rcases hlater.opening _ _ hopening with rfl | rfl
      · exact henter (by decide) (by decide)
      · exact henter (by decide) (by decide)
  | failsSend d frames next hprep =>
    cases hprep with
    | banner => exact ⟨rfl, Or.inl rfl⟩
    | addr => exact ⟨rfl, Or.inl rfl⟩
    | connect _ _ hs => exact hno hlate (s := .connectingSendConnectMsg) hs (by decide) (by decide)
    | seq => exact ⟨rfl, Or.inl rfl⟩
    | greeting => exact ⟨rfl, Or.inl rfl⟩
    | reply => exact ⟨rfl, Or.inl rfl⟩
  | hears => exact hno hlate (s := .connectingWaitConnectReplyAuth) rfl (by decide) (by decide)
  | heeds d s g hs hheeds =>
    cases hheeds with
    | seq htag hfeat => exact ⟨rfl, Or.inr (Or.inr ⟨hs, Or.inr htag, hfeat, by simp [phase]⟩)⟩
    | ready htag hfeat => exact ⟨rfl, Or.inr (Or.inr ⟨hs, Or.inl htag, hfeat, by simp [phase]⟩)⟩
    | wait => exact hno hlate (s := .wait) rfl (by decide) (by decide)
    | _ => exact hno hlate (s := .connectingSendConnectMsg) rfl (by decide) (by decide)
  | connected hs hseq =>
    refine hno hlate (s := .opened) ?_ (by decide) (by decide)
    simp [connectDone, hseq]
  | identified => exact hno hlate (s := .acceptingWaitConnectMsg) rfl (by decide) (by decide)
  | asked => exact hno hlate (s := .acceptingWaitConnectMsgAuth) rfl (by decide) (by decide)
  | refuses => exact hno hlate (s := .acceptingWaitConnectMsg) rfl (by decide) (by decide)
  | failsReply _ _ _ _ hs =>
    exact hno hlate (s := .acceptingWaitConnectMsgAuth) hs (by decide) (by decide)
  | handsOver => exact hno hlate (state_stop _) (by decide) (by decide)
  | opens p hs =>
    refine hno hlate (s := .acceptingWaitConnectMsgAuth) ?_ (by decide) (by decide)
    simp only [openSession]
    split_ifs <;> exact hs
  | notifies hs => exact hno hlate (s := .acceptingWaitConnectMsgAuth) hs (by decide) (by decide)
  | gotSeq => exact hno hlate (s := .acceptingReady) rfl (by decide) (by decide)
  | accepted => exact hno hlate (s := .opened) rfl (by decide) (by decide)

/-- No other move of the handshake needs the server's proof, and none of them loses it. -/
theorem proven_move {v : Option Verified} {c : Conn β} {inp : Input β} {o : Outcome β}
    (hlater : c.Later) (h : Proven v c) (hauth : c.state ≠ .connectingWaitConnectReplyAuth)
    (hmove : Move enc c inp o) : Proven v o.conn := by
  intro hphase
  have hlate : o.conn.phase ∈ latePhases := by
    rcases hphase with h | h <;> rw [h] <;> decide
  obtain ⟨hview, hfrom⟩ := late_move hlater hmove hlate
  simp only [lateView, Prod.mk.injEq] at hview
  rw [hview.1, hview.2.1]
  rcases hfrom with hsame | ⟨hseq, -⟩ | ⟨hs, -⟩
  · exact h (hsame ▸ hphase)
  · exact h (Or.inl hseq)
  · exact absurd hs hauth

/-- What a pass forgets was not needed yet. -/
theorem Proven.verifiedBy {v : Option Verified} {c : Conn β} (h : Proven v c) (inp : Input β) :
    Proven (c.verifiedBy v inp) c := by
  rw [Conn.verifiedBy]
  split
  · rename_i hs
    exact proven_of_state hs (by decide)
  · rename_i hs
    exact proven_of_state hs (by decide)
  · exact h

theorem proven_pass {v : Option Verified} {c : Conn β} {inp : Input β} (hlater : c.Later)
    (h : Proven v c)
    (hsigned : c.state = .connectingWaitConnectReplyAuth → completes c.connectReply →
      c.authorizer.isSome → c.connectReply.authorizerLen ≠ 0)
    (hread : c.state = .connectingWaitConnectReplyAuth → ∀ chunk, inp.read = .done chunk →
      ∃ bs, chunk = .bytes bs ∧ bs.length = c.connectReply.authorizerLen) :
    Proven (c.verifiedBy v inp) (c.pass K flags enc inp).conn := by
  by_cases hauth : c.state = .connectingWaitConnectReplyAuth
  · exact proven_pass_auth hauth (hsigned hauth) (hread hauth)
  have hkept := h.verifiedBy inp
  rcases pass_cases K flags enc c inp with ⟨hopen, heq⟩ | heq | ⟨-, heq⟩ | ⟨o, hmove, -, -, heq⟩
  · rw [heq]
    have hreads : c.Reads (c.processOpen K flags inp).conn := reads_processOpen hopen
    refine proven_of_state rfl fun hmem ↦ ?_
    simp only [List.mem_cons, List.not_mem_nil, or_false] at hmem
    rcases hmem with hs | hs | hs <;> exact absurd hreads.2 (by rw [hs]; decide)
  · rw [heq]
    exact hkept
  · rw [heq]
    exact proven_of_state (s := .connectingSendConnectMsg) rfl (by decide)
  · have ho := proven_move hlater hkept hauth hmove
    rcases heq with heq | ⟨-, heq⟩
    · rw [heq]
      exact ho
    · rw [heq]
      exact ho.cleared

end Conn

namespace Client

variable {β : Type} {enc : Frame → List β} {K : Codec} {flags : CrcFlags}

open Conn Node

variable (enc K flags) in
/-- One step of a connection that reads from a byte stream, with the history of `verify_reply`. -/
def step (s : Client β) (e : Node.Recv β) : Option (Client β) :=
  (nextRecv enc K flags s.node e).map fun n ↦
    { node := n
      verified := match receive s.node.conn e.2 e.1 with
        | .pass inp => s.node.conn.verifiedBy s.verified inp
        | _ => s.verified }

/-- The reply that completes the handshake of a client with an authorizer announces one of its own. -/
def Signed (s : Client β) (e : Node.Recv β) : Prop :=
  ∀ inp, e.1 = .pass inp → s.node.conn.state = .connectingWaitConnectReplyAuth →
    completes s.node.conn.connectReply → s.node.conn.authorizer.isSome →
    s.node.conn.connectReply.authorizerLen ≠ 0

/-- The invariant of a run whose replies are signed. -/
def Inv (s : Client β) : Prop := s.node.conn.Later ∧ Proven s.verified s.node.conn

/-- The bytes that follow a reply are those it announced. -/
theorem bytes_of_readBytes {c : Conn β} {arrived : Bytes} {chunk : Chunk}
    (hs : c.state = .connectingWaitConnectReplyAuth)
    (h : (c.readBytes arrived).1 = .done chunk) :
    ∃ bs, chunk = .bytes bs ∧ bs.length = c.connectReply.authorizerLen := by
  rw [readBytes, readCall, hs] at h
  simp only [reduceCtorEq, if_false] at h
  split at h
  · exact absurd h (by simp)
  · rename_i target len hcall
    have hlen : c.connectReply.authorizerLen = len := by
      split_ifs at hcall
      simp only [Option.some.injEq, Prod.mk.injEq] at hcall
      exact hcall.2
    split_ifs at h with hshort
    rw [chunkOf, hs, Read.done.injEq] at h
    refine ⟨arrived.take len, h.symm, ?_⟩
    rw [List.length_take, hlen]
    omega

theorem inv_step {s s' : Client β} {e : Node.Recv β} (h : s.Inv) (hsigned : s.Signed e)
    (hstep : s.step enc K flags e = some s') : s'.Inv := by
  rw [step, Option.map_eq_some_iff] at hstep
  obtain ⟨n, hnext, rfl⟩ := hstep
  rw [nextRecv] at hnext
  refine ⟨later_next h.1 hnext, ?_⟩
  dsimp only
  split
  · rename_i inp hpass
    refine next_core (proven_rule _) (h.2.verifiedBy inp) (fun inp' k heq _ ↦ ?_) hnext
    obtain rfl : inp = inp' := by rwa [hpass, Event.pass.injEq] at heq
    obtain ⟨inp₀, he, -, hread⟩ := receive_eq_pass hpass
    refine proven_pass h.1 h.2 (hsigned inp₀ he) fun hs chunk hchunk ↦ ?_
    rcases hread with herror | hread
    · exact absurd (herror.symm.trans hchunk) (by simp)
    · exact bytes_of_readBytes hs (hread.symm.trans hchunk)
  · rename_i hne
    exact next_core (proven_rule _) h.2 (fun inp k heq _ ↦ absurd heq (hne inp)) hnext

variable (enc K flags) in
/-- A step completes the client's handshake: from `STATE_CONNECTING_READY` to `STATE_OPEN`. -/
def Opens (s s' : Client β) : Prop :=
  ∃ e, s.step enc K flags e = some s' ∧ s.node.conn.state = .connectingReady ∧
    s'.node.conn.state = .opened

/-- The READY or SEQ reply that the client opens with was followed by bytes that `verify_reply` has
accepted, if the client has an authorizer. -/
def Authentic (s : Client β) : Prop :=
  completes s.node.conn.connectReply ∧ ∀ a, s.node.conn.authorizer = some a →
    ∃ bs, s.verified = some ⟨a, s.node.conn.connectReply, bs⟩ ∧
      bs.length = s.node.conn.connectReply.authorizerLen

/-- **Mutual authentication.** In every run in which each reply that completes the handshake of a client
with an authorizer announces one of its own, the client opens the session only after `verify_reply`
has succeeded on it. -/
theorem opens_only_verified {n : Node β} {s s' : Client β} {es : List (Node.Recv β)} (hinit : Initial n)
    (hmeets : Run.Meets (step enc K flags) Signed { node := n } es)
    (hrun : Run.exec (step enc K flags) { node := n } es = some s)
    (hopens : Opens enc K flags s s') : s.Authentic := by
  have hinv : s.Inv := by
    refine Run.invariant_of_meets (I := Inv) (fun s e s' h hc hs ↦ inv_step h hc hs) ?_ hmeets hrun
    cases hinit with
    | outgoing policy =>
      exact ⟨later_outgoing _,
        proven_of_state (s := .connecting) rfl (by decide)⟩
    | accepted fd =>
      exact ⟨later_accepted _, proven_of_state (s := .accepting) rfl (by decide)⟩
  obtain ⟨-, -, hs, -⟩ := hopens
  exact hinv.2 (Or.inr (phase_of_state hs (by decide)))

/-- A client with an authorizer of one byte dials and reads a READY reply, followed by `auth`. -/
def readyReply (auth : Bytes) : List (Node.Recv Frame) :=
  [(.process true, []), (.pass { newSd := some ⟨0, .con⟩ }, []), (.pass { kernel := some 1 }, banner),
    (.pass { kernel := some 1 }, List.replicate (sizeofEntityAddr * 2) 0),
    (.pass { kernel := some 1, newAuthorizer := some [1] }, []),
    (.pass {}, ({ tag := Tag.ready, connectSeq := 1, authorizerLen := auth.length } :
      MsgConnectReply).bytes),
    (.pass {}, auth)]

/-- What the statements about `readyReply` look at. -/
def summary (s : Client Frame) : State × MsgConnectReply × Option Bytes × Option Verified :=
  (s.node.conn.state, s.node.conn.connectReply, s.node.conn.authorizer, s.verified)

/-- The frames themselves as output units, the trivial codec, both checksums. -/
abbrev frameStep : Client Frame → Node.Recv Frame → Option (Client Frame) :=
  step (fun f ↦ [f]) Codec.trivial ⟨true, true⟩

/-- A run that ends in `STATE_CONNECTING_READY`, and one more step that opens the session. -/
theorem exists_opens_of_summary {s₀ : Client Frame} {es : List (Node.Recv Frame)} (e : Node.Recv Frame)
    {x : MsgConnectReply × Option Bytes × Option Verified}
    (hfst : (Run.exec frameStep s₀ es).map summary = some (.connectingReady, x))
    (hsnd : (Run.exec frameStep s₀ (es ++ [e])).map (·.node.conn.state) = some .opened) :
    ∃ s s', Run.exec frameStep s₀ es = some s ∧
      Opens (fun f ↦ [f]) Codec.trivial ⟨true, true⟩ s s' ∧ s.summary = (.connectingReady, x) := by
  obtain ⟨s, hrun, hs⟩ := Option.map_eq_some_iff.mp hfst
  rw [Run.exec_append, hrun, Option.bind_some, Option.map_eq_some_iff] at hsnd
  obtain ⟨s', hlast, hs'⟩ := hsnd
  rw [Run.exec_cons, Option.bind_eq_some_iff] at hlast
  obtain ⟨t, hstep, ht⟩ := hlast
  rw [Run.exec_nil, Option.some_inj] at ht
  exact ⟨s, s', hrun, ⟨e, ht ▸ hstep, congrArg Prod.fst hs, hs'⟩, hs⟩

/-- `Signed`, for evaluation. -/
def signedTest (s : Client β) (_ : Node.Recv β) : Bool :=
  s.node.conn.state != .connectingWaitConnectReplyAuth || s.node.conn.connectReply.authorizerLen != 0

theorem signed_of_test {s : Client β} {e : Node.Recv β} (h : s.signedTest e = true) : s.Signed e := by
  intro inp _ hs _ _
  simpa [signedTest, hs] using h

/-- A server that proves itself with four bytes. -/
theorem opens_only_verified_four_bytes :
    ∃ s s', Run.exec frameStep { node := outgoing (Policy.losslessClient 0 0) }
        (readyReply [1, 2, 3, 4]) = some s ∧
      Opens (fun f ↦ [f]) Codec.trivial ⟨true, true⟩ s s' ∧
      s.node.conn.authorizer = some [1] ∧ s.Authentic := by
  have hreply : ∃ s s', Run.exec frameStep { node := outgoing (Policy.losslessClient 0 0) }
        (readyReply [1, 2, 3, 4]) = some s ∧
      Opens (fun f ↦ [f]) Codec.trivial ⟨true, true⟩ s s' ∧
      s.summary = (.connectingReady, { tag := Tag.ready, connectSeq := 1, authorizerLen := 4 },
        some [1], some ⟨[1], { tag := Tag.ready, connectSeq := 1, authorizerLen := 4 },
          [1, 2, 3, 4]⟩) :=
    exists_opens_of_summary (.pass {}, []) (by decide +kernel) (by decide +kernel)
  obtain ⟨s, s', hrun, hopens, hs⟩ := hreply
  have hmeets : Run.Meets frameStep Signed { node := outgoing (Policy.losslessClient 0 0) }
      (readyReply [1, 2, 3, 4]) :=
    Run.Meets.of_check (fun _ _ ↦ signed_of_test) (by decide +kernel)
  exact ⟨s, s', hrun, hopens, congrArg (·.2.2.1) hs,
    opens_only_verified (.outgoing _) hmeets hrun hopens⟩

/-- A server that announces no authorizer is taken at its word: the client opens the session with an
authorizer of its own and without any call of `verify_reply`. -/
theorem opens_unverified_without_authorizer :
    ∃ s s', Run.exec frameStep { node := outgoing (Policy.losslessClient 0 0) } (readyReply []) =
        some s ∧
      Opens (fun f ↦ [f]) Codec.trivial ⟨true, true⟩ s s' ∧
      s.node.conn.authorizer = some [1] ∧ s.verified = none ∧ ¬ s.Authentic := by
  have hreply : ∃ s s', Run.exec frameStep { node := outgoing (Policy.losslessClient 0 0) }
        (readyReply []) = some s ∧
      Opens (fun f ↦ [f]) Codec.trivial ⟨true, true⟩ s s' ∧
      s.summary = (.connectingReady, { tag := Tag.ready, connectSeq := 1, authorizerLen := 0 },
        some [1], none) :=
    exists_opens_of_summary (.pass {}, []) (by decide +kernel) (by decide +kernel)
  obtain ⟨s, s', hrun, hopens, hs⟩ := hreply
  have hauth : s.node.conn.authorizer = some [1] := congrArg (·.2.2.1) hs
  have hnone : s.verified = none := congrArg (·.2.2.2) hs
  refine ⟨s, s', hrun, hopens, hauth, hnone, fun h ↦ ?_⟩
  obtain ⟨bs, hbs, -⟩ := h.2 [1] hauth
  exact absurd (hnone.symm.trans hbs) (by simp)

end Client

end AsyncMessenger
