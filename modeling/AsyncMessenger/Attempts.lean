import AsyncMessenger.Agreement
import AsyncMessenger.Encounter

/-!
# The connections of a race

What a connection can be while two messengers dial each other: an attempt that nobody has answered
yet, the accepted connection that looks at an attempt, and, once the other messenger's registered
connection has the socket, the two ends of the session that is being made.

## Parts

A part that a connection plays is given by its state, by a few of its fields, and by the kinds of
messages it has still to write. `handle_write`, `send_message` and `send_keepalive` may add frames
of the session to what it has to write, and hand a front part of it to the kernel. That this keeps a
connection in its part is shown once for all of them (`Part.kept_of_writeOut`). What is different
from part to part is what the passes do.

## Attempts

An attempt has the `connect_seq` 0 and hears nothing that would change it: the answers of the other
side are all `Mild`, they neither accept the session nor ask for another `connect_seq`, nor for a
reset. A pass keeps it an attempt, and so does a fault, after which it stands by or dials again.

## The dialling end

Once its socket has been taken over by the other messenger's registered connection, an attempt is
asked to try once more, with a `connect_seq` of at most 1, and then answered SEQ or READY
(`Caller`). From there on every pass leads on to the open session.
-/

namespace AsyncMessenger

/-- A reply that leaves an attempt an attempt; it is WAIT only if `w`. -/
structure Mild (w : Prop) (r : MsgConnectReply) : Prop where
  tag : r.tag ∉ [Tag.resetSession, Tag.retrySession, Tag.seq, Tag.ready]
  wait : r.tag = Tag.wait → w

/-- A reply to an attempt that the registered connection has taken over. -/
structure Settling (r : MsgConnectReply) : Prop where
  tag : r.tag ∉ [Tag.resetSession, Tag.wait]
  retry : r.tag = Tag.retrySession → r.connectSeq ≤ 1
  accept : r.tag = Tag.seq ∨ r.tag = Tag.ready → r.connectSeq ≠ 0

theorem Mild.imp {w w' : Prop} {r : MsgConnectReply} (h : Mild w r) (hw : w → w') : Mild w' r :=
  ⟨h.tag, fun hwait ↦ hw (h.wait hwait)⟩

theorem Mild.settling {w : Prop} {r : MsgConnectReply} (h : Mild w r) (hw : ¬ w) : Settling r := by
  obtain ⟨htag, hwait⟩ := h
  simp only [List.mem_cons, List.not_mem_nil, or_false, not_or] at htag
  obtain ⟨hreset, hretry, hseq, hready⟩ := htag
  refine ⟨?_, fun h ↦ absurd h hretry, fun h ↦ (h.elim hseq hready).elim⟩
  simp only [List.mem_cons, List.not_mem_nil, or_false, not_or]
  exact ⟨hreset, fun h ↦ hw (hwait h)⟩

theorem mild_of_mem {w : Prop} {r : MsgConnectReply}
    (h : r.tag ∈ [Tag.badProtoVer, Tag.features, Tag.badAuthorizer, Tag.retryGlobal]) : Mild w r := by
  have hall : ∀ t ∈ [Tag.badProtoVer, Tag.features, Tag.badAuthorizer, Tag.retryGlobal],
      t ∉ [Tag.resetSession, Tag.retrySession, Tag.seq, Tag.ready] ∧ t ≠ Tag.wait := by decide
  exact ⟨(hall _ h).1, fun hwait ↦ absurd hwait (hall _ h).2⟩

/-! ## What the pieces carry

`Carries P Q` is about the handshake messages among the pieces on a wire or in an output. A read
takes something off the front, and what it delivers is of the same kind. -/

/-- Every connect message and every reply among the pieces is of the given kind. -/
structure Carries (P : MsgConnect → Prop) (R : MsgConnectReply → Prop) (l : List Chunk) : Prop where
  asks : ∀ m ∈ asks l, P m
  replies : ∀ r ∈ replies l, R r

namespace Carries

variable {P P' : MsgConnect → Prop} {R R' : MsgConnectReply → Prop} {l l' : List Chunk}

theorem nil : Carries P R [] := ⟨fun _ h ↦ by simp at h, fun _ h ↦ by simp at h⟩

theorem append_iff : Carries P R (l ++ l') ↔ Carries P R l ∧ Carries P R l' := by
  constructor
  · intro h
    refine ⟨⟨fun m hm ↦ h.asks m ?_, fun r hr ↦ h.replies r ?_⟩,
      ⟨fun m hm ↦ h.asks m ?_, fun r hr ↦ h.replies r ?_⟩⟩ <;> simp [*]
  · rintro ⟨h, h'⟩
    constructor
    · intro m hm
      rw [asks_append, List.mem_append] at hm
      exact hm.elim (h.asks m) (h'.asks m)
    · intro r hr
      rw [replies_append, List.mem_append] at hr
      exact hr.elim (h.replies r) (h'.replies r)

theorem split (h : Carries P R l) (k : ℕ) : Carries P R (l.take k) ∧ Carries P R (l.drop k) := by
  rwa [← append_iff, List.take_append_drop]

theorem imp (h : Carries P R l) (hP : ∀ m, P m → P' m) (hR : ∀ r, R r → R' r) : Carries P' R' l :=
  ⟨fun m hm ↦ hP m (h.asks m hm), fun r hr ↦ hR r (h.replies r hr)⟩

theorem of_nil (h : AsyncMessenger.asks l = [] ∧ AsyncMessenger.replies l = []) : Carries P R l := by
  constructor
  · rw [h.1]
    exact fun _ hm ↦ absurd hm (by simp)
  · rw [h.2]
    exact fun _ hr ↦ absurd hr (by simp)

theorem connect {m : MsgConnect} {auth : Bytes} (h : P m) :
    Carries P R ((Frame.connect m auth).chunks) := by
  constructor
  · rw [asks_connect]
    simpa using h
  · rw [replies_connect]
    simp

theorem reply {r : MsgConnectReply} (auth : Bytes) (h : R r) :
    Carries P R ((Frame.reply r auth).chunks) := by
  constructor
  · rw [asks_reply]
    simp
  · rw [replies_reply]
    simpa using h

/-- A read takes something off the front. -/
theorem fetch (h : Carries P R l) (c : Conn Chunk) (arrival : Arrival) :
    Carries P R (c.fetch l arrival).1.chunks ∧ Carries P R (c.fetch l arrival).2 := by
  obtain ⟨hasks, hreplies⟩ := tokens_fetch c l arrival
  refine ⟨⟨fun m hm ↦ h.asks m ?_, fun r hr ↦ h.replies r ?_⟩,
    ⟨fun m hm ↦ h.asks m ?_, fun r hr ↦ h.replies r ?_⟩⟩
  · rw [hasks]
    exact List.mem_append_left _ hm
  · rw [hreplies]
    exact List.mem_append_left _ hr
  · rw [hasks]
    exact List.mem_append_right _ hm
  · rw [hreplies]
    exact List.mem_append_right _ hr

end Carries

/-- The read delivers nothing but messages of the given kind. -/
def Read.Gives (P : MsgConnect → Prop) (R : MsgConnectReply → Prop) (r : Read) : Prop :=
  Carries P R r.chunks

theorem Read.Gives.connect {P : MsgConnect → Prop} {R : MsgConnectReply → Prop} {read : Read}
    {m : MsgConnect} (h : read.Gives P R) (hread : read = .done (.connect m)) : P m := by
  subst hread
  exact h.asks m (by simp [Read.chunks, asks])

theorem Read.Gives.reply {P : MsgConnect → Prop} {R : MsgConnectReply → Prop} {read : Read}
    {r : MsgConnectReply} (h : read.Gives P R) (hread : read = .done (.reply r)) : R r := by
  subst hread
  exact h.replies r (by simp [Read.chunks, replies])

namespace Conn

/-! ## Writing

The fields that writing changes are set aside (`outsideWriting`), and what it does to the output is
to add frames of a session, which carry nothing of the handshake. -/

/-- The connection without what `handle_write`, `send_message` and `send_keepalive` change. -/
def outsideWriting (c : Conn Chunk) : Conn Chunk :=
  { c with
    q := {}
    keepalive := false
    keepaliveAck := false
    inSeqAcked := 0
    evWrite := false
    outcomingBl := [] }

/-- Only frames of the session have been added to the output. -/
def Adds (c c' : Conn Chunk) : Prop :=
  c'.outsideWriting = c.outsideWriting ∧
    ∃ l, asks l = [] ∧ replies l = [] ∧ c'.outcomingBl = c.outcomingBl ++ l

section Adds

variable {K : Codec} {flags : CrcFlags} {c c' c'' : Conn Chunk}

/-- What writing does not look at, it does not change. -/
theorem eq_of_outsideWriting {α : Type*} (f : Conn Chunk → α)
    (hf : ∀ c : Conn Chunk, f c.outsideWriting = f c) (hview : c'.outsideWriting = c.outsideWriting) :
    f c' = f c := by
  rw [← hf c', hview, hf c]

theorem Adds.refl (c : Conn Chunk) : c.Adds c := ⟨rfl, [], rfl, rfl, (List.append_nil _).symm⟩

theorem Adds.trans (h : c.Adds c') (h' : c'.Adds c'') : c.Adds c'' := by
  obtain ⟨hview, l, hasks, hreplies, hout⟩ := h
  obtain ⟨hview', l', hasks', hreplies', hout'⟩ := h'
  refine ⟨hview'.trans hview, l ++ l', ?_, ?_, ?_⟩
  · rw [asks_append, hasks, hasks', List.append_nil]
  · rw [replies_append, hreplies, hreplies', List.append_nil]
  · rw [hout', hout, List.append_assoc]

/-- A frame of the session is put at the end of the output. -/
theorem adds_frame (f : Frame) (hf : f.ofSession = true) (hview : c'.outsideWriting = c.outsideWriting)
    (hout : c'.outcomingBl = c.outcomingBl ++ f.chunks) : c.Adds c' :=
  ⟨hview, f.chunks, (tokens_of_ofSession hf).1, (tokens_of_ofSession hf).2, hout⟩

theorem adds_sendKeepalive (c : Conn Chunk) : c.Adds (c.sendKeepalive Frame.chunks) := by
  rw [sendKeepalive]
  split_ifs
  · rw [sendKeepaliveOrAck, setAction_eq]
    exact adds_frame .keepalive2 rfl rfl rfl
  · exact .refl c

theorem adds_sendKeepaliveAck (c : Conn Chunk) : c.Adds (c.sendKeepaliveAck Frame.chunks) := by
  rw [sendKeepaliveAck]
  split_ifs
  · rw [sendKeepaliveOrAck, setAction_eq]
    exact adds_frame .keepalive2Ack rfl rfl rfl
  · exact .refl c

theorem adds_send (c : Conn Chunk) (m : Message) (q : SendQueue) :
    c.Adds (({ c with q } : Conn Chunk).send K flags Frame.chunks m) :=
  adds_frame (.msg (((q.number c.policy.lossy m).1).encode K flags c.features)) rfl rfl rfl

theorem adds_sendSome (c : Conn Chunk) (n : ℕ) : c.Adds (c.sendSome K flags n) := by
  induction n generalizing c with
  | zero => exact .refl c
  | succ n ih =>
    rw [sendSome]
    split
    · exact .refl c
    · exact (adds_send c _ _).trans (ih _)

theorem adds_sendAck (c : Conn Chunk) : c.Adds c.sendAck := by
  rw [sendAck]
  split_ifs
  · exact adds_frame (.ack c.inSeq) rfl rfl rfl
  · exact .refl c

/-- `handle_write` adds frames of the session and hands a front part of the output to the kernel. -/
theorem writeOut_cases (K : Codec) (flags : CrcFlags) (c : Conn Chunk) (n : ℕ)
    (kernel : Option ℕ) :
    (c.writeOut K flags n kernel).left = none ∨
    ∃ (l : List Chunk) (k : ℕ), asks l = [] ∧ replies l = [] ∧
      (c.writeOut K flags n kernel).conn.outsideWriting = c.outsideWriting ∧
      (c.writeOut K flags n kernel).conn.outcomingBl = (c.outcomingBl ++ l).drop k ∧
      (c.writeOut K flags n kernel).wrote = (c.outcomingBl ++ l).take k := by
  have hsend {c' : Conn Chunk} (h : c.Adds c') : (c'.trySend [] kernel).left = none ∨
      ∃ (l : List Chunk) (k : ℕ), asks l = [] ∧ replies l = [] ∧
        (c'.trySend [] kernel).conn.outsideWriting = c.outsideWriting ∧
        (c'.trySend [] kernel).conn.outcomingBl = (c.outcomingBl ++ l).drop k ∧
        (c'.trySend [] kernel).wrote = (c.outcomingBl ++ l).take k := by
    obtain ⟨hview, l, hasks, hreplies, hout⟩ := h
    rcases c'.trySend_cases [] kernel with heq | ⟨k, b, heq⟩
    · rw [heq]
      exact Or.inl rfl
    · rw [heq]
      refine Or.inr ⟨l, k, hasks, hreplies, hview, ?_, ?_⟩
      · dsimp only
        rw [hout, List.append_nil]
      · dsimp only
        rw [hout, List.append_nil]
  rw [writeOut]
  split_ifs
  · exact hsend ((adds_sendKeepalive c).trans ((adds_sendKeepaliveAck _).trans
      ((adds_sendSome _ n).trans (adds_sendAck _))))
  · exact hsend (.refl c)
  · exact Or.inr ⟨[], 0, rfl, rfl, rfl, (List.append_nil _).symm, rfl⟩

/-- A message is queued: a connection that stands by dials. -/
theorem enqueue_cases (c : Conn Chunk) (m : Message) :
    c.Adds (c.enqueue m) ∨ c.state = .standby ∧ c.policy.server = false ∧
      ∃ q, c.enqueue m = { c with q, state := .connecting, evProcess := true } := by
  rw [enqueue]
  by_cases hgone : c.stopping = true ∨ c.state = .closed
  · rw [if_pos hgone]
    exact Or.inl (.refl c)
  · rw [if_neg hgone]
    dsimp only
    by_cases hstandby : c.state = .standby ∧ (!c.policy.server) = true
    · rw [if_pos hstandby]
      exact Or.inr ⟨hstandby.1, by simpa using hstandby.2, c.q.push m, rfl⟩
    · rw [if_neg hstandby, startWrite_eq]
      exact Or.inl ⟨rfl, [], rfl, rfl, (List.append_nil _).symm⟩

theorem adds_askKeepalive (c : Conn Chunk) : c.Adds c.askKeepalive := by
  rw [askKeepalive]
  split_ifs
  · exact .refl c
  · rw [startWrite_eq]
    exact ⟨rfl, [], rfl, rfl, (List.append_nil _).symm⟩

end Adds

/-- A part `I` that a connection plays in a race: what it has still to write are messages of the kinds `P`
and `R`, and beside that it does not depend on anything that writing changes. -/
structure Part (I : Conn Chunk → Prop) (P : MsgConnect → Prop) (R : MsgConnectReply → Prop) : Prop where
  output : ∀ {c}, I c → Carries P R c.outcomingBl
  of_view : ∀ {c c'}, I c → c'.outsideWriting = c.outsideWriting → Carries P R c'.outcomingBl → I c'

namespace Part

variable {I : Conn Chunk → Prop} {P : MsgConnect → Prop} {R : MsgConnectReply → Prop} {c c' : Conn Chunk}

theorem adds (hpart : Part I P R) (h : I c) (hadds : c.Adds c') : I c' := by
  obtain ⟨hview, l, hasks, hreplies, hout⟩ := hadds
  apply hpart.of_view h hview
  rw [hout]
  exact Carries.append_iff.mpr ⟨hpart.output h, .of_nil ⟨hasks, hreplies⟩⟩

/-- **`handle_write`** keeps a connection in its part, and writes what the part allows. -/
theorem kept_of_writeOut {K : Codec} {flags : CrcFlags} {n : ℕ} {kernel : Option ℕ} (hpart : Part I P R)
    (h : I c) (hleft : (c.writeOut K flags n kernel).left ≠ none) :
    I (c.writeOut K flags n kernel).conn ∧
      (c.writeOut K flags n kernel).conn.outsideWriting = c.outsideWriting ∧
      Carries P R (c.writeOut K flags n kernel).wrote := by
  rcases writeOut_cases K flags c n kernel with hnone |
    ⟨l, k, hasks, hreplies, hview, hout, hwrote⟩
  · exact absurd hnone hleft
  · obtain ⟨htake, hdrop⟩ :=
      (Carries.append_iff.mpr ⟨hpart.output h, .of_nil (l := l) ⟨hasks, hreplies⟩⟩).split k
    rw [hwrote]
    exact ⟨hpart.of_view h hview (hout ▸ hdrop), hview, htake⟩

end Part

/-! ## An attempt

The moves of an attempt, case by case. It stays one in all of them; a WAIT makes it wait, and the
fault that follows makes it stand by. -/

/-- The states of an attempt that nobody has answered. -/
def attemptPhases : List State :=
  [.connecting, .connectingWaitBanner, .connectingWaitIdentifyPeer, .connectingSendConnectMsg,
    .connectingWaitConnectReply, .connectingWaitConnectReplyAuth]

/-- An attempt that nobody has answered, except perhaps with WAIT if `w`. -/
structure Attempt (c : Conn Chunk) (w : Prop) : Prop where
  lossless : c.policy.lossy = false ∧ c.policy.server = false
  running : c.stopping = false ∧ c.opening = none
  connectSeq : c.connectSeq = 0
  claimed : c.replacing ≤ 1
  place : c.phase ∈ attemptPhases ∨ w ∧ (c.phase = .wait ∨ c.phase = .standby)
  idle : c.sd ≠ none → c.phase ≠ .connecting ∧ c.phase ≠ .standby
  heard : c.phase = .connectingWaitConnectReplyAuth → Mild w c.connectReply
  output : Carries (fun m ↦ m.connectSeq = 0) (fun _ ↦ True) c.outcomingBl

/-- What `handle_connect_msg` leaves behind in a connection that is to be replaced. -/
def charge (c : Conn Chunk) : ℕ × Option Fd × MsgConnect × Bool :=
  (c.replacing, c.replacingSd, c.replacingConnect, c.replacingResetSession)

/-- The fields `Attempt` looks at, beside the state. -/
def attemptView (c : Conn Chunk) : Option Fd × Policy × Bool × Option (List Frame × State) × ℕ × ℕ :=
  (c.sd, c.policy, c.stopping, c.opening, c.connectSeq, c.replacing)

namespace Attempt

variable {c : Conn Chunk} {w : Prop}

theorem imp {w' : Prop} (h : c.Attempt w) (hw : w → w') : c.Attempt w' where
  lossless := h.lossless
  running := h.running
  connectSeq := h.connectSeq
  claimed := h.claimed
  place := h.place.imp_right fun hp ↦ ⟨hw hp.1, hp.2⟩
  idle := h.idle
  heard hs := (h.heard hs).imp hw
  output := h.output

theorem not_state (h : c.Attempt w) {s : State} (hs : c.state = s)
    (hno : s ≠ .waitSend ∧ s ∉ attemptPhases ∧ s ≠ .wait ∧ s ≠ .standby) : False := by
  have hplace := h.place
  rw [phase_of_state hs hno.1] at hplace
  rcases hplace with hmem | ⟨-, hwait | hstandby⟩
  · exact hno.2.1 hmem
  · exact hno.2.2.1 hwait
  · exact hno.2.2.2 hstandby

/-- Only a few fields matter. -/
theorem congr {c' : Conn Chunk} (h : c.Attempt w) (hview : c'.attemptView = c.attemptView)
    (hphase : c'.phase = c.phase) (hreply : c'.connectReply = c.connectReply)
    (hout : Carries (fun m ↦ m.connectSeq = 0) (fun _ ↦ True) c'.outcomingBl) : c'.Attempt w := by
  simp only [attemptView, Prod.mk.injEq] at hview
  obtain ⟨hsd, hpolicy, hstopping, hopening, hseq, hreplacing⟩ := hview
  constructor
  · rw [hpolicy]
    exact h.lossless
  · rw [hstopping, hopening]
    exact h.running
  · exact hseq.trans h.connectSeq
  · exact hreplacing.trans_le h.claimed
  · rw [hphase]
    exact h.place
  · rw [hsd, hphase]
    exact h.idle
  · rw [hphase, hreply]
    exact h.heard
  · exact hout

/-- An attempt that has gone on to another state is still an attempt. -/
theorem reach {c' : Conn Chunk} {s : State} (h : c.Attempt w) (hview : c'.attemptView = c.attemptView)
    (hphase : c'.phase = s) (hs : s ∈ attemptPhases ∧ s ≠ .connecting ∨ s = .wait ∧ w)
    (hheard : s = .connectingWaitConnectReplyAuth → Mild w c'.connectReply)
    (hout : Carries (fun m ↦ m.connectSeq = 0) (fun _ ↦ True) c'.outcomingBl) : c'.Attempt w := by
  simp only [attemptView, Prod.mk.injEq] at hview
  obtain ⟨-, hpolicy, hstopping, hopening, hseq, hreplacing⟩ := hview
  refine ⟨?_, ?_, hseq.trans h.connectSeq, hreplacing.trans_le h.claimed, ?_, fun _ ↦ ?_,
    fun hp ↦ hheard (hphase.symm.trans hp), hout⟩
  · rw [hpolicy]
    exact h.lossless
  · rw [hstopping, hopening]
    exact h.running
  · rw [hphase]
    exact hs.imp And.left fun hs ↦ ⟨hs.2, Or.inl hs.1⟩
  · rw [hphase]
    rcases hs with ⟨hmem, hne⟩ | ⟨rfl, -⟩
    · refine ⟨hne, ?_⟩
      rintro rfl
      exact absurd hmem (by decide)
    · decide

/-- Output that is partly written. -/
theorem output_split (h : c.Attempt w) (frames : List Chunk)
    (hframes : Carries (fun m ↦ m.connectSeq = 0) (fun _ ↦ True) frames) (k : ℕ) :
    Carries (fun m ↦ m.connectSeq = 0) (fun _ ↦ True) ((c.outcomingBl ++ frames).take k) ∧
      Carries (fun m ↦ m.connectSeq = 0) (fun _ ↦ True) ((c.outcomingBl ++ frames).drop k) :=
  (Carries.append_iff.mpr ⟨h.output, hframes⟩).split k

/-- What a pass of an attempt leaves behind. -/
structure Kept (c : Conn Chunk) (w : Prop) (o : Outcome Chunk) : Prop where
  attempt : o.conn.Attempt w
  sd : o.conn.sd = c.sd
  charge : o.conn.charge = c.charge
  wrote : Carries (fun m ↦ m.connectSeq = 0) (fun _ ↦ True) o.wrote

/-- **One move of an attempt** keeps it an attempt. -/
theorem kept_of_move {inp : Input Chunk} {o : Outcome Chunk} (h : c.Attempt w)
    (hmove : Move Frame.chunks c inp o) (hconnecting : c.state ≠ .connecting)
    (hread : inp.read.Gives (fun _ ↦ True) (Mild w)) (hfail : o.flow ≠ .fail)
    (habort : o.flow ≠ .abort) : Kept c w o := by
  cases hmove with
  | waits evRead => exact ⟨h.congr rfl rfl rfl h.output, rfl, rfl, .nil⟩
  | flushes hs hout hafter =>
    refine ⟨h.congr rfl ?_ rfl h.output, rfl, rfl, .nil⟩
    have hphase : c.phase = c.stateAfterSend := if_pos hs
    rw [hphase]
    refine phase_of_state rfl fun hsend ↦ ?_
    -- what has been sent does not lead to `STATE_WAIT_SEND` again
    have hplace := h.place
    rw [hphase, hsend] at hplace
    rcases hplace with hmem | ⟨-, hp | hp⟩
    · exact absurd hmem (by decide)
    · exact absurd hp (by decide)
    · exact absurd hp (by decide)
  | aborts htrips => exact absurd rfl habort
  | fails => exact absurd rfl hfail
  | dials fd hs => exact absurd hs hconnecting
  | failsDial hs => exact absurd hs hconnecting
  | sends d frames next k evWrite s a hprep hnext =>
    cases hprep with
    | banner hs =>
      obtain ⟨hwrote, hout⟩ := h.output_split ([Frame.banner].flatMap Frame.chunks)
        (.of_nil ⟨rfl, rfl⟩) k
      exact ⟨h.reach rfl (hnext.phase_eq (by decide) rfl rfl) (Or.inl (by decide))
        (fun hp ↦ absurd hp (by decide)) hout, rfl, rfl, hwrote⟩
    | addr hs =>
      obtain ⟨hwrote, hout⟩ := h.output_split ([Frame.addr].flatMap Frame.chunks)
        (.of_nil ⟨rfl, rfl⟩) k
      exact ⟨h.reach rfl (hnext.phase_eq (by decide) rfl rfl) (Or.inl (by decide))
        (fun hp ↦ absurd hp (by decide)) hout, rfl, rfl, hwrote⟩
    | connect auth m hs hseq =>
      obtain ⟨hwrote, hout⟩ := h.output_split
        ([Frame.connect m (auth.getD [])].flatMap Frame.chunks) (by
          rw [List.flatMap_singleton]
          exact .connect (hseq.trans h.connectSeq)) k
      exact ⟨h.reach rfl (hnext.phase_eq (by decide) rfl rfl) (Or.inl (by decide))
        (fun hp ↦ absurd hp (by decide)) hout, rfl, rfl, hwrote⟩
    | seq n hs => exact (h.not_state hs (by decide)).elim
    | greeting hs => exact (h.not_state hs (by decide)).elim
    | reply frames next hs => exact (h.not_state hs (by decide)).elim
  | failsSend => exact absurd rfl hfail
  | hears r hs hr =>
    exact ⟨h.reach (s := .connectingWaitConnectReplyAuth) rfl (phase_of_state rfl (by decide))
      (Or.inl (by decide)) (fun _ ↦ hread.reply hr) h.output, rfl, rfl, .nil⟩
  | heeds d s g hs hheeds =>
    have hmild := h.heard (phase_of_state hs (by decide))
    have hask (c' : Conn Chunk) (hview : c'.attemptView = c.attemptView)
        (hout : c'.outcomingBl = c.outcomingBl) (hs' : c'.state = .connectingSendConnectMsg) :
        c'.Attempt w := by
      refine h.reach hview (phase_of_state hs' (by decide)) (Or.inl (by decide))
        (fun hp ↦ absurd hp (by decide)) ?_
      rw [hout]
      exact h.output
    cases hheeds with
    | badAuthorizer htag => exact ⟨hask _ rfl rfl rfl, rfl, rfl, .nil⟩
    | resetSession htag => exact absurd (htag ▸ hmild.tag) (by decide)
    | retryGlobal htag => exact ⟨hask _ rfl rfl rfl, rfl, rfl, .nil⟩
    | retrySession htag hseq => exact absurd (htag ▸ hmild.tag) (by decide)
    | wait htag =>
      exact ⟨h.reach (s := .wait) rfl (phase_of_state rfl (by decide))
        (Or.inr ⟨rfl, hmild.wait htag⟩) (fun hp ↦ absurd hp (by decide)) h.output, rfl, rfl, .nil⟩
    | seq htag => exact absurd (htag ▸ hmild.tag) (by decide)
    | ready htag => exact absurd (htag ▸ hmild.tag) (by decide)
  | connected hs => exact (h.not_state hs (by decide)).elim
  | identified hs => exact (h.not_state hs (by decide)).elim
  | asked m hs => exact (h.not_state hs (by decide)).elim
  | refuses p tag reply auth effect r k evWrite hs => exact (h.not_state hs (by decide)).elim
  | failsReply => exact absurd rfl hfail
  | handsOver p e reset fromPeer hs => exact (h.not_state hs (by decide)).elim
  | opens p hs => exact (h.not_state hs (by decide)).elim
  | notifies hs => exact (h.not_state hs (by decide)).elim
  | gotSeq n hs => exact (h.not_state hs (by decide)).elim
  | accepted hs => exact (h.not_state hs (by decide)).elim

variable {K : Codec} {flags : CrcFlags}

theorem not_isOpen (h : c.Attempt w) : c.state.isOpen = false := by
  have hopen {s : State} (hs : s.isOpen = true) :
      s ≠ .waitSend ∧ s ∉ attemptPhases ∧ s ≠ .wait ∧ s ≠ .standby := by
    revert hs
    cases s <;> decide
  rw [← Bool.not_eq_true]
  exact fun hs ↦ h.not_state rfl (hopen hs)

/-- **One pass of an attempt** that has dialled. -/
theorem kept_of_pass {inp : Input Chunk} (h : c.Attempt w) (hconnecting : c.state ≠ .connecting)
    (hread : inp.read.Gives (fun _ ↦ True) (Mild w))
    (hfail : (c.pass K flags Frame.chunks inp).flow ≠ .fail)
    (habort : (c.pass K flags Frame.chunks inp).flow ≠ .abort) :
    Kept c w (c.pass K flags Frame.chunks inp) := by
  refine pass_of_moves (Q := Kept c w) (fun hopen ↦ ?_) ⟨h, rfl, rfl, .nil⟩
    (fun o hmove _ ↦ h.kept_of_move hmove hconnecting hread) hfail habort
  rw [h.not_isOpen] at hopen
  exact absurd hopen (by decide)

/-- In `STATE_CONNECTING` a pass does nothing but dial. -/
theorem pass_of_connecting {inp : Input Chunk} (hs : c.state = .connecting) :
    c.pass K flags Frame.chunks inp = c.dial inp := by
  have hstate : c.processState K flags Frame.chunks inp = c.dial inp := by
    rw [processState, if_neg (by rw [hs]; decide), hs]
    show c.processConnection Frame.chunks inp = c.dial inp
    rw [processConnection, hs]
  simp only [pass, hstate]
  rw [if_neg]
  rintro ⟨-, hcode, -⟩
  rw [hs] at hcode
  exact absurd hcode (by decide)

/-- A dialling pass. -/
theorem kept_of_dial {inp : Input Chunk} (h : c.Attempt w) (hs : c.state = .connecting)
    (hfail : (c.pass K flags Frame.chunks inp).flow ≠ .fail) :
    ∃ fd, inp.newSd = some fd ∧ (c.pass K flags Frame.chunks inp).conn.Attempt w ∧
      (c.pass K flags Frame.chunks inp).conn.sd = some fd ∧
      (c.pass K flags Frame.chunks inp).conn.charge = c.charge := by
  rw [pass_of_connecting hs] at hfail ⊢
  cases hsd : inp.newSd with
  | none =>
    refine absurd ?_ hfail
    simp only [dial, h.lossless.2, hsd]
    rfl
  | some fd =>
    have hdial : c.dial inp = ({ c with
        gotBadAuth := false
        authorizer := none
        connectMsg := {}
        connectReply := {}
        globalSeq := getGlobalSeq inp.gseq 0
        sd := some fd
        evRead := true
        evWrite := false } : Conn Chunk).goto .connectingWaitBanner (getGlobalSeq inp.gseq 0) := by
      simp only [dial, h.lossless.2, hsd]
      rfl
    rw [hdial]
    refine ⟨fd, rfl, ?_, rfl, rfl⟩
    have hphase (c' : Conn Chunk) (hs' : c'.state = .connectingWaitBanner) :
        c'.phase = .connectingWaitBanner := phase_of_state hs' (by decide)
    refine ⟨h.lossless, h.running, h.connectSeq, h.claimed, Or.inl ?_, fun _ ↦ ?_, fun hp ↦ ?_, h.output⟩
    · rw [hphase _ rfl]
      decide
    · rw [hphase _ rfl]
      decide
    · rw [hphase _ rfl] at hp
      exact absurd hp (by decide)

/-- The fault of an attempt that has been answered WAIT: it stands by, or dials again. -/
theorem fault (h : c.Attempt w) (hw : w) (hs : c.state = .connectingSendConnectMsg) :
    c.fault.Attempt w ∧ c.fault.sd = none ∧ c.fault.replacing = 0 := by
  have hfault : c.fault = c.faultRetry := by
    rw [Conn.fault, if_neg (by rw [hs]; decide), if_neg]
    rw [faultStops, h.lossless.1]
    simp
  have hreach (c' : Conn Chunk) (hsd : c'.sd = none) (hrepl : c'.replacing = 0)
      (hpolicy : c'.policy = c.policy) (hrun : c'.stopping = c.stopping ∧ c'.opening = c.opening)
      (hseq : c'.connectSeq = c.connectSeq) (hout : c'.outcomingBl = [])
      (hstate : c'.state = .connecting ∨ c'.state = .standby) : c'.Attempt w := by
    have hphase : c'.phase = c'.state := by
      apply phase_of_state rfl
      rcases hstate with hs' | hs' <;> rw [hs'] <;> decide
    refine ⟨?_, ?_, hseq.trans h.connectSeq, hrepl.trans_le (Nat.zero_le 1), ?_, fun hne ↦ absurd hsd hne,
      fun hp ↦ ?_, ?_⟩
    · rw [hpolicy]
      exact h.lossless
    · rw [hrun.1, hrun.2]
      exact h.running
    · rw [hphase]
      rcases hstate with hs' | hs'
      · exact Or.inl (by rw [hs']; decide)
      · exact Or.inr ⟨hw, Or.inr hs'⟩
    · rw [hphase] at hp
      rcases hstate with hs' | hs' <;> rw [hs'] at hp <;> exact absurd hp (by decide)
    · rw [hout]
      exact .nil
  rw [hfault, faultRetry, hs]
  dsimp only
  split_ifs with h1 h2 h3
  · exact ⟨hreach _ rfl rfl rfl ⟨rfl, rfl⟩ rfl rfl (Or.inr rfl), rfl, rfl⟩
  · exact absurd h2 (by decide)
  · exact absurd h2 (by decide)
  · exact ⟨hreach _ rfl rfl rfl ⟨rfl, rfl⟩ rfl rfl (Or.inl rfl), rfl, rfl⟩

theorem part : Part (fun c ↦ c.Attempt w) (fun m ↦ m.connectSeq = 0) (fun _ ↦ True) where
  output h := h.output
  of_view h hview hout := h.congr (eq_of_outsideWriting attemptView (fun _ ↦ rfl) hview)
    (eq_of_outsideWriting phase (fun _ ↦ rfl) hview)
    (eq_of_outsideWriting Conn.connectReply (fun _ ↦ rfl) hview) hout

/-- `send_message` on an attempt that stands by makes it dial. -/
theorem enqueue (h : c.Attempt w) (m : Message) :
    (c.enqueue m).Attempt w ∧ (c.enqueue m).sd = c.sd ∧ (c.enqueue m).charge = c.charge := by
  rcases c.enqueue_cases m with hadds | ⟨hs, -, q, heq⟩
  · exact ⟨part.adds h hadds, eq_of_outsideWriting Conn.sd (fun _ ↦ rfl) hadds.1,
      eq_of_outsideWriting charge (fun _ ↦ rfl) hadds.1⟩
  · have hsd : c.sd = none := by
      by_contra hne
      exact (h.idle hne).2 (phase_of_state hs (by decide))
    have hphase (c' : Conn Chunk) (hs' : c'.state = .connecting) : c'.phase = .connecting :=
      phase_of_state hs' (by decide)
    rw [heq]
    refine ⟨⟨h.lossless, h.running, h.connectSeq, h.claimed, Or.inl ?_, fun hne ↦ absurd hsd hne,
      fun hp ↦ ?_, h.output⟩, rfl, rfl⟩
    · rw [hphase _ rfl]
      decide
    · rw [hphase _ rfl] at hp
      exact absurd hp (by decide)

end Attempt

/-! ## The dialling end of a session

The same for the dialling end, with fewer answers that can come, and with the open session at the
end of its states. -/

/-- The states of the dialling end, once the registered connection of the other messenger has the
accepting one. -/
def callerPhases : List State :=
  [.connectingWaitBanner, .connectingWaitIdentifyPeer, .connectingSendConnectMsg,
    .connectingWaitConnectReply, .connectingWaitConnectReplyAuth, .connectingWaitAckSeq,
    .connectingReady]

/-- The dialling end of a session that is being made, or has been made. -/
structure Caller (c : Conn Chunk) : Prop where
  lossless : c.state.isOpen = false → c.policy.lossy = false ∧ c.policy.server = false
  unclaimed : c.replacing = 0
  place : c.phase ∈ callerPhases ∨ c.state.isOpen = true
  connectSeq : c.state.isOpen = false → c.connectSeq ≤ 1
  opened : c.state.isOpen = true → c.connectSeq ≠ 0
  heard : c.phase = .connectingWaitConnectReplyAuth → Settling c.connectReply
  accepted : c.phase = .connectingWaitAckSeq ∨ c.phase = .connectingReady →
    c.connectReply.connectSeq ≠ 0
  output : Carries (fun m ↦ m.connectSeq ≤ 1) (fun _ ↦ True) c.outcomingBl

/-- An attempt whose socket has been taken over. -/
theorem Attempt.caller {c : Conn Chunk} (h : c.Attempt False) (hsd : c.sd ≠ none)
    (hrepl : c.replacing = 0) : c.Caller := by
  obtain ⟨hconnecting, -⟩ := h.idle hsd
  have hplace : c.phase ∈ callerPhases ∧ c.phase ≠ .connectingWaitAckSeq ∧
      c.phase ≠ .connectingReady := by
    have hmem := h.place.resolve_right And.left
    revert hmem hconnecting
    generalize c.phase = s
    cases s <;> decide
  refine ⟨fun _ ↦ h.lossless, hrepl, Or.inl hplace.1, fun _ ↦ h.connectSeq.trans_le (Nat.zero_le 1),
    fun hopen ↦ ?_, fun hp ↦ (h.heard hp).settling id, fun hp ↦ ?_, ?_⟩
  · rw [h.not_isOpen] at hopen
    exact absurd hopen (by decide)
  · exact (hp.elim hplace.2.1 hplace.2.2).elim
  · exact h.output.imp (fun m hm ↦ hm.trans_le (Nat.zero_le 1)) fun _ hr ↦ hr

namespace Caller

variable {c : Conn Chunk} {K : Codec} {flags : CrcFlags}

theorem not_state (h : c.Caller) {s : State} (hs : c.state = s)
    (hno : s ≠ .waitSend ∧ s ∉ callerPhases ∧ s.isOpen = false) : False := by
  have hplace := h.place
  rw [phase_of_state hs hno.1, hs] at hplace
  rcases hplace with hmem | hopen
  · exact hno.2.1 hmem
  · rw [hno.2.2] at hopen
    exact absurd hopen (by decide)

/-- The dialling end in another state of the handshake. -/
theorem reach {c' : Conn Chunk} {s : State} (h : c.Caller) (hopen : c.state.isOpen = false)
    (hopen' : c'.state.isOpen = false) (hsame : c'.policy = c.policy ∧ c'.replacing = c.replacing)
    (hphase : c'.phase = s) (hs : s ∈ callerPhases) (hseq : c'.connectSeq ≤ 1)
    (hheard : s = .connectingWaitConnectReplyAuth → Settling c'.connectReply)
    (haccepted : s = .connectingWaitAckSeq ∨ s = .connectingReady → c'.connectReply.connectSeq ≠ 0)
    (hout : Carries (fun m ↦ m.connectSeq ≤ 1) (fun _ ↦ True) c'.outcomingBl) : c'.Caller where
  lossless _ := by
    rw [hsame.1]
    exact h.lossless hopen
  unclaimed := hsame.2.trans h.unclaimed
  place := Or.inl (hphase ▸ hs)
  connectSeq _ := hseq
  opened ho := absurd (hopen'.symm.trans ho) (by decide)
  heard hp := hheard (hphase.symm.trans hp)
  accepted hp := haccepted (hphase ▸ hp)
  output := hout

/-- The dialling end of an open session. -/
theorem of_isOpen {c' : Conn Chunk} (hopen : c'.state.isOpen = true) (hrepl : c'.replacing = 0)
    (hseq : c'.connectSeq ≠ 0) (hout : Carries (fun m ↦ m.connectSeq ≤ 1) (fun _ ↦ True) c'.outcomingBl) :
    c'.Caller := by
  have hphase : c'.phase = c'.state := phase_of_state rfl fun hs ↦ by
    rw [hs] at hopen
    exact absurd hopen (by decide)
  have hnot (s : State) (hs : s.isOpen = false) : c'.phase ≠ s := by
    rintro rfl
    rw [hphase, hopen] at hs
    exact absurd hs (by decide)
  refine ⟨fun ho ↦ ?_, hrepl, Or.inr hopen, fun ho ↦ ?_, fun _ ↦ hseq, fun hp ↦ absurd hp (hnot _ rfl),
    fun hp ↦ ?_, hout⟩
  · exact absurd (hopen.symm.trans ho) (by decide)
  · exact absurd (hopen.symm.trans ho) (by decide)
  · exact (hp.elim (hnot _ rfl) (hnot _ rfl)).elim

/-- What a pass of the dialling end leaves behind. -/
structure Kept (c : Conn Chunk) (o : Outcome Chunk) : Prop where
  caller : o.conn.Caller
  sd : o.conn.sd = c.sd
  wrote : Carries (fun m ↦ m.connectSeq ≤ 1) (fun _ ↦ True) o.wrote

/-- A sending state of the dialling end. -/
theorem kept_of_sends {d : Conn Chunk} {frames : List Frame} {next s a : State} {k g : ℕ} {b : Bool}
    (h : c.Caller) (hopen : c.state.isOpen = false)
    (hd : d.policy = c.policy ∧ d.replacing = c.replacing ∧ d.connectSeq = c.connectSeq ∧
      d.connectReply = c.connectReply ∧ d.outcomingBl = c.outcomingBl ∧ d.sd = c.sd)
    (hframes : Carries (fun m ↦ m.connectSeq ≤ 1) (fun _ ↦ True) (frames.flatMap Frame.chunks))
    (hmem : next ∈ callerPhases ∧ next ≠ .connectingWaitConnectReplyAuth ∧
      next ≠ .connectingWaitAckSeq)
    (haccepted : next = .connectingReady → c.connectReply.connectSeq ≠ 0)
    (hnext : Enters ((d.outcomingBl ++ frames.flatMap Frame.chunks).drop k = []) d.stateAfterSend next
      s a) :
    Kept c
      { conn := { d with
          outcomingBl := (d.outcomingBl ++ frames.flatMap Frame.chunks).drop k
          evWrite := b
          state := s
          stateAfterSend := a }
        wrote := (d.outcomingBl ++ frames.flatMap Frame.chunks).take k
        gseq := g } := by
  obtain ⟨hpolicy, hreplacing, hseq, hreply, hbl, hsd⟩ := hd
  have hplain : next.isOpen = false ∧ next ≠ .waitSend := by
    revert hmem
    cases next <;> decide
  obtain ⟨hwrote, hout⟩ := (Carries.append_iff.mpr ⟨h.output, hframes⟩).split k
  rw [← hbl] at hwrote hout
  refine ⟨h.reach (s := next) hopen (hnext.isOpen_eq hplain.1) ⟨hpolicy, hreplacing⟩
    (hnext.phase_eq hplain.2 rfl rfl) hmem.1 ?_ (fun hp ↦ absurd hp hmem.2.1) (fun hp ↦ ?_) hout, hsd,
    hwrote⟩
  · exact hseq.trans_le (h.connectSeq hopen)
  · exact hreply ▸ haccepted (hp.resolve_left hmem.2.2)

/-- **One move of the dialling end.** -/
theorem kept_of_move {inp : Input Chunk} {o : Outcome Chunk} (h : c.Caller)
    (hopen : c.state.isOpen = false) (hmove : Move Frame.chunks c inp o)
    (hread : inp.read.Gives (fun _ ↦ True) Settling) (hfail : o.flow ≠ .fail)
    (habort : o.flow ≠ .abort) : Kept c o := by
  cases hmove with
  | waits evRead =>
    exact ⟨⟨h.lossless, h.unclaimed, h.place, h.connectSeq, h.opened, h.heard, h.accepted, h.output⟩,
      rfl, .nil⟩
  | flushes hs hout hafter =>
    have hphase : c.phase = c.stateAfterSend := if_pos hs
    have hmem : c.stateAfterSend ∈ callerPhases := hphase ▸ h.place.resolve_right fun ho ↦ by
      rw [hopen] at ho
      exact absurd ho (by decide)
    have hplain : c.stateAfterSend.isOpen = false ∧ c.stateAfterSend ≠ .waitSend := by
      revert hmem
      generalize c.stateAfterSend = st
      cases st <;> decide
    exact ⟨h.reach hopen hplain.1 ⟨rfl, rfl⟩ (phase_of_state rfl hplain.2) hmem (h.connectSeq hopen)
      (fun hp ↦ h.heard (hphase.trans hp)) (fun hp ↦ h.accepted (hphase ▸ hp)) h.output, rfl, .nil⟩
  | aborts htrips => exact absurd rfl habort
  | fails => exact absurd rfl hfail
  | dials fd hs => exact (h.not_state hs (by decide)).elim
  | failsDial hs => exact (h.not_state hs (by decide)).elim
  | sends d frames next k evWrite s a hprep hnext =>
    cases hprep with
    | banner hs =>
      exact h.kept_of_sends hopen ⟨rfl, rfl, rfl, rfl, rfl, rfl⟩ (.of_nil ⟨rfl, rfl⟩) (by decide)
        (fun hp ↦ absurd hp (by decide)) hnext
    | addr hs =>
      exact h.kept_of_sends hopen ⟨rfl, rfl, rfl, rfl, rfl, rfl⟩ (.of_nil ⟨rfl, rfl⟩) (by decide)
        (fun hp ↦ absurd hp (by decide)) hnext
    | connect auth m hs hseq =>
      refine h.kept_of_sends hopen ⟨rfl, rfl, rfl, rfl, rfl, rfl⟩ ?_ (by decide)
        (fun hp ↦ absurd hp (by decide)) hnext
      rw [List.flatMap_singleton]
      exact .connect (hseq.trans_le (h.connectSeq hopen))
    | seq n hs =>
      exact h.kept_of_sends hopen ⟨rfl, rfl, rfl, rfl, rfl, rfl⟩ (.of_nil ⟨rfl, rfl⟩) (by decide)
        (fun _ ↦ h.accepted (Or.inl (phase_of_state hs (by decide)))) hnext
    | greeting hs => exact (h.not_state hs (by decide)).elim
    | reply frames next hs => exact (h.not_state hs (by decide)).elim
  | failsSend => exact absurd rfl hfail
  | hears r hs hr =>
    exact ⟨h.reach (s := .connectingWaitConnectReplyAuth) hopen rfl ⟨rfl, rfl⟩
      (phase_of_state rfl (by decide)) (by decide) (h.connectSeq hopen) (fun _ ↦ hread.reply hr)
      (fun hp ↦ absurd hp (by decide)) h.output, rfl, .nil⟩
  | heeds d s g hs hheeds =>
    have hsettling := h.heard (phase_of_state hs (by decide))
    have hask (c' : Conn Chunk) (hsame : c'.policy = c.policy ∧ c'.replacing = c.replacing)
        (hseq : c'.connectSeq ≤ 1) (hout : c'.outcomingBl = c.outcomingBl)
        (hs' : c'.state = .connectingSendConnectMsg) : c'.Caller := by
      refine h.reach (s := .connectingSendConnectMsg) hopen (hs' ▸ rfl) hsame
        (phase_of_state hs' (by decide)) (by decide) hseq (fun hp ↦ absurd hp (by decide))
        (fun hp ↦ absurd hp (by decide)) ?_
      rw [hout]
      exact h.output
    have haccept (s' : State) (hmem : s' ∈ callerPhases ∧ s' ≠ .connectingWaitConnectReplyAuth)
        (htag : c.connectReply.tag = Tag.seq ∨ c.connectReply.tag = Tag.ready) :
        ({ c with state := s' } : Conn Chunk).Caller := by
      have hplain : s'.isOpen = false ∧ s' ≠ .waitSend := by
        revert hmem
        cases s' <;> decide
      exact h.reach hopen hplain.1 ⟨rfl, rfl⟩ (phase_of_state rfl hplain.2) hmem.1
        (h.connectSeq hopen) (fun hp ↦ absurd hp hmem.2) (fun _ ↦ hsettling.accept htag) h.output
    cases hheeds with
    | badAuthorizer htag =>
      exact ⟨hask _ ⟨rfl, rfl⟩ (h.connectSeq hopen) rfl rfl, rfl, .nil⟩
    | resetSession htag => exact absurd (htag ▸ hsettling.tag) (by decide)
    | retryGlobal htag => exact ⟨hask _ ⟨rfl, rfl⟩ (h.connectSeq hopen) rfl rfl, rfl, .nil⟩
    | retrySession htag hseq =>
      exact ⟨hask _ ⟨rfl, rfl⟩ (hsettling.retry htag) rfl rfl, rfl, .nil⟩
    | wait htag => exact absurd (htag ▸ hsettling.tag) (by decide)
    | seq htag => exact ⟨haccept _ (by decide) (Or.inl htag), rfl, .nil⟩
    | ready htag => exact ⟨haccept _ (by decide) (Or.inr htag), rfl, .nil⟩
  | connected hs hseq =>
    -- the session is open: its `connect_seq` is that of the reply
    have hne := h.accepted (Or.inr (phase_of_state hs (by decide)))
    rw [← hseq] at hne
    simp only [connectDone, if_pos hseq]
    exact ⟨.of_isOpen rfl h.unclaimed hne h.output, rfl, .nil⟩
  | identified hs => exact (h.not_state hs (by decide)).elim
  | asked m hs => exact (h.not_state hs (by decide)).elim
  | refuses p tag reply auth effect r k evWrite hs => exact (h.not_state hs (by decide)).elim
  | failsReply => exact absurd rfl hfail
  | handsOver p e reset fromPeer hs => exact (h.not_state hs (by decide)).elim
  | opens p hs => exact (h.not_state hs (by decide)).elim
  | notifies hs => exact (h.not_state hs (by decide)).elim
  | gotSeq n hs => exact (h.not_state hs (by decide)).elim
  | accepted hs => exact (h.not_state hs (by decide)).elim

/-- **One pass of the dialling end.** -/
theorem kept_of_pass {inp : Input Chunk} (h : c.Caller)
    (hread : inp.read.Gives (fun _ ↦ True) Settling)
    (hfail : (c.pass K flags Frame.chunks inp).flow ≠ .fail)
    (habort : (c.pass K flags Frame.chunks inp).flow ≠ .abort) :
    Kept c (c.pass K flags Frame.chunks inp) := by
  refine pass_of_moves (Q := Kept c) (fun hopen ↦ ?_) ⟨h, rfl, .nil⟩
    (fun o hmove hopen ↦ h.kept_of_move hopen hmove hread) hfail habort
  obtain ⟨hreads, hopen'⟩ : c.Reads (c.processOpen K flags inp).conn := reads_processOpen hopen
  have hwrote : (c.processOpen K flags inp).wrote = [] := (harmless_processOpen c inp).2.1
  generalize c.processOpen K flags inp = o at hreads hopen' hwrote
  have hsame {α : Type} (f : Conn Chunk → α) (hf : ∀ c, f (outsideReading c) = f c) :
      f o.conn = f c := by
    rw [← hf o.conn, hreads, hf c]
  refine ⟨.of_isOpen hopen' ((hsame replacing fun _ ↦ rfl).trans h.unclaimed) ?_ ?_,
    hsame sd fun _ ↦ rfl, ?_⟩
  · rw [hsame Conn.connectSeq fun _ ↦ rfl]
    exact h.opened hopen
  · rw [hsame outcomingBl fun _ ↦ rfl]
    exact h.output
  · rw [hwrote]
    exact .nil

theorem of_view {c' : Conn Chunk} (h : c.Caller) (hview : c'.outsideWriting = c.outsideWriting)
    (hout : Carries (fun m ↦ m.connectSeq ≤ 1) (fun _ ↦ True) c'.outcomingBl) : c'.Caller := by
  have hstate : c'.state = c.state := eq_of_outsideWriting state (fun _ ↦ rfl) hview
  have hphase : c'.phase = c.phase := eq_of_outsideWriting phase (fun _ ↦ rfl) hview
  have hpolicy : c'.policy = c.policy := eq_of_outsideWriting policy (fun _ ↦ rfl) hview
  have hseq : c'.connectSeq = c.connectSeq := eq_of_outsideWriting Conn.connectSeq (fun _ ↦ rfl) hview
  have hreply : c'.connectReply = c.connectReply :=
    eq_of_outsideWriting connectReply (fun _ ↦ rfl) hview
  constructor
  · rw [hstate, hpolicy]
    exact h.lossless
  · exact (eq_of_outsideWriting replacing (fun _ ↦ rfl) hview).trans h.unclaimed
  · rw [hphase, hstate]
    exact h.place
  · rw [hstate, hseq]
    exact h.connectSeq
  · rw [hstate, hseq]
    exact h.opened
  · rw [hphase, hreply]
    exact h.heard
  · rw [hphase, hreply]
    exact h.accepted
  · exact hout

theorem part : Part Caller (fun m ↦ m.connectSeq ≤ 1) (fun _ ↦ True) := ⟨fun h ↦ h.output, of_view⟩

end Caller

end Conn

end AsyncMessenger
