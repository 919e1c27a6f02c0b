import AsyncMessenger.Dialogue
import AsyncMessenger.Lib.Run

/-!
# The two ends of a handshake agree

A client asserts, of a RETRY_SESSION reply and of the reply that ends the handshake, that it can go
on with the `connect_seq` that has come. Whether it can depends on the accepting side, on the
connection that is registered there, and on how often the two have been here before. This module
proves that the assertions hold whatever the rounds of the handshake are, and that a client in an
open session has got there with the connection that serves its socket.

## The exchange

Between the connect message and the reply to it there is only ever one thing under way: the message
on the wire, the message in the hands of the accepting side, the reply that is prepared, or the
reply on the wire. The client asks again only after it has taken the reply. So each reply answers
the very message the client remembers, whoever wrote it, and the arithmetic of `handle_connect_msg`
carries over to the client's assertions.

Who writes the reply may change in between: `do_replace` takes the socket away from the accepted
connection, and the connection that was registered answers RETRY_SESSION in its place. What is
prepared when the lock is released around `_accept_conn` and in the notify block is kept in
`opening`, and is a reply under way like the others.

## The invariant

`Consistent` is what the client can rely on, by its state: nothing is under way, or one message, or
one reply that `Answers` the message it remembers. `Serves` is what is known of the connection that
serves the socket: from the moment it has accepted it goes straight to the open session, with the
numbers it has accepted. `Inv` is both, and says that no assertion has failed, and that nothing has
been accepted while the socket is handed over.

## The steps

A pass of the client and a pass of the accepting connection are taken apart into moves
(`Consistent.move`, `Serves.move`, `Consistent.acceptor_move`), each of which is one case of the
exchange with a lemma of its own. `inv_step` puts the turns together, and `handshake_agreement` is
about all the runs of a dialogue.
-/

namespace AsyncMessenger

/-! ## What is under way

The wire carries pieces: greetings, connect messages, replies, frames of an open session. Only two
kinds count here, and reading takes from the wire what it delivers (`tokens_fetch`). -/

/-- The connect messages among the pieces. -/
def asks (l : List Chunk) : List MsgConnect :=
  l.filterMap fun | .connect m => some m | _ => none

/-- The connect replies among the pieces. -/
def replies (l : List Chunk) : List MsgConnectReply :=
  l.filterMap fun | .reply r => some r | _ => none

@[simp] theorem asks_append (l l' : List Chunk) : asks (l ++ l') = asks l ++ asks l' :=
  List.filterMap_append ..

@[simp] theorem replies_append (l l' : List Chunk) : replies (l ++ l') = replies l ++ replies l' :=
  List.filterMap_append ..

@[simp] theorem asks_nil : asks [] = [] := rfl

@[simp] theorem replies_nil : replies [] = [] := rfl

@[simp] theorem tokens_sectionChunk (bs : Bytes) :
    asks (sectionChunk bs) = [] ∧ replies (sectionChunk bs) = [] := by
  rw [sectionChunk]
  split_ifs <;> exact ⟨rfl, rfl⟩

theorem asks_connect (m : MsgConnect) (auth : Bytes) : asks (Frame.connect m auth).chunks = [m] :=
  congrArg (m :: ·) (tokens_sectionChunk auth).1

theorem replies_connect (m : MsgConnect) (auth : Bytes) :
    replies (Frame.connect m auth).chunks = [] := (tokens_sectionChunk auth).2

theorem asks_reply (r : MsgConnectReply) (auth : Bytes) : asks (Frame.reply r auth).chunks = [] :=
  (tokens_sectionChunk auth).1

theorem replies_reply (r : MsgConnectReply) (auth : Bytes) :
    replies (Frame.reply r auth).chunks = [r] := congrArg (r :: ·) (tokens_sectionChunk auth).2

/-- The frames of an open session carry neither. -/
theorem tokens_of_ofSession {f : Frame} (h : f.ofSession = true) :
    asks f.chunks = [] ∧ replies f.chunks = [] := by
  cases f with
  | msg m =>
    have htag (l : List Chunk) : asks (.tag Tag.msg :: .header m.header :: l) = asks l ∧
        replies (.tag Tag.msg :: .header m.header :: l) = replies l := ⟨rfl, rfl⟩
    have hfooter : asks [.footer m.footer] = [] ∧ replies [.footer m.footer] = [] := ⟨rfl, rfl⟩
    simp [Frame.chunks, htag, hfooter]
  | ack => exact ⟨rfl, rfl⟩
  | keepalive2 => exact ⟨rfl, rfl⟩
  | keepalive2Ack => exact ⟨rfl, rfl⟩
  | _ => exact absurd h (by simp [Frame.ofSession])

theorem tokens_session (frames : List Frame) :
    asks ((frames.filter Frame.ofSession).flatMap Frame.chunks) = [] ∧
      replies ((frames.filter Frame.ofSession).flatMap Frame.chunks) = [] := by
  induction frames with
  | nil => exact ⟨rfl, rfl⟩
  | cons f frames ih =>
    by_cases hf : f.ofSession = true
    · rw [List.filter_cons_of_pos hf, List.flatMap_cons, asks_append, replies_append, ih.1, ih.2,
        (tokens_of_ofSession hf).1, (tokens_of_ofSession hf).2]
      exact ⟨rfl, rfl⟩
    · rw [List.filter_cons_of_neg hf]
      exact ih

/-- The piece a completed read delivers. -/
def Read.chunks : Read → List Chunk
  | .done chunk => [chunk]
  | _ => []

/-- A read takes from the socket what it delivers. -/
theorem tokens_fetch (c : Conn Chunk) (arrived : List Chunk) (arrival : Arrival) :
    asks arrived = asks (c.fetch arrived arrival).1.chunks ++ asks (c.fetch arrived arrival).2 ∧
      replies arrived =
        replies (c.fetch arrived arrival).1.chunks ++ replies (c.fetch arrived arrival).2 := by
  cases arrival with
  | error => exact ⟨rfl, rfl⟩
  | nothing => exact ⟨rfl, rfl⟩
  | next =>
    simp only [Conn.fetch]
    split_ifs
    · exact ⟨rfl, rfl⟩
    · split <;> exact ⟨rfl, rfl⟩
    · cases arrived with
      | nil => exact ⟨rfl, rfl⟩
      | cons chunk rest =>
        exact ⟨List.filterMap_append (l := [chunk]) .., List.filterMap_append (l := [chunk]) ..⟩

/-! ## Replies that answer

`Answers` compares a reply with the message it is for, not with what either side remembers. Every
refusal that `handle_connect_msg` writes answers, and so does the reply of the connection that
accepts: the one place where a number is added is where a `connect_seq` could wrap. -/

/-- The connection `a` has accepted the session that `m` asks for and says so in `r`. -/
structure Accepted (m : MsgConnect) (r : MsgConnectReply) (a : Conn Chunk) : Prop where
  next : r.connectSeq = inc32 m.connectSeq
  connectSeq : a.connectSeq = r.connectSeq
  features : a.features = r.features &&& m.features
  lossy : a.policy.lossy = decide (r.flags &&& connectLossy ≠ 0)
  peerGlobalSeq : a.peerGlobalSeq = m.globalSeq

/-- The reply `r` answers the connect message `m`; `a` is the connection that would have accepted. -/
structure Answers (m : MsgConnect) (r : MsgConnectReply) (a : Option (Conn Chunk)) : Prop where
  retry : r.tag = Tag.retrySession → m.connectSeq < r.connectSeq
  accept : r.tag = Tag.seq ∨ r.tag = Tag.ready → ∃ a', a = some a' ∧ Accepted m r a'

theorem inc32_eq {n : ℕ} (h : n + 1 < 2 ^ 32) : inc32 n = n + 1 := Nat.mod_eq_of_lt h

theorem answers_of_retry {m : MsgConnect} {r : MsgConnectReply} {a : Option (Conn Chunk)}
    (htag : r.tag = Tag.retrySession) (hseq : m.connectSeq < r.connectSeq) : Answers m r a := by
  refine ⟨fun _ ↦ hseq, fun h ↦ ?_⟩
  rw [htag] at h
  exact absurd h (by decide)

theorem answers_of_other {m : MsgConnect} {r : MsgConnectReply} {a : Option (Conn Chunk)}
    (tags : List ℕ) (hmem : r.tag ∈ tags)
    (htags : ∀ t ∈ tags, t ≠ Tag.retrySession ∧ t ≠ Tag.seq ∧ t ≠ Tag.ready) : Answers m r a := by
  obtain ⟨hretry, hseq, hready⟩ := htags _ hmem
  exact ⟨fun h ↦ absurd h hretry, fun h ↦ (h.elim hseq hready).elim⟩

/-- The refusals of `handle_connect_msg` answer, as long as no `connect_seq` wraps. -/
theorem answers_of_denies {c : Conn Chunk} {inp : Input Chunk} {p : Policy} {tag : ℕ}
    {reply r : MsgConnectReply} {effect : Effect Chunk} {a : Option (Conn Chunk)}
    (hdeny : c.Denies inp p tag reply effect) (htag : r.tag = tag)
    (hseq : r.connectSeq = reply.connectSeq) (hconnect : c.connectMsg.connectSeq + 1 < 2 ^ 32)
    (hexisting : ∀ e, inp.existing = some e → e.connectSeq + 1 < 2 ^ 32) :
    Answers c.connectMsg r a := by
  cases hdeny with
  | unfit tag hmem => exact answers_of_other _ (htag ▸ hmem) (by decide)
  | wait => exact answers_of_other [Tag.wait] (by simp [htag]) (by decide)
  | busy =>
    apply answers_of_retry htag
    rw [hseq, inc32_eq hconnect]
    exact Nat.lt_succ_self _
  | verdict tag reply hv =>
    generalize hexist : inp.existing = existing at hv
    cases hv with
    | stranger => exact answers_of_other [Tag.resetSession] (by simp [htag]) (by decide)
    | old e => exact answers_of_other [Tag.retryGlobal] (by simp [htag]) (by decide)
    | unknown => exact answers_of_other [Tag.resetSession] (by simp [htag]) (by decide)
    | behind e _ _ _ hlt =>
      apply answers_of_retry htag
      rw [hseq, inc32_eq (hexisting e hexist)]
      exact Nat.lt_succ_of_lt hlt
    | level e _ _ heq =>
      apply answers_of_retry htag
      rw [hseq, inc32_eq (hexisting e hexist), heq]
      exact Nat.lt_succ_self _

/-! ## The invariant

The things under way are counted in one list of messages and one of replies, over all the places
where either can be. The clause `few` of `Consistent` says that together they have one entry at
most, and none unless the client waits for a reply. -/

namespace Acceptor

/-- The connect message in the hands of the accepting side. -/
def question : Acceptor → List MsgConnect
  | .serving s =>
    if s.state = .acceptingWaitConnectMsgAuth ∧ s.opening = none then [s.connectMsg] else []
  | .handed m => [m]
  | .gone => []

/-- The reply that is prepared and not sent yet. -/
def drafted : Acceptor → List MsgConnectReply
  | .serving s => replies (((s.opening.map Prod.fst).getD []).flatMap Frame.chunks)
  | _ => []

/-- What the accepting side has still to write. -/
def output : Acceptor → List Chunk
  | .serving s => s.outcomingBl
  | _ => []

end Acceptor

/-- The states of a client between its call of `connect` and the open session. -/
def clientPhases : List State :=
  [.connectingWaitBanner, .connectingWaitIdentifyPeer, .connectingSendConnectMsg,
    .connectingWaitConnectReply, .connectingWaitConnectReplyAuth, .connectingWaitAckSeq,
    .connectingReady, .wait]

/-- The states in which a reply to the client's connect message has arrived. -/
def heardPhases : List State :=
  [.connectingWaitConnectReplyAuth, .connectingWaitAckSeq, .connectingReady]

namespace Dialogue

/-- The connect messages under way from the client `c`. -/
def questions (d : Dialogue) (c : Conn Chunk) : List MsgConnect :=
  asks (d.toAcceptor ++ c.outcomingBl) ++ d.acceptor.question

/-- The replies under way. -/
def pending (d : Dialogue) : List MsgConnectReply :=
  d.acceptor.drafted ++ replies (d.toClient ++ d.acceptor.output)

/-- What the client `c` can rely on. -/
structure Consistent (d : Dialogue) (c : Conn Chunk) : Prop where
  place : c.phase ∈ clientPhases ∨ c.state.isOpen = true
  few : (d.questions c).length + d.pending.length ≤
    if c.phase = .connectingWaitConnectReply then 1 else 0
  same : ∀ m ∈ d.questions c, m = c.connectMsg
  written : ∀ r ∈ replies (d.toClient ++ d.acceptor.output), Answers c.connectMsg r d.answered
  drafted : ∀ s, d.acceptor = .serving s →
    ∀ r ∈ d.acceptor.drafted, Answers c.connectMsg r (some s)
  announced : c.phase = .connectingWaitConnectReply ∨ c.phase ∈ heardPhases →
    c.connectMsg.connectSeq = c.connectSeq ∧ c.connectMsg.globalSeq = c.globalSeq
  heard : c.phase ∈ heardPhases → Answers c.connectMsg c.connectReply d.answered
  accepted : c.phase = .connectingWaitAckSeq ∨ c.phase = .connectingReady →
    c.connectReply.tag = Tag.seq ∨ c.connectReply.tag = Tag.ready
  agreed : c.state.isOpen = true → ∃ a, d.answered = some a ∧ c.connectSeq = a.connectSeq ∧
    c.features = a.features ∧ c.policy.lossy = a.policy.lossy ∧ a.peerGlobalSeq = c.globalSeq

/-- Nothing is under way. -/
structure Silent (d : Dialogue) (c : Conn Chunk) : Prop where
  asked : asks d.toAcceptor = [] ∧ asks c.outcomingBl = []
  question : d.acceptor.question = []
  drafted : d.acceptor.drafted = []
  written : replies d.toClient = [] ∧ replies d.acceptor.output = []

theorem silent_iff {d : Dialogue} {c : Conn Chunk} :
    d.Silent c ↔ (d.questions c).length + d.pending.length = 0 := by
  simp only [questions, pending, asks_append, replies_append, List.length_append, Nat.add_eq_zero_iff,
    List.length_eq_zero_iff]
  exact ⟨fun ⟨h, hq, hd, hw⟩ ↦ ⟨⟨h, hq⟩, hd, hw⟩, fun ⟨⟨h, hq⟩, hd, hw⟩ ↦ ⟨h, hq, hd, hw⟩⟩

theorem Consistent.silent {d : Dialogue} {c : Conn Chunk} (h : d.Consistent c)
    (hphase : c.phase ≠ .connectingWaitConnectReply) : d.Silent c := by
  have hfew := h.few
  rw [if_neg hphase] at hfew
  exact silent_iff.mpr (Nat.le_zero.mp hfew)

/-! ### The client

The client's moves. Where nothing is under way only its own state matters (`Silent.consistent`);
where it reads a reply, this was the only thing under way, so that nothing is after it. -/

/-- With nothing under way only the client's own state matters. -/
theorem Silent.consistent {d : Dialogue} {c : Conn Chunk} (h : d.Silent c)
    (place : c.phase ∈ clientPhases ∨ c.state.isOpen = true)
    (announced : c.phase = .connectingWaitConnectReply ∨ c.phase ∈ heardPhases →
      c.connectMsg.connectSeq = c.connectSeq ∧ c.connectMsg.globalSeq = c.globalSeq)
    (heard : c.phase ∈ heardPhases → Answers c.connectMsg c.connectReply d.answered)
    (accepted : c.phase = .connectingWaitAckSeq ∨ c.phase = .connectingReady →
      c.connectReply.tag = Tag.seq ∨ c.connectReply.tag = Tag.ready)
    (agreed : c.state.isOpen = true → ∃ a, d.answered = some a ∧ c.connectSeq = a.connectSeq ∧
      c.features = a.features ∧ c.policy.lossy = a.policy.lossy ∧ a.peerGlobalSeq = c.globalSeq) :
    d.Consistent c where
  place := place
  few := (silent_iff.mp h).trans_le (Nat.zero_le _)
  same m hm := by
    rw [questions, asks_append, h.asked.1, h.asked.2, h.question] at hm
    exact absurd hm (by simp)
  written r hr := by
    rw [replies_append, h.written.1, h.written.2] at hr
    exact absurd hr (by simp)
  drafted s _ r hr := by
    rw [h.drafted] at hr
    exact absurd hr (by simp)
  announced := announced
  heard := heard
  accepted := accepted
  agreed := agreed

/-- A client that is not waiting for anything yet. -/
theorem Silent.consistent_of_phase {d : Dialogue} {c : Conn Chunk} {s : State} (h : d.Silent c)
    (hphase : c.phase = s) (hopen : c.state.isOpen = false)
    (hs : s ∈ [State.connectingWaitIdentifyPeer, .connectingSendConnectMsg, .wait]) :
    d.Consistent c := by
  have hnot : s ∈ clientPhases ∧ s ∉ heardPhases ∧ s ≠ .connectingWaitConnectReply ∧
      s ≠ .connectingWaitAckSeq ∧ s ≠ .connectingReady := by
    simp only [List.mem_cons, List.not_mem_nil, or_false] at hs
    rcases hs with rfl | rfl | rfl <;> decide
  subst hphase
  obtain ⟨hplace, hheard, hreply, hack, hready⟩ := hnot
  refine h.consistent (Or.inl hplace) (fun hp ↦ ?_) (fun hp ↦ absurd hp hheard) (fun hp ↦ ?_)
    fun ho ↦ ?_
  · exact (hp.elim hreply hheard).elim
  · exact (hp.elim hack hready).elim
  · rw [hopen] at ho
    exact absurd ho (by simp)

/-- A client that has a reply to its connect message. -/
theorem Silent.consistent_of_heard {d : Dialogue} {c : Conn Chunk} {s : State} (h : d.Silent c)
    (hphase : c.phase = s) (hopen : c.state.isOpen = false) (hs : s ∈ heardPhases)
    (hannounced : c.connectMsg.connectSeq = c.connectSeq ∧ c.connectMsg.globalSeq = c.globalSeq)
    (hheard : Answers c.connectMsg c.connectReply d.answered)
    (haccepted : s ≠ .connectingWaitConnectReplyAuth →
      c.connectReply.tag = Tag.seq ∨ c.connectReply.tag = Tag.ready) : d.Consistent c := by
  subst hphase
  have hplace : c.phase ∈ clientPhases := by
    revert hs
    generalize c.phase = s
    cases s <;> decide
  refine h.consistent (Or.inl hplace) (fun _ ↦ hannounced) (fun _ ↦ hheard) (fun hp ↦ ?_)
    fun ho ↦ ?_
  · apply haccepted
    rcases hp with hp | hp <;> rw [hp] <;> decide
  · rw [hopen] at ho
    exact absurd ho (by simp)

/-- A client is in no other state. -/
theorem Consistent.not_state {d : Dialogue} {c : Conn Chunk} {s : State} (h : d.Consistent c)
    (hs : c.state = s) (hno : s ≠ .waitSend ∧ s ∉ clientPhases ∧ s.isOpen = false) : False := by
  have hplace := h.place
  rw [Conn.phase_of_state hs hno.1, hs] at hplace
  rcases hplace with hmem | hopen
  · exact hno.2.1 hmem
  · rw [hno.2.2] at hopen
    exact absurd hopen (by simp)

/-- The dialogue after a pass of the client that goes on. -/
def clientMoved (d : Dialogue) (o : Outcome Chunk) (rest : List Chunk) : Dialogue :=
  { d with client := some o.conn, toClient := rest, toAcceptor := d.toAcceptor ++ o.wrote }

theorem Silent.clientMoved {d : Dialogue} {c : Conn Chunk} {o : Outcome Chunk} {rest : List Chunk}
    (h : d.Silent c) (hrest : ∃ l, replies d.toClient = l ++ replies rest)
    (hwrote : asks (o.wrote ++ o.conn.outcomingBl) = []) : (d.clientMoved o rest).Silent o.conn := by
  obtain ⟨l, hl⟩ := hrest
  rw [h.written.1] at hl
  rw [asks_append, List.append_eq_nil_iff] at hwrote
  refine ⟨⟨?_, hwrote.2⟩, h.question, h.drafted, (List.append_eq_nil_iff.mp hl.symm).2, h.written.2⟩
  rw [Dialogue.clientMoved, asks_append, h.asked.1, hwrote.1]
  rfl

/-- A client that sends a connect message. -/
theorem Silent.consistent_connect {d : Dialogue} {c : Conn Chunk} {o : Outcome Chunk}
    {rest : List Chunk} (h : d.Silent c) (hrest : ∃ l, replies d.toClient = l ++ replies rest)
    (hphase : o.conn.phase = .connectingWaitConnectReply) (hopen : o.conn.state.isOpen = false)
    (hout : asks (o.wrote ++ o.conn.outcomingBl) = [o.conn.connectMsg])
    (hseq : o.conn.connectMsg.connectSeq = o.conn.connectSeq)
    (hglobal : o.conn.connectMsg.globalSeq = o.conn.globalSeq) :
    (d.clientMoved o rest).Consistent o.conn := by
  obtain ⟨l, hl⟩ := hrest
  rw [h.written.1] at hl
  have hquestions : (d.clientMoved o rest).questions o.conn = [o.conn.connectMsg] := by
    rw [questions, Dialogue.clientMoved, List.append_assoc, asks_append, h.asked.1, hout, h.question]
    rfl
  have hwritten : replies (rest ++ d.acceptor.output) = [] := by
    rw [replies_append, (List.append_eq_nil_iff.mp hl.symm).2, h.written.2]
    rfl
  have hpending : (d.clientMoved o rest).pending = [] := by
    rw [pending, Dialogue.clientMoved, h.drafted, hwritten]
    rfl
  have hnot : o.conn.phase ∉ heardPhases := by
    rw [hphase]
    decide
  refine ⟨Or.inl (by rw [hphase]; decide), ?_, ?_, ?_, ?_, fun _ ↦ ⟨hseq, hglobal⟩,
    fun hp ↦ absurd hp hnot, ?_, ?_⟩
  · rw [hquestions, hpending, if_pos hphase]
    rfl
  · intro m hm
    rw [hquestions] at hm
    exact List.mem_singleton.mp hm
  · intro r hr
    rw [Dialogue.clientMoved, hwritten] at hr
    exact absurd hr (by simp)
  · intro s _ r hr
    rw [Dialogue.clientMoved, h.drafted] at hr
    exact absurd hr (by simp)
  · rw [hphase]
    exact fun hp ↦ absurd hp (by decide)
  · rw [hopen]
    exact fun ho ↦ absurd ho (by simp)

/-- What `Consistent` sees of a client besides its output. -/
def face (c : Conn Chunk) : State × Bool × MsgConnect × MsgConnectReply × ℕ × ℕ × ℕ × Bool :=
  (c.phase, c.state.isOpen, c.connectMsg, c.connectReply, c.connectSeq, c.globalSeq, c.features,
    c.policy.lossy)

/-- A client that only moves its output along, or reads something that is not for it. -/
theorem Consistent.congr {d : Dialogue} {c c' : Conn Chunk} {up rest : List Chunk}
    {client : Option (Conn Chunk)} (h : d.Consistent c) (hface : face c' = face c)
    (hup : asks (up ++ c'.outcomingBl) = asks (d.toAcceptor ++ c.outcomingBl))
    (hrest : ∃ l, replies d.toClient = l ++ replies rest) :
    ({ d with client, toClient := rest, toAcceptor := up } : Dialogue).Consistent c' := by
  obtain ⟨l, hl⟩ := hrest
  simp only [face, Prod.mk.injEq] at hface
  obtain ⟨hphase, hopen, hmsg, hreply, hseq, hglobal, hfeatures, hlossy⟩ := hface
  refine ⟨?_, ?_, ?_, ?_, ?_, ?_, ?_, ?_, ?_⟩
  · rw [hphase, hopen]
    exact h.place
  · have hfew := h.few
    simp only [questions, pending, replies_append, hl, hup, hphase, List.length_append] at hfew ⊢
    omega
  · intro m hm
    rw [questions, hup] at hm
    exact hmsg ▸ h.same m hm
  · intro r hr
    have hmem : r ∈ replies (d.toClient ++ d.acceptor.output) := by
      rw [replies_append] at hr ⊢
      rw [hl, List.append_assoc]
      exact List.mem_append_right l hr
    exact hmsg ▸ h.written r hmem
  · exact hmsg ▸ h.drafted
  · rw [hphase, hmsg, hseq, hglobal]
    exact h.announced
  · rw [hphase, hmsg, hreply]
    exact h.heard
  · rw [hphase, hreply]
    exact h.accepted
  · rw [hopen, hseq, hfeatures, hlossy, hglobal]
    exact h.agreed

/-- The client's assertions hold. -/
theorem Consistent.not_tripsAssert {d : Dialogue} {c : Conn Chunk} (h : d.Consistent c)
    (hopen : c.state.isOpen = false) (hwait : c.state ≠ .wait) : ¬ c.TripsAssert := by
  intro htrips
  rw [Conn.TripsAssert] at htrips
  split at htrips <;> rename_i hs
  · have hplace := h.place
    rw [Conn.phase, if_pos hs, htrips.2, hopen] at hplace
    exact absurd hplace (by decide)
  · exact h.not_state hs (by decide)
  · have hphase : c.phase = .connectingWaitConnectReplyAuth := Conn.phase_of_state hs (by decide)
    have hmem : c.phase ∈ heardPhases := by
      rw [hphase]
      decide
    have hlt := (h.heard hmem).retry htrips.1
    rw [(h.announced (Or.inr hmem)).1] at hlt
    exact absurd hlt (Nat.not_lt.mpr htrips.2)
  · have hphase : c.phase = .connectingReady := Conn.phase_of_state hs (by decide)
    have hmem : c.phase ∈ heardPhases := by
      rw [hphase]
      decide
    obtain ⟨a, -, haccepted⟩ := (h.heard hmem).accept (h.accepted (Or.inr hphase))
    apply htrips
    rw [haccepted.next, (h.announced (Or.inr hmem)).1]
  · rw [hopen] at htrips
    simp only [Bool.false_eq_true, List.mem_cons, List.not_mem_nil, or_false, false_or] at htrips
    rcases htrips with hs | hs | hs | hs
    · exact h.not_state hs (by decide)
    · exact h.not_state hs (by decide)
    · exact h.not_state hs (by decide)
    · exact hwait hs

/-- A state in which the client waits for no reply finds nothing under way. -/
theorem Consistent.silent_of_state {d : Dialogue} {c : Conn Chunk} {s : State} (h : d.Consistent c)
    (hs : c.state = s) (hne : s ≠ .waitSend ∧ s ≠ .connectingWaitConnectReply) : d.Silent c :=
  h.silent (Conn.phase_of_state hs hne.1 ▸ hne.2)

/-- The client sends what a state has prepared. -/
theorem Consistent.sends {d : Dialogue} {c c' : Conn Chunk} {inp : Input Chunk} {o : Outcome Chunk}
    {frames : List Frame} {next s a : State} {all : Prop} {k : ℕ} {rest : List Chunk}
    (h : d.Consistent c) (hprep : Conn.Prepares c inp c' frames next)
    (hnext : Conn.Enters all c'.stateAfterSend next s a)
    (hconn : ∃ evWrite, o.conn = { c' with
      outcomingBl := (c'.outcomingBl ++ frames.flatMap Frame.chunks).drop k
      evWrite
      state := s
      stateAfterSend := a })
    (hwrote : o.wrote = (c'.outcomingBl ++ frames.flatMap Frame.chunks).take k)
    (hrest : ∃ l, replies d.toClient = l ++ replies rest) :
    (d.clientMoved o rest).Consistent o.conn := by
  obtain ⟨evWrite, hconn⟩ := hconn
  have hout : o.wrote ++ o.conn.outcomingBl = c'.outcomingBl ++ frames.flatMap Frame.chunks := by
    rw [hwrote, hconn]
    exact List.take_append_drop ..
  have hphase (hne : next ≠ .waitSend) : o.conn.phase = next :=
    hnext.phase_eq hne (by rw [hconn]) (by rw [hconn])
  have hclosed (hne : next.isOpen = false) : o.conn.state.isOpen = false := by
    rw [hconn]
    exact hnext.isOpen_eq hne
  cases hprep with
  | banner hs =>
    have hs' := h.silent_of_state hs (by decide)
    refine (hs'.clientMoved hrest ?_).consistent_of_phase (hphase (by decide)) (hclosed rfl) (by decide)
    rw [hout, asks_append, hs'.asked.2]
    rfl
  | addr hs =>
    have hs' := h.silent_of_state hs (by decide)
    refine (hs'.clientMoved hrest ?_).consistent_of_phase (hphase (by decide)) (hclosed rfl) (by decide)
    rw [hout, asks_append, hs'.asked.2]
    rfl
  | connect auth m hs hseq hglobal =>
    have hs' := h.silent_of_state hs (by decide)
    refine hs'.consistent_connect hrest (hphase (by decide)) (hclosed rfl) ?_ ?_ ?_
    · rw [hout, asks_append, hs'.asked.2, List.flatMap_singleton, asks_connect, List.nil_append, hconn]
    · rw [hconn]
      exact hseq
    · rw [hconn]
      exact hglobal
  | seq n hs =>
    -- the client has its reply, and only answers it
    have hphase' : c.phase = .connectingWaitAckSeq := Conn.phase_of_state hs (by decide)
    have hs' := h.silent_of_state hs (by decide)
    have hmem : c.phase ∈ heardPhases := by
      rw [hphase']
      decide
    have hnone : asks (o.wrote ++ o.conn.outcomingBl) = [] := by
      rw [hout, asks_append, hs'.asked.2]
      rfl
    refine (hs'.clientMoved hrest hnone).consistent_of_heard (hphase (by decide)) (hclosed rfl)
      (by decide) ?_ ?_ ?_
    · rw [hconn]
      exact h.announced (Or.inr hmem)
    · rw [hconn]
      exact h.heard hmem
    · rw [hconn]
      exact fun _ ↦ h.accepted (Or.inl hphase')
  | greeting hs => exact (h.not_state hs (by decide)).elim
  | reply _ _ hs => exact (h.not_state hs (by decide)).elim

/-- The client takes its reply, the only thing under way. -/
theorem Consistent.hears {d : Dialogue} {c : Conn Chunk} {r : MsgConnectReply} {gseq : ℕ}
    {rest : List Chunk} (h : d.Consistent c) (hs : c.state = .connectingWaitConnectReply)
    (hread : replies d.toClient = [r] ++ replies rest) :
    (d.clientMoved { conn := { c with
      connectReply := r, state := .connectingWaitConnectReplyAuth }, gseq } rest).Consistent
        { c with connectReply := r, state := .connectingWaitConnectReplyAuth } := by
  have hphase : c.phase = .connectingWaitConnectReply := Conn.phase_of_state hs (by decide)
  have hmem : r ∈ replies (d.toClient ++ d.acceptor.output) := by
    rw [replies_append, hread]
    exact List.mem_append_left _ (List.mem_append_left _ List.mem_cons_self)
  have hnone : (d.clientMoved { conn := { c with
      connectReply := r, state := .connectingWaitConnectReplyAuth }, gseq } rest).Silent
      { c with connectReply := r, state := .connectingWaitConnectReplyAuth } := by
    have hfew := h.few
    rw [if_pos hphase] at hfew
    apply silent_iff.mpr
    simp only [questions, pending, clientMoved, asks_append, replies_append, hread,
      List.length_append, List.length_singleton, List.append_nil] at hfew ⊢
    omega
  exact hnone.consistent_of_heard (s := .connectingWaitConnectReplyAuth)
    (Conn.phase_of_state rfl (by decide)) rfl (by decide) (h.announced (Or.inl hphase))
    (h.written r hmem) fun hne ↦ absurd rfl hne

/-- The client heeds its reply: it asks again, waits, or goes on with the session. -/
theorem Consistent.heeds {d : Dialogue} {c c' : Conn Chunk} {inp : Input Chunk} {s : State} {g : ℕ}
    {rest : List Chunk} (h : d.Consistent c) (hs : c.state = .connectingWaitConnectReplyAuth)
    (hheeds : Conn.Heeds c inp c' s g) (hrest : ∃ l, replies d.toClient = l ++ replies rest) :
    (d.clientMoved { conn := { c' with state := s }, gseq := g } rest).Consistent
      { c' with state := s } := by
  have hphase : c.phase = .connectingWaitConnectReplyAuth := Conn.phase_of_state hs (by decide)
  have hs' := h.silent_of_state hs (by decide)
  have hmem : c.phase ∈ heardPhases := by
    rw [hphase]
    decide
  have hretry (c' : Conn Chunk) (g : ℕ) (hout : asks c'.outcomingBl = []) :
      (d.clientMoved { conn := { c' with state := .connectingSendConnectMsg }, gseq := g }
        rest).Consistent { c' with state := .connectingSendConnectMsg } :=
    Silent.consistent_of_phase (s := .connectingSendConnectMsg) (hs'.clientMoved hrest hout)
      (Conn.phase_of_state rfl (by decide)) rfl (by decide)
  have haccept (s : State) (hs : s ∈ heardPhases) (hne : s ≠ .waitSend)
      (hopen : s.isOpen = false) (htag : c.connectReply.tag = Tag.seq ∨
        c.connectReply.tag = Tag.ready) :
      (d.clientMoved { conn := { c with state := s }, gseq := inp.gseq } rest).Consistent
        { c with state := s } :=
    Silent.consistent_of_heard (hs'.clientMoved hrest hs'.asked.2)
      (Conn.phase_of_state rfl hne) hopen hs (h.announced (Or.inr hmem)) (h.heard hmem) fun _ ↦ htag
  cases hheeds with
  | badAuthorizer => exact hretry _ _ hs'.asked.2
  | resetSession => exact hretry _ _ rfl
  | retryGlobal => exact hretry _ _ hs'.asked.2
  | retrySession => exact hretry _ _ hs'.asked.2
  | wait =>
    exact Silent.consistent_of_phase (s := .wait) (hs'.clientMoved hrest hs'.asked.2)
      (Conn.phase_of_state rfl (by decide)) rfl (by decide)
  | seq htag => exact haccept _ (by decide) (by decide) rfl (Or.inl htag)
  | ready htag => exact haccept _ (by decide) (by decide) rfl (Or.inr htag)

/-- The client opens the session that the acceptor has accepted. -/
theorem Consistent.connected {d : Dialogue} {c : Conn Chunk} {gseq : ℕ} {rest : List Chunk}
    (h : d.Consistent c) (hs : c.state = .connectingReady)
    (hseq : inc32 c.connectSeq = c.connectReply.connectSeq)
    (hrest : ∃ l, replies d.toClient = l ++ replies rest) :
    (c.connectDone gseq).flow ≠ .abort ∧
      (d.clientMoved (c.connectDone gseq) rest).Consistent (c.connectDone gseq).conn := by
  have hphase : c.phase = .connectingReady := Conn.phase_of_state hs (by decide)
  have hs' := h.silent_of_state hs (by decide)
  have hmem : c.phase ∈ heardPhases := by
    rw [hphase]
    decide
  obtain ⟨hcs, hgs⟩ := h.announced (Or.inr hmem)
  obtain ⟨a, ha, haccepted⟩ := (h.heard hmem).accept (h.accepted (Or.inr hphase))
  simp only [Conn.connectDone, if_pos hseq]
  refine ⟨by simp, Silent.consistent (hs'.clientMoved hrest hs'.asked.2) (Or.inr rfl) ?_ ?_ ?_
    fun _ ↦ ?_⟩
  · intro hp
    exact absurd hp (by simp [Conn.phase, heardPhases])
  · intro hp
    exact absurd hp (by simp [Conn.phase, heardPhases])
  · intro hp
    exact absurd hp (by simp [Conn.phase])
  · refine ⟨a, ha, ?_, haccepted.features.symm, haccepted.lossy.symm, ?_⟩
    · rw [haccepted.connectSeq, ← hseq]
    · rw [haccepted.peerGlobalSeq, hgs]

/-- **One move of the client** keeps what it can rely on. -/
theorem Consistent.move {d : Dialogue} {c : Conn Chunk} {inp : Input Chunk} {o : Outcome Chunk}
    {rest : List Chunk} (h : d.Consistent c) (hopen : c.state.isOpen = false)
    (hwait : c.state ≠ .wait) (hmove : Conn.Move Frame.chunks c inp o)
    (hread : replies d.toClient = replies inp.read.chunks ++ replies rest) (hfail : o.flow ≠ .fail) :
    o.flow ≠ .abort ∧ (d.clientMoved o rest).Consistent o.conn := by
  have hrest : ∃ l, replies d.toClient = l ++ replies rest := ⟨_, hread⟩
  cases hmove with
  | waits evRead =>
    refine ⟨by simp, h.congr rfl ?_ hrest⟩
    rw [List.append_nil]
  | flushes hs hout hafter =>
    have hplace : c.stateAfterSend ∈ clientPhases := by
      have hplace := h.place
      rw [Conn.phase, if_pos hs, hopen] at hplace
      exact hplace.resolve_right (by simp)
    have hnot : c.stateAfterSend ≠ .waitSend ∧ c.stateAfterSend.isOpen = false := by
      revert hplace
      generalize c.stateAfterSend = s
      cases s <;> decide
    refine ⟨by simp, h.congr ?_ ?_ hrest⟩
    · simp only [face, Prod.mk.injEq]
      refine ⟨?_, hnot.2.trans hopen.symm, trivial⟩
      rw [Conn.phase_of_state rfl hnot.1, Conn.phase, if_pos hs]
    · rw [List.append_nil]
  | aborts htrips => exact (h.not_tripsAssert hopen hwait htrips).elim
  | fails => exact absurd rfl hfail
  -- the socket has been dialled before
  | dials fd hs => exact (h.not_state hs (by decide)).elim
  | failsDial hs => exact (h.not_state hs (by decide)).elim
  | sends d' frames next k evWrite s a hprep hnext =>
    exact ⟨by simp, h.sends hprep hnext ⟨evWrite, rfl⟩ rfl hrest⟩
  | failsSend => exact absurd rfl hfail
  | hears r hs hr =>
    rw [hr] at hread
    exact ⟨by simp, h.hears hs hread⟩
  | heeds d' s g hs hheeds => exact ⟨by simp, h.heeds hs hheeds hrest⟩
  | connected hs hseq => exact h.connected hs hseq hrest
  -- what follows are the moves of an accepting connection
  | identified hs => exact (h.not_state hs (by decide)).elim
  | asked m hs => exact (h.not_state hs (by decide)).elim
  | refuses _ _ _ _ _ _ _ _ hs => exact (h.not_state hs (by decide)).elim
  | failsReply => exact absurd rfl hfail
  | handsOver _ _ _ _ hs => exact (h.not_state hs (by decide)).elim
  | opens _ hs => exact (h.not_state hs (by decide)).elim
  | notifies hs => exact (h.not_state hs (by decide)).elim
  | gotSeq _ hs => exact (h.not_state hs (by decide)).elim
  | accepted hs => exact (h.not_state hs (by decide)).elim

/-! ### The accepting side

The same for the other end. A connection that serves the socket is in one of the states up to the
open session, and it moves the exchange along at four places: it takes the client's message into its
hands, answers at once, prepares a reply, and sends what it has prepared. At a fifth it hands its
socket, and the message with it, to the registered connection. -/

/-- The states an accepting connection enters after it has sent something. -/
def afterReply : List State := [.acceptingWaitBannerAddr, .acceptingWaitSeq, .acceptingReady]

/-- The states of a connection that serves a socket, up to the open session. -/
def acceptorStates : List State :=
  [.waitSend, .accepting, .acceptingWaitBannerAddr, .acceptingWaitConnectMsg,
    .acceptingWaitConnectMsgAuth, .acceptingWaitSeq, .acceptingReady]

/-- What is known of a connection that serves the socket. -/
structure Serves (s : Conn Chunk) (answered : Option (Conn Chunk)) : Prop where
  place : s.state ∈ acceptorStates ∨ s.state.isOpen = true
  after : s.state = .waitSend → s.stateAfterSend ∈ afterReply
  opening : ∀ frames next, s.opening = some (frames, next) →
    s.state = .acceptingWaitConnectMsgAuth ∧ (next = .acceptingWaitSeq ∨ next = .acceptingReady) ∧
      asks (frames.flatMap Frame.chunks) = [] ∧
      ∃ r, replies (frames.flatMap Frame.chunks) = [r]
  /-- From the moment it has accepted, it goes straight to the open session. -/
  settled : ∀ a, answered = some a →
    (s.phase = .acceptingWaitSeq ∨ s.phase = .acceptingReady ∨ s.state.isOpen = true) ∧
      s.connectSeq = a.connectSeq ∧ s.features = a.features ∧ s.policy.lossy = a.policy.lossy ∧
      s.peerGlobalSeq = a.peerGlobalSeq

/-- The invariant of a socket. -/
structure Inv (d : Dialogue) : Prop where
  sound : d.aborted = false
  client : ∀ c, d.client = some c → d.Consistent c
  serving : ∀ s, d.acceptor = .serving s → Serves s d.answered
  handed : ∀ m, d.acceptor = .handed m → d.answered = none

/-- What the accepting side does, as far as the client `c` is concerned. -/
theorem Consistent.acceptor {d : Dialogue} {c : Conn Chunk} {acceptor : Acceptor}
    {up down : List Chunk} {answered : Option (Conn Chunk)} (h : d.Consistent c)
    (hlen : (asks up).length + acceptor.question.length + (acceptor.drafted.length +
      (replies (down ++ acceptor.output)).length) ≤
      (asks d.toAcceptor).length + d.acceptor.question.length + d.pending.length)
    (hasks : ∀ m, m ∈ asks up ∨ m ∈ acceptor.question →
      m ∈ asks d.toAcceptor ∨ m ∈ d.acceptor.question)
    (hwritten : ∀ r ∈ replies (down ++ acceptor.output), Answers c.connectMsg r answered)
    (hdrafted : ∀ s, acceptor = .serving s →
      ∀ r ∈ acceptor.drafted, Answers c.connectMsg r (some s))
    (hans : answered = d.answered ∨ c.phase = .connectingWaitConnectReply) :
    ({ d with acceptor, toAcceptor := up, toClient := down, answered } : Dialogue).Consistent c where
  place := h.place
  few := by
    have hfew := h.few
    simp only [questions, pending, asks_append, replies_append, List.length_append] at hfew hlen ⊢
    omega
  same m hm := by
    apply h.same m
    simp only [questions, asks_append, List.mem_append] at hm ⊢
    have hasks' := hasks m
    tauto
  written := hwritten
  drafted := hdrafted
  announced := h.announced
  heard hp := by
    rcases hans with heq | hphase
    · rw [heq]
      exact h.heard hp
    · rw [hphase] at hp
      exact absurd hp (by decide)
  accepted := h.accepted
  agreed ho := by
    rcases hans with heq | hphase
    · rw [heq]
      exact h.agreed ho
    · have hne : c.state ≠ .waitSend := fun hw ↦ absurd (hw ▸ ho) (by decide)
      rw [Conn.phase_of_state rfl hne] at hphase
      exact absurd (hphase ▸ ho) (by decide)

/-- The dialogue after a pass of the accepting connection that goes on. -/
def acceptorMoved (d : Dialogue) (s : Conn Chunk) (o : Outcome Chunk) (rest : List Chunk) :
    Dialogue :=
  { d with
    acceptor := match o.effect with
      | .replace _ => .handed s.connectMsg
      | _ => .serving o.conn
    toAcceptor := rest
    toClient := d.toClient ++ o.wrote
    answered := if s.opening.isSome ∧ o.conn.opening = none then some s else d.answered }

/-- Before it has accepted, a connection is in any other state. -/
theorem Serves.unanswered {s : Conn Chunk} {st : State} {answered : Option (Conn Chunk)}
    (h : Serves s answered) (hs : s.state = st)
    (hst : st ∉ [State.waitSend, .acceptingWaitSeq, .acceptingReady] ∧ st.isOpen = false) :
    answered = none := by
  cases answered with
  | none => rfl
  | some a =>
    obtain ⟨hphase, -⟩ := h.settled a rfl
    have hne : st ≠ .waitSend := fun heq ↦ hst.1 (by simp [heq])
    rw [Conn.phase_of_state hs hne, hs, hst.2] at hphase
    simp only [Bool.false_eq_true, or_false] at hphase
    exact absurd hphase fun heq ↦ hst.1 (by rcases heq with rfl | rfl <;> simp)

theorem Serves.not_state {s : Conn Chunk} {st : State} {answered : Option (Conn Chunk)}
    (h : Serves s answered) (hs : s.state = st)
    (hst : st ∉ acceptorStates ∧ st.isOpen = false) : False := by
  have hplace := h.place
  rw [hs, hst.2] at hplace
  exact hst.1 (hplace.resolve_right (by simp))

theorem Serves.opening_none {s : Conn Chunk} {st : State} {answered : Option (Conn Chunk)}
    (h : Serves s answered) (hs : s.state = st) (hst : st ≠ .acceptingWaitConnectMsgAuth) :
    s.opening = none := by
  cases hopening : s.opening with
  | none => rfl
  | some p => exact absurd ((h.opening p.1 p.2 hopening).1.symm.trans hs) hst.symm

/-- Where a sending state of the accepting side leads. -/
theorem afterReply_of_enters {all : Prop} {old next st a : State}
    (h : Conn.Enters all old next st a) (hnext : next ∈ afterReply) :
    st ∈ acceptorStates ∧ (st = .waitSend → a ∈ afterReply) := by
  have hne : next ≠ .waitSend ∧ next ∈ acceptorStates := by
    revert hnext
    cases next <;> decide
  cases h with
  | now => exact ⟨hne.2, fun hw ↦ absurd hw hne.1⟩
  | later => exact ⟨List.mem_cons_self, fun _ ↦ hnext⟩

/-- A connection that has not accepted yet, and has nothing prepared. -/
theorem serves_of_unanswered {c : Conn Chunk} {s : State} (hs : c.state = s)
    (hplace : s ∈ acceptorStates ∧ s ≠ .waitSend) (hopening : c.opening = none) :
    Serves c none where
  place := Or.inl (hs ▸ hplace.1)
  after hw := absurd (hs.symm.trans hw) hplace.2
  opening frames next h := by
    rw [hopening] at h
    exact absurd h (by simp)
  settled a h := absurd h (by simp)

/-- What the connection that accepts a session prepares. -/
theorem opening_openSession (s : Conn Chunk) (m : MsgConnect) (auth : Bytes) (protoVersion gseq : ℕ) :
    ∃ r next rest, (s.openSession m auth protoVersion gseq).conn.opening =
        some (.reply r auth :: rest, next) ∧
      (next = .acceptingWaitSeq ∨ next = .acceptingReady) ∧ (rest = [] ∨ ∃ n, rest = [.seq n]) ∧
      Accepted m r (s.openSession m auth protoVersion gseq).conn ∧
      (r.tag = Tag.seq ∨ r.tag = Tag.ready) := by
  have hflags : s.policy.lossy = decide ((if s.policy.lossy then connectLossy else 0) &&& connectLossy ≠ 0) := by
    cases s.policy.lossy <;> rfl
  simp only [Conn.openSession]
  by_cases hresume : s.replacing ≠ 0 ∧ !s.isResetFromPeer
  · simp only [if_pos hresume]
    exact ⟨_, _, _, rfl, Or.inl rfl, Or.inr ⟨_, rfl⟩, ⟨rfl, rfl, rfl, hflags, rfl⟩, Or.inl rfl⟩
  · simp only [if_neg hresume]
    exact ⟨_, _, _, rfl, Or.inr rfl, Or.inl rfl, ⟨rfl, rfl, rfl, hflags, rfl⟩, Or.inr rfl⟩

/-- Only the reply of an accepted session empties `opening`, and makes it the one that was answered. -/
theorem answered_of_same {s : Conn Chunk} {answered : Option (Conn Chunk)}
    {t : Option (List Frame × State)} (ht : t = s.opening) :
    (if s.opening.isSome ∧ t = none then some s else answered) = answered := by
  refine if_neg fun hboth ↦ ?_
  rw [← ht, hboth.2] at hboth
  exact absurd hboth.1 (by simp)

/-- What was written has gone out: the connection enters the state it has kept for this moment. -/
theorem Serves.flushes {s : Conn Chunk} {answered : Option (Conn Chunk)} (h : Serves s answered)
    (hs : s.state = .waitSend) (evRead : Bool) :
    Serves { s with state := s.stateAfterSend, stateAfterSend := .none, evRead } answered := by
  have hnone := h.opening_none hs (by decide)
  have hnot : s.stateAfterSend ∈ acceptorStates ∧ s.stateAfterSend ≠ .waitSend := by
    have hmem := h.after hs
    revert hmem
    generalize s.stateAfterSend = st
    cases st <;> decide
  refine ⟨Or.inl hnot.1, fun hw ↦ absurd hw hnot.2, fun frames next heq ↦ ?_, fun a ha ↦ ?_⟩
  · exact absurd (hnone.symm.trans heq) (by simp)
  · -- the phase is that of the state that was kept, which does not change
    obtain ⟨hphase, hrest⟩ := h.settled a ha
    rw [Conn.phase, if_pos hs, hs] at hphase
    refine ⟨?_, hrest⟩
    rw [Conn.phase_of_state rfl hnot.2]
    rcases hphase with hseq | hready | hfalse
    · exact Or.inl hseq
    · exact Or.inr (Or.inl hready)
    · exact absurd hfalse (by decide)

/-- The reply goes out, and the connection is now the one that has accepted. -/
theorem Serves.replies {s : Conn Chunk} {answered : Option (Conn Chunk)} {frames : List Frame}
    {next st a : State} {all : Prop} {out : List Chunk} {evWrite : Bool} (h : Serves s answered)
    (hopening : s.opening = some (frames, next))
    (hnext : Conn.Enters all s.stateAfterSend next st a) :
    Serves { s with opening := none, notified := false, replacing := 0, outcomingBl := out, evWrite,
                    state := st, stateAfterSend := a } (some s) := by
  obtain ⟨-, hmem, -⟩ := h.opening frames next hopening
  have hne : next ≠ .waitSend ∧ next ∈ afterReply := by
    rcases hmem with rfl | rfl <;> decide
  obtain ⟨hplace, hafter⟩ := afterReply_of_enters hnext hne.2
  refine ⟨Or.inl hplace, hafter, fun frames next heq ↦ absurd heq (by simp), fun a ha ↦ ?_⟩
  rw [Option.some_inj] at ha
  subst ha
  refine ⟨?_, rfl, rfl, rfl, rfl⟩
  rw [hnext.phase_eq hne.1 rfl rfl]
  exact hmem.imp_right Or.inl

/-- The connection that accepts a session has its reply prepared, and has not sent it. -/
theorem serves_of_openSession {s : Conn Chunk} (hs : s.state = .acceptingWaitConnectMsgAuth) (m : MsgConnect)
    (auth : Bytes) (protoVersion gseq : ℕ) : Serves (s.openSession m auth protoVersion gseq).conn none := by
  obtain ⟨r, next, rest, hprepared, hnext, hrest, -⟩ := opening_openSession s m auth protoVersion gseq
  have hstate : (s.openSession m auth protoVersion gseq).conn.state = .acceptingWaitConnectMsgAuth := by
    simp only [Conn.openSession]
    split_ifs <;> exact hs
  have hframes : asks ((Frame.reply r auth :: rest).flatMap Frame.chunks) = [] ∧
      replies ((Frame.reply r auth :: rest).flatMap Frame.chunks) = [r] := by
    rw [List.flatMap_cons, asks_append, replies_append, asks_reply, replies_reply]
    rcases hrest with rfl | ⟨n, rfl⟩ <;> exact ⟨rfl, rfl⟩
  refine ⟨Or.inl (hstate ▸ by decide), fun hw ↦ ?_, fun frames next' heq ↦ ?_,
    fun a ha ↦ absurd ha (by simp)⟩
  · exact absurd (hstate.symm.trans hw) (by decide)
  · rw [hprepared, Option.some_inj, Prod.mk.injEq] at heq
    obtain ⟨rfl, rfl⟩ := heq
    exact ⟨hstate, hnext, hframes.1, r, hframes.2⟩

/-- **One move of the accepting connection** keeps what is known of it. -/
theorem Serves.move {s : Conn Chunk} {answered : Option (Conn Chunk)} {inp : Input Chunk}
    {o : Outcome Chunk} (h : Serves s answered) (hmove : Conn.Move Frame.chunks s inp o)
    (hfail : o.flow ≠ .fail) (habort : o.flow ≠ .abort) (heffect : ∀ e, o.effect ≠ .replace e) :
    Serves o.conn (if s.opening.isSome ∧ o.conn.opening = none then some s else answered) := by
  cases hmove with
  | waits evRead =>
    rw [answered_of_same rfl]
    exact ⟨h.place, h.after, h.opening, h.settled⟩
  | flushes hs hout hafter =>
    rw [answered_of_same rfl]
    exact h.flushes hs true
  | aborts htrips => exact absurd rfl habort
  | fails => exact absurd rfl hfail
  -- the moves of a client
  | dials fd hs => exact (h.not_state hs (by decide)).elim
  | failsDial hs => exact (h.not_state hs (by decide)).elim
  | sends d' frames next k evWrite st a hprep hnext =>
    cases hprep with
    | banner hs => exact (h.not_state hs (by decide)).elim
    | addr hs => exact (h.not_state hs (by decide)).elim
    | connect _ _ hs => exact (h.not_state hs (by decide)).elim
    | seq _ hs => exact (h.not_state hs (by decide)).elim
    | greeting hs =>
      have hnone := h.opening_none hs (by decide)
      rw [answered_of_same rfl, h.unanswered hs (by decide)]
      obtain ⟨hplace, hafter⟩ := afterReply_of_enters hnext (by decide)
      refine ⟨Or.inl hplace, hafter, fun frames next heq ↦ ?_, fun a ha ↦ absurd ha (by simp)⟩
      exact absurd (hnone.symm.trans heq) (by simp)
    | reply frames next hs hopening =>
      rw [if_pos ⟨by rw [hopening]; rfl, rfl⟩]
      exact h.replies hopening hnext
  | failsSend => exact absurd rfl hfail
  | hears r hs hr => exact (h.not_state hs (by decide)).elim
  | heeds d' s g hs hheeds => exact (h.not_state hs (by decide)).elim
  | connected hs hseq => exact (h.not_state hs (by decide)).elim
  -- up to the answer nothing has been promised
  | identified hs =>
    rw [answered_of_same rfl, h.unanswered hs (by decide)]
    exact serves_of_unanswered (s := .acceptingWaitConnectMsg) rfl (by decide)
      (h.opening_none hs (by decide))
  | asked m hs =>
    rw [answered_of_same rfl, h.unanswered hs (by decide)]
    exact serves_of_unanswered (s := .acceptingWaitConnectMsgAuth) rfl (by decide)
      (h.opening_none hs (by decide))
  | refuses p tag reply auth effect r k evWrite hs hopening =>
    rw [answered_of_same rfl, h.unanswered hs (by decide)]
    exact serves_of_unanswered (s := .acceptingWaitConnectMsg) rfl (by decide) hopening
  | failsReply => exact absurd rfl hfail
  | handsOver _ _ _ _ hs => exact absurd rfl (heffect _)
  | opens p hs hopening hp hv =>
    rw [if_neg fun hboth ↦ absurd (hopening ▸ hboth.1) (by simp), h.unanswered hs (by decide)]
    exact serves_of_openSession (s := { s with policy := p }) hs s.connectMsg inp.authorizerReply
      inp.protoVersion inp.gseq
  | notifies =>
    rw [answered_of_same rfl]
    exact ⟨h.place, h.after, h.opening, h.settled⟩
  -- from the answer on only the state changes
  | gotSeq _ hs =>
    have hnone := h.opening_none hs (by decide)
    rw [answered_of_same rfl]
    refine ⟨Or.inl (by simp [acceptorStates]), fun hw ↦ absurd hw (by simp), fun frames next heq ↦ ?_,
      fun a ha ↦ ⟨Or.inr (Or.inl (Conn.phase_of_state rfl (by simp))), (h.settled a ha).2⟩⟩
    exact absurd (hnone.symm.trans heq) (by simp)
  | accepted hs =>
    have hnone := h.opening_none hs (by decide)
    rw [answered_of_same rfl]
    refine ⟨Or.inr rfl, fun hw ↦ absurd hw (by simp), fun frames next heq ↦ ?_,
      fun a ha ↦ ⟨Or.inr (Or.inr rfl), (h.settled a ha).2⟩⟩
    exact absurd (hnone.symm.trans heq) (by simp)

/-- A step of the accepting connection that moves nothing of the exchange along. -/
theorem Consistent.acceptor_quiet {d : Dialogue} {c s s' : Conn Chunk} {up wrote : List Chunk}
    (h : d.Consistent c) (hacc : d.acceptor = .serving s)
    (hquestion : (Acceptor.serving s').question = (Acceptor.serving s).question)
    (hopening : s'.opening = s.opening)
    (hsame : s'.connectSeq = s.connectSeq ∧ s'.features = s.features ∧
      s'.policy.lossy = s.policy.lossy ∧ s'.peerGlobalSeq = s.peerGlobalSeq)
    (hout : replies (wrote ++ s'.outcomingBl) = replies s.outcomingBl)
    (hup : ∃ l, asks d.toAcceptor = l ++ asks up) :
    ({ d with
        acceptor := .serving s', toAcceptor := up, toClient := d.toClient ++ wrote } :
      Dialogue).Consistent c := by
  obtain ⟨l, hl⟩ := hup
  have hdrafted : (Acceptor.serving s').drafted = (Acceptor.serving s).drafted := by
    rw [Acceptor.drafted, Acceptor.drafted, hopening]
  have hwritten : replies (d.toClient ++ wrote ++ s'.outcomingBl) =
      replies (d.toClient ++ d.acceptor.output) := by
    rw [List.append_assoc, replies_append, hout, hacc, replies_append]
    rfl
  refine h.acceptor ?_ ?_ ?_ ?_ (Or.inl rfl)
  · rw [hquestion, hdrafted, Acceptor.output, hwritten, pending, hacc, hl]
    simp only [List.length_append]
    omega
  · rw [hquestion, hl, hacc]
    intro m hm
    exact hm.imp_left (List.mem_append_right l)
  · rw [Acceptor.output, hwritten]
    exact h.written
  · intro t ht r hr
    rw [hdrafted, ← hacc] at hr
    rw [Acceptor.serving.injEq] at ht
    subst ht
    have hanswers := h.drafted s hacc r hr
    refine ⟨hanswers.retry, fun htag ↦ ?_⟩
    obtain ⟨a, ha, haccepted⟩ := hanswers.accept htag
    rw [Option.some_inj] at ha
    subst ha
    obtain ⟨hseq, hfeatures, hlossy, hglobal⟩ := hsame
    exact ⟨s', rfl, haccepted.next, hseq.trans haccepted.connectSeq,
      hfeatures.trans haccepted.features, hlossy.trans haccepted.lossy,
      hglobal.trans haccepted.peerGlobalSeq⟩

/-- A connection has no connect message in its hands, except where it handles one. -/
theorem question_eq_nil {c : Conn Chunk} {s : State} (hs : c.state = s)
    (hne : s ≠ .acceptingWaitConnectMsgAuth) : (Acceptor.serving c).question = [] := by
  refine if_neg fun hboth ↦ ?_
  rw [hs] at hboth
  exact hne hboth.1

/-- While the accepting side has the client's connect message in its hands, nothing else is under
way. -/
theorem Consistent.question {d : Dialogue} {c : Conn Chunk} {m : MsgConnect} (h : d.Consistent c)
    (hq : d.acceptor.question = [m]) :
    c.phase = .connectingWaitConnectReply ∧ m = c.connectMsg ∧ asks d.toAcceptor = [] ∧
      asks c.outcomingBl = [] ∧ d.acceptor.drafted = [] ∧
      replies (d.toClient ++ d.acceptor.output) = [] := by
  have hfew := h.few
  simp only [questions, pending, hq, List.length_append, List.length_singleton] at hfew
  by_cases hphase : c.phase = .connectingWaitConnectReply
  · rw [if_pos hphase] at hfew
    have hsame := h.same m (by rw [questions, hq]; exact List.mem_append_right _ List.mem_cons_self)
    have hasks := List.length_eq_zero_iff.mp (by omega :
      (asks (d.toAcceptor ++ c.outcomingBl)).length = 0)
    rw [asks_append, List.append_eq_nil_iff] at hasks
    exact ⟨hphase, hsame, hasks.1, hasks.2, List.length_eq_zero_iff.mp (by omega),
      List.length_eq_zero_iff.mp (by omega)⟩
  · rw [if_neg hphase] at hfew
    omega

/-- The accepting side answers at once. -/
theorem Consistent.replied {d : Dialogue} {c : Conn Chunk} {m : MsgConnect} {acceptor : Acceptor}
    {up wrote : List Chunk} {r : MsgConnectReply} (h : d.Consistent c)
    (hq : d.acceptor.question = [m]) (hq' : acceptor.question = []) (hdrafted : acceptor.drafted = [])
    (hout : replies (wrote ++ acceptor.output) = [r]) (hup : ∃ l, asks d.toAcceptor = l ++ asks up)
    (hans : Answers m r d.answered) :
    ({ d with acceptor, toAcceptor := up, toClient := d.toClient ++ wrote } :
      Dialogue).Consistent c := by
  obtain ⟨-, hsame, hasks, -, hnone, hwritten⟩ := h.question hq
  obtain ⟨l, hl⟩ := hup
  rw [hasks] at hl
  rw [replies_append, List.append_eq_nil_iff] at hwritten
  have hreplies : replies (d.toClient ++ wrote ++ acceptor.output) = [r] := by
    rw [List.append_assoc, replies_append, hwritten.1, hout]
    rfl
  refine h.acceptor ?_ ?_ ?_ ?_ (Or.inl rfl)
  · rw [(List.append_eq_nil_iff.mp hl.symm).2, hq', hdrafted, hreplies, hq]
    simp only [List.length_nil, List.length_singleton]
    omega
  · rw [(List.append_eq_nil_iff.mp hl.symm).2, hq']
    intro m' hm'
    exact absurd hm' (by simp)
  · intro r' hr'
    rw [hreplies, List.mem_singleton] at hr'
    exact hr' ▸ hsame ▸ hans
  · intro s _ r' hr'
    rw [hdrafted] at hr'
    exact absurd hr' (by simp)

/-- The accepting side sends the reply it has prepared. -/
theorem Consistent.published {d : Dialogue} {c s : Conn Chunk} {acceptor : Acceptor}
    {up wrote : List Chunk} {r : MsgConnectReply} (h : d.Consistent c)
    (hacc : d.acceptor = .serving s) (hd : d.acceptor.drafted = [r])
    (hq : acceptor.question = []) (hdrafted : acceptor.drafted = [])
    (hout : replies (wrote ++ acceptor.output) = replies s.outcomingBl ++ [r])
    (hup : ∃ l, asks d.toAcceptor = l ++ asks up) :
    ({ d with
        acceptor, toAcceptor := up, toClient := d.toClient ++ wrote, answered := some s } :
      Dialogue).Consistent c := by
  obtain ⟨l, hl⟩ := hup
  have hfew := h.few
  simp only [questions, pending, hd, List.length_append, List.length_singleton] at hfew
  have hphase : c.phase = .connectingWaitConnectReply := by
    by_contra hne
    rw [if_neg hne] at hfew
    omega
  rw [if_pos hphase] at hfew
  have hwritten : replies (d.toClient ++ d.acceptor.output) = [] :=
    List.length_eq_zero_iff.mp (by omega)
  rw [hacc, Acceptor.output, replies_append, List.append_eq_nil_iff] at hwritten
  have hreplies : replies (d.toClient ++ wrote ++ acceptor.output) = [r] := by
    rw [List.append_assoc, replies_append, hwritten.1, hout, hwritten.2]
    rfl
  refine h.acceptor ?_ ?_ ?_ ?_ (Or.inr hphase)
  · rw [hq, hdrafted, hreplies, pending, hd, hl]
    simp only [List.length_append, List.length_nil, List.length_singleton]
    omega
  · rw [hq, hl]
    intro m hm
    exact Or.inl (List.mem_append_right l (hm.resolve_right (by simp)))
  · intro r' hr'
    rw [hreplies, List.mem_singleton] at hr'
    subst hr'
    exact h.drafted s hacc r' (by rw [hd]; exact List.mem_cons_self)
  · intro t _ r' hr'
    rw [hdrafted] at hr'
    exact absurd hr' (by simp)

/-- The accepting side takes the client's connect message into its hands. -/
theorem Consistent.questioned {d : Dialogue} {c s s' : Conn Chunk} {m : MsgConnect} {up : List Chunk}
    (h : d.Consistent c) (hacc : d.acceptor = .serving s)
    (hnot : (Acceptor.serving s).question = []) (hq : (Acceptor.serving s').question = [m])
    (hopening : s.opening = none) (hopening' : s'.opening = none)
    (hout : s'.outcomingBl = s.outcomingBl) (hup : asks d.toAcceptor = m :: asks up) :
    ({ d with acceptor := .serving s', toAcceptor := up, toClient := d.toClient ++ [] } :
      Dialogue).Consistent c := by
  have hdrafted {t : Conn Chunk} (ht : t.opening = none) : (Acceptor.serving t).drafted = [] := by
    rw [Acceptor.drafted, ht]
    rfl
  have hwritten : replies (d.toClient ++ [] ++ s'.outcomingBl) =
      replies (d.toClient ++ d.acceptor.output) := by
    rw [List.append_nil, hout, hacc]
    rfl
  refine h.acceptor ?_ ?_ ?_ ?_ (Or.inl rfl)
  · -- the message has left the wire
    rw [hq, hup, hdrafted hopening', Acceptor.output, hwritten, pending, hacc, hnot, hdrafted hopening]
    simp only [List.length_cons, List.length_nil, List.length_append]
    omega
  · rw [hq, hup]
    intro m' hm'
    simp only [List.mem_cons, List.not_mem_nil, or_false] at hm' ⊢
    exact Or.inl hm'.symm
  · rw [Acceptor.output, hwritten]
    exact h.written
  · intro t _ r hr
    rw [hdrafted hopening'] at hr
    exact absurd hr (by simp)

/-- The accepting side hands its socket over, and the client's connect message with it. -/
theorem Consistent.handedOver {d : Dialogue} {c : Conn Chunk} {m : MsgConnect} {up : List Chunk}
    (h : d.Consistent c) (hq : d.acceptor.question = [m])
    (hup : ∃ l, asks d.toAcceptor = l ++ asks up) :
    ({ d with acceptor := .handed m, toAcceptor := up, toClient := d.toClient ++ [] } :
      Dialogue).Consistent c := by
  obtain ⟨-, -, hasks, -, -, hwritten⟩ := h.question hq
  obtain ⟨l, hl⟩ := hup
  rw [replies_append, List.append_eq_nil_iff] at hwritten
  rw [hasks] at hl
  have hrest : asks up = [] := (List.append_eq_nil_iff.mp hl.symm).2
  have hreplies : replies (d.toClient ++ [] ++ (Acceptor.handed m).output) = [] := by
    rw [List.append_nil, replies_append, hwritten.1]
    rfl
  refine h.acceptor ?_ ?_ ?_ ?_ (Or.inl rfl)
  · have hdrafted : (Acceptor.handed m).drafted = [] := rfl
    rw [hreplies, hrest, hq, Acceptor.question, hdrafted]
    simp only [List.length_nil, List.length_singleton]
    omega
  · rw [hrest, hq]
    intro m hm
    exact hm.imp_left fun hnil ↦ absurd hnil (by simp)
  · rw [hreplies]
    exact fun r hr ↦ absurd hr (by simp)
  · exact fun t ht ↦ absurd ht (by simp)

/-- The accepting side prepares its reply, and keeps it for now. -/
theorem Consistent.prepared {d : Dialogue} {c s s' : Conn Chunk} {m : MsgConnect} {up : List Chunk}
    {r : MsgConnectReply} (h : d.Consistent c) (hacc : d.acceptor = .serving s)
    (hq : d.acceptor.question = [m]) (hq' : (Acceptor.serving s').question = [])
    (hdrafted : (Acceptor.serving s').drafted = [r]) (hout : s'.outcomingBl = s.outcomingBl)
    (hup : ∃ l, asks d.toAcceptor = l ++ asks up) (hans : Answers m r (some s')) :
    ({ d with acceptor := .serving s', toAcceptor := up, toClient := d.toClient ++ [] } :
      Dialogue).Consistent c := by
  obtain ⟨-, hsame, hasks, -, -, hwritten⟩ := h.question hq
  obtain ⟨l, hl⟩ := hup
  rw [hasks] at hl
  have hrest : asks up = [] := (List.append_eq_nil_iff.mp hl.symm).2
  have hreplies : replies (d.toClient ++ [] ++ (Acceptor.serving s').output) = [] := by
    rw [List.append_nil, Acceptor.output, hout]
    rw [hacc] at hwritten
    exact hwritten
  refine h.acceptor ?_ ?_ ?_ ?_ (Or.inl rfl)
  · rw [hreplies, hrest, hq', hdrafted, hq]
    simp only [List.length_nil, List.length_singleton]
    omega
  · rw [hrest, hq']
    exact fun m hm ↦ absurd hm (by simp)
  · rw [hreplies]
    exact fun r' hr' ↦ absurd hr' (by simp)
  · intro t ht r' hr'
    rw [hdrafted, List.mem_singleton] at hr'
    rw [Acceptor.serving.injEq] at ht
    subst ht hr'
    exact hsame ▸ hans

/-- The connection that accepts a session has the reply to the connect message in hand. -/
theorem serving_openSession (s : Conn Chunk) (m : MsgConnect) (auth : Bytes) (protoVersion gseq : ℕ) :
    ∃ r, (Acceptor.serving (s.openSession m auth protoVersion gseq).conn).drafted = [r] ∧
      (Acceptor.serving (s.openSession m auth protoVersion gseq).conn).question = [] ∧
      (s.openSession m auth protoVersion gseq).conn.outcomingBl = s.outcomingBl ∧
      Answers m r (some (s.openSession m auth protoVersion gseq).conn) := by
  obtain ⟨r, next, frames, hprepared, -, hframes, haccepted, htag⟩ :=
    opening_openSession s m auth protoVersion gseq
  have hout : (s.openSession m auth protoVersion gseq).conn.outcomingBl = s.outcomingBl := by
    simp only [Conn.openSession]
    split_ifs <;> rfl
  refine ⟨r, ?_, ?_, hout, ⟨fun hretry ↦ ?_, fun _ ↦ ⟨_, rfl, haccepted⟩⟩⟩
  · rw [Acceptor.drafted, hprepared, Option.map_some, Option.getD_some, List.flatMap_cons,
      replies_append, replies_reply]
    rcases hframes with rfl | ⟨n, rfl⟩ <;> rfl
  · refine if_neg fun hboth ↦ ?_
    rw [hprepared] at hboth
    exact absurd hboth.2 (by simp)
  · rcases htag with htag | htag <;> exact absurd (htag.symm.trans hretry) (by decide)

/-- A refusal of the accepting side. -/
theorem Consistent.refused {d : Dialogue} {c s : Conn Chunk} {inp : Input Chunk} {rest : List Chunk}
    {p : Policy} {tag k : ℕ} {reply r : MsgConnectReply} {auth : Bytes} {effect : Effect Chunk}
    {s' : Conn Chunk} (h : d.Consistent c) (hacc : d.acceptor = .serving s)
    (hq : d.acceptor.question = [s.connectMsg]) (hdeny : s.Denies inp p tag reply effect)
    (htag : r.tag = tag) (hrseq : r.connectSeq = reply.connectSeq)
    (hseq : c.connectSeq + 1 < 2 ^ 32)
    (hexisting : ∀ e, inp.existing = some e → e.connectSeq + 1 < 2 ^ 32)
    (hq' : (Acceptor.serving s').question = []) (hdrafted : (Acceptor.serving s').drafted = [])
    (hout : s'.outcomingBl = (s.outcomingBl ++ (Frame.reply r auth).chunks).drop k)
    (hup : ∃ l, asks d.toAcceptor = l ++ asks rest) :
    ({ d with
        acceptor := .serving s'
        toAcceptor := rest
        toClient := d.toClient ++ (s.outcomingBl ++ (Frame.reply r auth).chunks).take k } :
      Dialogue).Consistent c := by
  obtain ⟨hphase, hmsg, -, -, -, hwritten⟩ := h.question hq
  have hconnect : s.connectMsg.connectSeq + 1 < 2 ^ 32 := by
    rw [hmsg, (h.announced (Or.inl hphase)).1]
    exact hseq
  rw [hacc, Acceptor.output, replies_append, List.append_eq_nil_iff] at hwritten
  refine h.replied hq hq' hdrafted ?_ hup (answers_of_denies hdeny htag hrseq hconnect hexisting)
  rw [Acceptor.output, hout, List.take_append_drop, replies_append, hwritten.2, replies_reply]
  rfl

/-- **One move of the accepting connection** keeps what the client can rely on. -/
theorem Consistent.acceptor_move {d : Dialogue} {c s : Conn Chunk} {inp : Input Chunk}
    {o : Outcome Chunk} {rest : List Chunk} (h : d.Consistent c) (hserves : Serves s d.answered)
    (hacc : d.acceptor = .serving s) (hmove : Conn.Move Frame.chunks s inp o)
    (hread : asks d.toAcceptor = asks inp.read.chunks ++ asks rest)
    (hseq : c.connectSeq + 1 < 2 ^ 32)
    (hexisting : ∀ e, inp.existing = some e → e.connectSeq + 1 < 2 ^ 32)
    (hfail : o.flow ≠ .fail) (habort : o.flow ≠ .abort) :
    (d.acceptorMoved s o rest).Consistent c := by
  have hup : ∃ l, asks d.toAcceptor = l ++ asks rest := ⟨_, hread⟩
  have hquestion (hs : s.state = .acceptingWaitConnectMsgAuth) (hopening : s.opening = none) :
      d.acceptor.question = [s.connectMsg] := by
    rw [hacc, Acceptor.question, if_pos ⟨hs, hopening⟩]
  cases hmove with
  | waits evRead =>
    rw [acceptorMoved, answered_of_same rfl]
    exact h.acceptor_quiet hacc rfl rfl ⟨rfl, rfl, rfl, rfl⟩ rfl hup
  | flushes hs hout hafter =>
    rw [acceptorMoved, answered_of_same rfl]
    refine h.acceptor_quiet hacc ?_ rfl ⟨rfl, rfl, rfl, rfl⟩ rfl hup
    have hne : s.stateAfterSend ≠ .acceptingWaitConnectMsgAuth := by
      have hmem := hserves.after hs
      revert hmem
      generalize s.stateAfterSend = st
      cases st <;> decide
    rw [question_eq_nil hs (by decide), question_eq_nil rfl hne]
  | aborts htrips => exact absurd rfl habort
  | fails => exact absurd rfl hfail
  | dials fd hs => exact (hserves.not_state hs (by decide)).elim
  | failsDial hs => exact (hserves.not_state hs (by decide)).elim
  | sends d' frames next k evWrite st a hprep hnext =>
    cases hprep with
    | banner hs => exact (hserves.not_state hs (by decide)).elim
    | addr hs => exact (hserves.not_state hs (by decide)).elim
    | connect _ _ hs => exact (hserves.not_state hs (by decide)).elim
    | seq _ hs => exact (hserves.not_state hs (by decide)).elim
    | greeting hs =>
      rw [acceptorMoved, answered_of_same rfl]
      refine h.acceptor_quiet hacc ?_ rfl ⟨rfl, rfl, rfl, rfl⟩ ?_ hup
      · have hne : st ≠ .acceptingWaitConnectMsgAuth := by
          cases hnext <;> decide
        rw [question_eq_nil hs (by decide), question_eq_nil rfl hne]
      · rw [List.take_append_drop, replies_append]
        exact List.append_nil _
    | reply frames next hs hopening =>
      -- the prepared reply goes out, and the session counts as accepted
      obtain ⟨-, hmem, -, r, hr⟩ := hserves.opening frames next hopening
      have hdrafted : d.acceptor.drafted = [r] := by
        rw [hacc, Acceptor.drafted, hopening]
        exact hr
      rw [acceptorMoved, if_pos ⟨by rw [hopening]; rfl, rfl⟩]
      refine h.published hacc hdrafted ?_ rfl ?_ hup
      · have hne : st ≠ .acceptingWaitConnectMsgAuth := by
          rcases hmem with rfl | rfl <;> cases hnext <;> decide
        exact question_eq_nil rfl hne
      · rw [Acceptor.output, List.take_append_drop, replies_append, hr]
  | failsSend => exact absurd rfl hfail
  | hears r hs hr => exact (hserves.not_state hs (by decide)).elim
  | heeds d' s g hs hheeds => exact (hserves.not_state hs (by decide)).elim
  | connected hs hseq => exact (hserves.not_state hs (by decide)).elim
  | identified hs =>
    rw [acceptorMoved, answered_of_same rfl]
    refine h.acceptor_quiet hacc ?_ rfl ⟨rfl, rfl, rfl, rfl⟩ rfl hup
    rw [question_eq_nil hs (by decide), question_eq_nil rfl (by simp)]
  | asked m hs hr =>
    have hnone := hserves.opening_none hs (by decide)
    rw [hr, Read.chunks] at hread
    rw [acceptorMoved, answered_of_same rfl]
    exact h.questioned hacc (question_eq_nil hs (by decide)) (if_pos ⟨rfl, hnone⟩) hnone hnone rfl
      hread
  | refuses p tag reply auth effect r k evWrite hs hopening hp hdeny htag hrseq =>
    have hdrafted {t : Conn Chunk} (ht : t.opening = s.opening) :
        (Acceptor.serving t).drafted = [] := by
      rw [Acceptor.drafted, ht, hopening]
      rfl
    rw [acceptorMoved, answered_of_same rfl]
    rcases Conn.effect_of_denies hdeny with rfl | rfl
    · exact h.refused hacc (hquestion hs hopening) hdeny htag hrseq hseq hexisting
        (question_eq_nil rfl (by simp)) (hdrafted rfl) rfl hup
    · exact h.refused hacc (hquestion hs hopening) hdeny htag hrseq hseq hexisting
        (question_eq_nil rfl (by simp)) (hdrafted rfl) rfl hup
  | failsReply => exact absurd rfl hfail
  | handsOver p e reset fromPeer hs hopening =>
    rw [acceptorMoved, if_neg fun hboth ↦ absurd (hopening ▸ hboth.1) (by simp)]
    exact h.handedOver (hquestion hs hopening) hup
  | opens p hs hopening hp hv =>
    obtain ⟨r, hdrafted, hq', hout, hans⟩ := serving_openSession { s with policy := p } s.connectMsg
      inp.authorizerReply inp.protoVersion inp.gseq
    rw [acceptorMoved, if_neg fun hboth ↦ absurd (hopening ▸ hboth.1) (by simp)]
    exact h.prepared hacc (hquestion hs hopening) hq' hdrafted hout hup hans
  | notifies =>
    rw [acceptorMoved, answered_of_same rfl]
    exact h.acceptor_quiet hacc rfl rfl ⟨rfl, rfl, rfl, rfl⟩ rfl hup
  | gotSeq _ hs =>
    rw [acceptorMoved, answered_of_same rfl]
    refine h.acceptor_quiet hacc ?_ rfl ⟨rfl, rfl, rfl, rfl⟩ rfl hup
    rw [question_eq_nil hs (by decide), question_eq_nil rfl (by simp)]
  | accepted hs =>
    rw [acceptorMoved, answered_of_same rfl]
    refine h.acceptor_quiet hacc ?_ rfl ⟨rfl, rfl, rfl, rfl⟩ rfl hup
    rw [question_eq_nil hs (by decide), question_eq_nil rfl (by simp)]

/-! ### Whole runs

A step is a turn of one end: a pass, some writing, a replacement, or the end of a connection. The
condition `NoWrap` is asked for before every turn, of the client and of the connection that is
registered for it. -/

variable {K : Codec} {flags : CrcFlags}

/-- **One pass of the client** fails no assertion. -/
theorem Consistent.pass {d : Dialogue} {c : Conn Chunk} {inp : Input Chunk} {rest : List Chunk}
    (h : d.Consistent c) (hread : replies d.toClient = replies inp.read.chunks ++ replies rest) :
    (c.pass K flags Frame.chunks inp).flow ≠ .abort ∧
      ((c.pass K flags Frame.chunks inp).flow ≠ .fail →
        (d.clientMoved (c.pass K flags Frame.chunks inp) rest).Consistent
          (c.pass K flags Frame.chunks inp).conn) := by
  have hrest : ∃ l, replies d.toClient = l ++ replies rest := ⟨_, hread⟩
  rcases c.pass_cases K flags Frame.chunks inp with
    ⟨hopen, heq⟩ | heq | ⟨hs, heq⟩ | ⟨o, hmove, hopen, hwait, heq⟩
  · rw [heq]
    have hharmless : Conn.Harmless (c.processOpen K flags inp) := Conn.harmless_processOpen c inp
    have hreads : c.Reads (c.processOpen K flags inp).conn := Conn.reads_processOpen hopen
    have hphase {c' : Conn Chunk} (ho : c'.state.isOpen = true) : c'.phase = c'.state :=
      Conn.phase_of_state rfl fun hw ↦ absurd (hw ▸ ho) (by decide)
    have hnot {c' : Conn Chunk} (ho : c'.state.isOpen = true) :
        c'.phase ≠ .connectingWaitConnectReply ∧ c'.phase ∉ heardPhases ∧
          c'.phase ≠ .connectingWaitAckSeq ∧ c'.phase ≠ .connectingReady := by
      rw [hphase ho]
      revert ho
      generalize c'.state = s
      cases s <;> decide
    have hsilent := h.silent (hnot hopen).1
    obtain ⟨hreply, hheard, hack, hready⟩ := hnot hreads.2
    have hout : (c.processOpen K flags inp).conn.outcomingBl = c.outcomingBl := by
      have hfield := congrArg Conn.outcomingBl hreads.1
      exact hfield
    have hfields : (c.processOpen K flags inp).conn.connectSeq = c.connectSeq ∧
        (c.processOpen K flags inp).conn.features = c.features ∧
        (c.processOpen K flags inp).conn.policy.lossy = c.policy.lossy ∧
        (c.processOpen K flags inp).conn.globalSeq = c.globalSeq := by
      have hseq := congrArg Conn.connectSeq hreads.1
      have hfeatures := congrArg Conn.features hreads.1
      have hpolicy := congrArg Conn.policy hreads.1
      have hglobal := congrArg Conn.globalSeq hreads.1
      exact ⟨hseq, hfeatures, congrArg Policy.lossy hpolicy, hglobal⟩
    refine ⟨hharmless.1, fun _ ↦ ?_⟩
    refine Silent.consistent (hsilent.clientMoved hrest ?_) (Or.inr hreads.2)
      (fun hp ↦ (hp.elim hreply hheard).elim) (fun hp ↦ absurd hp hheard)
      (fun hp ↦ (hp.elim hack hready).elim) fun _ ↦ ?_
    · rw [hharmless.2.1, hout]
      exact hsilent.asked.2
    · rw [hfields.1, hfields.2.1, hfields.2.2.1, hfields.2.2.2]
      exact h.agreed hopen
  · rw [heq]
    refine ⟨by simp, fun _ ↦ h.congr rfl ?_ hrest⟩
    rw [List.append_nil]
  · rw [heq]
    exact ⟨by simp [Conn.failed], fun hfail ↦ absurd rfl hfail⟩
  · rcases heq with heq | ⟨hflow, heq⟩
    · rw [heq]
      by_cases hfail : o.flow = .fail
      · exact ⟨by rw [hfail]; simp, fun hne ↦ absurd hfail hne⟩
      · obtain ⟨habort, hconsistent⟩ := h.move hopen hwait hmove hread hfail
        exact ⟨habort, fun _ ↦ hconsistent⟩
    · rw [heq]
      exact ⟨by rw [hflow]; simp, fun hne ↦ absurd hflow hne⟩

/-- No `connect_seq` is at the end of its range: not the client's, and not the one of the connection
that is registered for it. -/
def NoWrap (d : Dialogue) (t : Turn) : Prop :=
  (∀ c, d.client = some c → c.connectSeq + 1 < 2 ^ 32) ∧
    match t with
    | .acceptor _ inp => ∀ e, inp.existing = some e → e.connectSeq + 1 < 2 ^ 32
    | _ => True

theorem inv_clientPass {d : Dialogue} {c : Conn Chunk} {arrival : Arrival} {inp : Input Chunk}
    (h : d.Inv) (hc : d.client = some c) : (d.clientPass K flags c arrival inp).Inv := by
  have hgone {b : Bool} (hb : b = false) :
      ({ d with client := none, aborted := b } : Dialogue).Inv :=
    ⟨hb, fun c hc ↦ absurd hc (by simp), h.serving, h.handed⟩
  have hpass : (c.pass K flags Frame.chunks
        { inp with read := (c.fetch d.toClient arrival).1 }).flow ≠ .abort ∧
      ((c.pass K flags Frame.chunks
          { inp with read := (c.fetch d.toClient arrival).1 }).flow ≠ .fail →
        (d.clientMoved (c.pass K flags Frame.chunks
            { inp with read := (c.fetch d.toClient arrival).1 })
          (c.fetch d.toClient arrival).2).Consistent
          (c.pass K flags Frame.chunks { inp with read := (c.fetch d.toClient arrival).1 }).conn) :=
    (h.client c hc).pass (tokens_fetch c d.toClient arrival).2
  rw [clientPass]
  generalize c.pass K flags Frame.chunks { inp with read := (c.fetch d.toClient arrival).1 } = o
    at hpass ⊢
  obtain ⟨habort, hgoes⟩ := hpass
  have hmoved (hflow : o.flow ≠ .fail) : (d.clientMoved o (c.fetch d.toClient arrival).2).Inv := by
    refine ⟨h.sound, fun c' hc' ↦ ?_, h.serving, h.handed⟩
    rw [clientMoved, Option.some_inj] at hc'
    exact hc' ▸ hgoes hflow
  cases hflow : o.flow with
  | abort => exact absurd hflow habort
  | fail => exact hgone h.sound
  | close => exact hgone h.sound
  | next => exact hmoved (by rw [hflow]; simp)
  | ret => exact hmoved (by rw [hflow]; simp)

/-- What is known of a connection that reads in an open session. -/
theorem Serves.reads {s s' : Conn Chunk} {answered : Option (Conn Chunk)} (h : Serves s answered)
    (hopen : s.state.isOpen = true) (hreads : s.Reads s') : Serves s' answered := by
  have hfield {α : Type} (f : Conn Chunk → α) : f s'.outsideReading = f s.outsideReading :=
    congrArg f hreads.1
  have hopening : s'.opening = s.opening := hfield Conn.opening
  have hnone : s.opening = none := h.opening_none rfl fun hs ↦ absurd (hs ▸ hopen) (by decide)
  refine ⟨Or.inr hreads.2, fun hw ↦ absurd (hw ▸ hreads.2) (by decide), ?_, fun a ha ↦ ?_⟩
  · intro frames next heq
    exact absurd ((hopening.trans hnone).symm.trans heq) (by simp)
  · obtain ⟨-, hseq, hfeatures, hlossy, hglobal⟩ := h.settled a ha
    have hpolicy : s'.policy = s.policy := hfield Conn.policy
    refine ⟨Or.inr (Or.inr hreads.2), ?_, ?_, ?_, ?_⟩
    · exact (hfield Conn.connectSeq).trans hseq
    · exact (hfield Conn.features).trans hfeatures
    · rw [hpolicy]
      exact hlossy
    · exact (hfield Conn.peerGlobalSeq).trans hglobal

/-- The accepting connection leaves the socket, or is gone for good. -/
theorem inv_gone {d : Dialogue} (h : d.Inv) : ({ d with acceptor := .gone } : Dialogue).Inv := by
  refine ⟨h.sound, fun c hc ↦ ?_, fun s hs ↦ absurd hs (by simp), fun m hm ↦ absurd hm (by simp)⟩
  refine (h.client c hc).acceptor ?_ (fun m hm ↦ Or.inl (hm.resolve_right (by simp [Acceptor.question])))
    ?_ (fun s hs ↦ absurd hs (by simp)) (Or.inl rfl)
  · simp only [Acceptor.question, Acceptor.drafted, Acceptor.output, pending, List.append_nil,
      List.length_append, List.length_nil, replies_append]
    omega
  · intro r hr
    rw [replies_append, List.mem_append] at hr
    have hr := hr.resolve_right (by simp [Acceptor.output])
    exact (h.client c hc).written r (by rw [replies_append]; exact List.mem_append_left _ hr)

/-- A pass of the accepting connection that leaves alone what the exchange is about. -/
theorem inv_acceptorQuiet {d : Dialogue} {s : Conn Chunk} {o : Outcome Chunk} {rest : List Chunk}
    (h : d.Inv) (hacc : d.acceptor = .serving s) (hup : ∃ l, asks d.toAcceptor = l ++ asks rest)
    (hwrote : o.wrote = []) (heffect : ∀ e, o.effect ≠ .replace e)
    (hopening : o.conn.opening = s.opening)
    (hq : (Acceptor.serving o.conn).question = (Acceptor.serving s).question)
    (hsame : o.conn.connectSeq = s.connectSeq ∧ o.conn.features = s.features ∧
      o.conn.policy.lossy = s.policy.lossy ∧ o.conn.peerGlobalSeq = s.peerGlobalSeq)
    (hout : o.conn.outcomingBl = s.outcomingBl) (hserves : Serves o.conn d.answered) :
    (d.acceptorMoved s o rest).Inv := by
  have hmoved : d.acceptorMoved s o rest = { d with
      acceptor := .serving o.conn, toAcceptor := rest, toClient := d.toClient ++ [] } := by
    rw [acceptorMoved, hwrote, if_neg]
    · cases heff : o.effect with
      | replace e => exact absurd heff (heffect e)
      | _ => rfl
    · rintro ⟨hsome, hnone⟩
      rw [← hopening, hnone] at hsome
      exact absurd hsome (by simp)
  rw [hmoved]
  refine ⟨h.sound, fun c hc ↦ ?_, fun t ht ↦ ?_, fun m hm ↦ absurd hm (by simp)⟩
  · exact (h.client c hc).acceptor_quiet hacc hq hopening hsame (by rw [List.nil_append, hout]) hup
  · rw [Acceptor.serving.injEq] at ht
    exact ht ▸ hserves

/-- The socket is handed over before the session is accepted. -/
theorem Serves.of_replace {s e : Conn Chunk} {answered : Option (Conn Chunk)} {inp : Input Chunk}
    {o : Outcome Chunk} (h : Serves s answered) (hmove : Conn.Move Frame.chunks s inp o)
    (hfail : o.flow ≠ .fail) (heffect : o.effect = .replace e) :
    s.opening = none ∧ answered = none := by
  cases hmove with
  | handsOver p e reset fromPeer hs hopening => exact ⟨hopening, h.unanswered hs (by decide)⟩
  | refuses p tag reply auth effect r k evWrite hs hopening hp hdeny =>
    rcases Conn.effect_of_denies hdeny with rfl | rfl <;> exact absurd heffect (by simp)
  | failsReply => exact absurd rfl hfail
  | connected =>
    rw [Conn.connectDone] at heffect
    split_ifs at heffect
  | dials =>
    simp only [Conn.dial] at heffect
    split_ifs at heffect <;> exact absurd heffect (by simp [Conn.goto, Conn.failed])
  | failsDial =>
    simp only [Conn.dial] at heffect
    split_ifs at heffect <;> exact absurd heffect (by simp [Conn.goto, Conn.failed])
  | _ => exact absurd heffect (by simp [Conn.failed, Conn.openSession])

/-- A pass of the accepting connection that goes on. -/
theorem inv_acceptorMoved {d : Dialogue} {s : Conn Chunk} {inp : Input Chunk} {rest : List Chunk}
    (h : d.Inv) (hacc : d.acceptor = .serving s)
    (hread : asks d.toAcceptor = asks inp.read.chunks ++ asks rest)
    (hseq : ∀ c, d.client = some c → c.connectSeq + 1 < 2 ^ 32)
    (hexisting : ∀ e, inp.existing = some e → e.connectSeq + 1 < 2 ^ 32)
    (hfail : (s.pass K flags Frame.chunks inp).flow ≠ .fail)
    (habort : (s.pass K flags Frame.chunks inp).flow ≠ .abort) :
    (d.acceptorMoved s (s.pass K flags Frame.chunks inp) rest).Inv := by
  have hserves := h.serving s hacc
  have hup : ∃ l, asks d.toAcceptor = l ++ asks rest := ⟨_, hread⟩
  rcases s.pass_cases K flags Frame.chunks inp with
    ⟨hopen, heq⟩ | heq | ⟨hs, heq⟩ | ⟨o, hmove, hopen, hwait, heq⟩
  · -- a frame of the open session
    have hharmless : Conn.Harmless (s.processOpen K flags inp) := Conn.harmless_processOpen s inp
    have hreads : s.Reads (s.processOpen K flags inp).conn := Conn.reads_processOpen hopen
    have hfield {α : Type} (f : Conn Chunk → α) :
        f (s.processOpen K flags inp).conn.outsideReading = f s.outsideReading :=
      congrArg f hreads.1
    have hpolicy : (s.processOpen K flags inp).conn.policy = s.policy := hfield Conn.policy
    have hnot {t : Conn Chunk} (ht : t.state.isOpen = true) :
        t.state ≠ .acceptingWaitConnectMsgAuth := fun hs ↦ absurd (hs ▸ ht) (by decide)
    rw [heq]
    refine inv_acceptorQuiet h hacc hup hharmless.2.1 hharmless.2.2.2.2 (hfield Conn.opening) ?_
      ⟨hfield Conn.connectSeq, hfield Conn.features, congrArg Policy.lossy hpolicy,
        hfield Conn.peerGlobalSeq⟩ (hfield Conn.outcomingBl) (hserves.reads hopen hreads)
    rw [question_eq_nil rfl (hnot hopen), question_eq_nil rfl (hnot hreads.2)]
  · rw [heq]
    exact inv_acceptorQuiet h hacc hup rfl (by simp) rfl rfl ⟨rfl, rfl, rfl, rfl⟩ rfl hserves
  · exact absurd (by rw [heq]; rfl) hfail
  · -- a move of the handshake
    have ho : s.pass K flags Frame.chunks inp = o :=
      heq.resolve_right fun hbad ↦ hfail (by rw [hbad.2]; exact hbad.1)
    rw [ho] at hfail habort ⊢
    refine ⟨h.sound, fun c hc ↦ ?_, fun t ht ↦ ?_, fun m hm ↦ ?_⟩
    · exact (h.client c hc).acceptor_move hserves hacc hmove hread (hseq c hc) hexisting hfail habort
    · have hserving : (∀ e, o.effect ≠ .replace e) ∧ o.conn = t := by
        rw [acceptorMoved] at ht
        dsimp only at ht
        cases heff : o.effect with
        | replace e =>
          rw [heff] at ht
          exact absurd ht (by simp)
        | _ =>
          rw [heff] at ht
          exact ⟨by simp, by simpa using ht⟩
      exact hserving.2 ▸ hserves.move hmove hfail habort hserving.1
    · have hreplace : ∃ e, o.effect = .replace e := by
        rw [acceptorMoved] at hm
        dsimp only at hm
        cases heff : o.effect with
        | replace e => exact ⟨e, rfl⟩
        | _ =>
          rw [heff] at hm
          exact absurd hm (by simp)
      obtain ⟨e, heff⟩ := hreplace
      obtain ⟨hopening, hnone⟩ := hserves.of_replace hmove hfail heff
      rw [acceptorMoved, if_neg fun hboth ↦ absurd (hopening ▸ hboth.1) (by simp)]
      exact hnone

theorem inv_acceptorPass {d : Dialogue} {s : Conn Chunk} {arrival : Arrival} {inp : Input Chunk}
    (h : d.Inv) (hacc : d.acceptor = .serving s) (hwrap : d.NoWrap (.acceptor arrival inp)) :
    (d.acceptorPass K flags s arrival inp).Inv := by
  have hread := (tokens_fetch s d.toAcceptor arrival).1
  have hmoved := @inv_acceptorMoved K flags d s { inp with read := (s.fetch d.toAcceptor arrival).1 }
    _ h hacc hread hwrap.1 hwrap.2
  rw [acceptorPass]
  generalize s.pass K flags Frame.chunks
    { inp with read := (s.fetch d.toAcceptor arrival).1 } = o at hmoved ⊢
  cases hflow : o.flow with
  | abort => exact inv_gone h
  | fail => exact inv_gone h
  | close => exact inv_gone h
  | next => exact hmoved (by rw [hflow]; simp) (by rw [hflow]; simp)
  | ret => exact hmoved (by rw [hflow]; simp) (by rw [hflow]; simp)

/-- Writing moves output along; in an open session it may add frames that carry nothing of the
handshake. -/
theorem write_cases (c : Conn Chunk) (q : SendQueue) (frames : List Frame) (kernel : Option ℕ) :
    (c.write q frames kernel).left = none ∨
    ∃ (q' : SendQueue) (l : List Chunk) (k n : ℕ) (evWrite : Bool), asks l = [] ∧ replies l = [] ∧
      c.write q frames kernel =
        ⟨{ c with q := q', outcomingBl := (c.outcomingBl ++ l).drop k, evWrite },
          (c.outcomingBl ++ l).take k, some n⟩ := by
  rw [Conn.write]
  split_ifs
  · obtain ⟨hasks, hreplies⟩ := tokens_session frames
    rcases ({ c with q } : Conn Chunk).trySend_cases
      ((frames.filter Frame.ofSession).flatMap Frame.chunks) kernel with h | ⟨k, b, h⟩
    · rw [h]
      exact Or.inl rfl
    · rw [h]
      exact Or.inr ⟨q, _, k, _, b, hasks, hreplies, rfl⟩
  · rcases c.trySend_cases [] kernel with h | ⟨k, b, h⟩
    · rw [h]
      exact Or.inl rfl
    · rw [h]
      exact Or.inr ⟨c.q, [], k, _, b, rfl, rfl, rfl⟩

theorem inv_clientWrite {d : Dialogue} {c : Conn Chunk} {q' : SendQueue} {l : List Chunk} {k : ℕ}
    {evWrite : Bool} (h : d.Inv) (hc : d.client = some c) (hl : asks l = []) :
    ({ d with
        client := some { c with q := q', outcomingBl := (c.outcomingBl ++ l).drop k, evWrite }
        toAcceptor := d.toAcceptor ++ (c.outcomingBl ++ l).take k } : Dialogue).Inv := by
  refine ⟨h.sound, fun c' hc' ↦ ?_, h.serving, h.handed⟩
  rw [Option.some_inj] at hc'
  subst hc'
  refine (h.client c hc).congr rfl ?_ ⟨[], rfl⟩
  rw [List.append_assoc, List.take_append_drop, asks_append, asks_append, hl, List.append_nil,
    asks_append]

theorem inv_acceptorWrite {d : Dialogue} {s : Conn Chunk} {q' : SendQueue} {l : List Chunk} {k : ℕ}
    {evWrite : Bool} (h : d.Inv) (hacc : d.acceptor = .serving s) (hl : replies l = []) :
    ({ d with
        acceptor := .serving
          { s with q := q', outcomingBl := (s.outcomingBl ++ l).drop k, evWrite }
        toClient := d.toClient ++ (s.outcomingBl ++ l).take k } : Dialogue).Inv := by
  refine ⟨h.sound, fun c hc ↦ ?_, fun t ht ↦ ?_, fun m hm ↦ absurd hm (by simp)⟩
  · refine (h.client c hc).acceptor_quiet hacc rfl rfl ⟨rfl, rfl, rfl, rfl⟩ ?_ ⟨[], rfl⟩
    rw [List.take_append_drop, replies_append, hl, List.append_nil]
  · rw [Acceptor.serving.injEq] at ht
    subst ht
    have hserves := h.serving s hacc
    exact ⟨hserves.place, hserves.after, hserves.opening, hserves.settled⟩

/-- The registered connection takes the socket over and answers RETRY_SESSION. -/
theorem inv_replace {d : Dialogue} {m : MsgConnect} {t : Conn Chunk} {r : MsgConnectReply}
    {wrote : List Chunk} (h : d.Inv) (hacc : d.acceptor = .handed m)
    (hwrap : ∀ c, d.client = some c → c.connectSeq + 1 < 2 ^ 32) (htag : r.tag = Tag.retrySession)
    (hseq : r.connectSeq = inc32 m.connectSeq) (hstate : t.state = .acceptingWaitConnectMsg)
    (hopening : t.opening = none) (hwrote : replies (wrote ++ t.outcomingBl) = [r]) :
    ({ d with acceptor := .serving t, toClient := d.toClient ++ wrote } : Dialogue).Inv := by
  have hq : d.acceptor.question = [m] := by
    rw [hacc]
    rfl
  refine ⟨h.sound, fun c hc ↦ ?_, fun t' ht ↦ ?_, fun m hm ↦ absurd hm (by simp)⟩
  · obtain ⟨hphase, hmsg, -⟩ := (h.client c hc).question hq
    have hcs : m.connectSeq + 1 < 2 ^ 32 := by
      rw [hmsg, ((h.client c hc).announced (Or.inl hphase)).1]
      exact hwrap c hc
    refine (h.client c hc).replied hq (question_eq_nil hstate (by decide)) ?_ hwrote ⟨[], rfl⟩
      (answers_of_retry htag ?_)
    · rw [Acceptor.drafted, hopening]
      rfl
    · rw [hseq, inc32_eq hcs]
      exact Nat.lt_succ_self _
  · rw [Acceptor.serving.injEq] at ht
    subst ht
    rw [h.handed m hacc]
    exact serves_of_unanswered hstate (by decide) hopening

/-- **One turn** keeps the invariant. -/
theorem inv_step {d d' : Dialogue} {t : Turn} (h : d.Inv) (hwrap : d.NoWrap t)
    (hstep : d.step K flags t = some d') : d'.Inv := by
  cases t with
  | client arrival inp =>
    rw [step, Option.map_eq_some_iff] at hstep
    obtain ⟨c, hc, rfl⟩ := hstep
    exact inv_clientPass h hc
  | clientWrite q frames kernel =>
    rw [step, Option.map_eq_some_iff] at hstep
    obtain ⟨c, hc, rfl⟩ := hstep
    rcases write_cases c q frames kernel with hleft | ⟨q', l, k, n, b, hasks, -, heq⟩
    · simp only [hleft]
      exact ⟨h.sound, fun c hc ↦ absurd hc (by simp), h.serving, h.handed⟩
    · rw [heq]
      exact inv_clientWrite h hc hasks
  | clientLeaves =>
    rw [step, Option.some_inj] at hstep
    subst hstep
    exact ⟨h.sound, fun c hc ↦ absurd hc (by simp), h.serving, h.handed⟩
  | acceptor arrival inp =>
    rw [step] at hstep
    split at hstep
    · rename_i s hacc
      rw [Option.some_inj] at hstep
      exact hstep ▸ inv_acceptorPass h hacc hwrap
    · exact absurd hstep (by simp)
  | acceptorWrite q frames kernel =>
    rw [step] at hstep
    split at hstep
    · rename_i s hacc
      rcases write_cases s q frames kernel with hleft | ⟨q', l, k, n, b, -, hreplies, heq⟩
      · simp only [hleft, Option.some_inj] at hstep
        exact hstep ▸ inv_gone h
      · rw [heq] at hstep
        simp only [Option.some_inj] at hstep
        exact hstep ▸ inv_acceptorWrite h hacc hreplies
    · exact absurd hstep (by simp)
  | acceptorLeaves =>
    rw [step, Option.some_inj] at hstep
    exact hstep ▸ inv_gone h
  | replace e r =>
    rw [step] at hstep
    split at hstep
    · rename_i m hacc
      rw [Option.ite_none_right_eq_some] at hstep
      obtain ⟨⟨-, rfl, hopening⟩, hstep⟩ := hstep
      have hkeeps := (e.takeOver_fields r.random).2.2
      obtain ⟨reply, htag, hseq, ⟨out, heq⟩ | ⟨k, b, heq⟩⟩ := e.doReplace_cases Frame.chunks r
      · rw [heq] at hstep
        simp only [Option.some_inj] at hstep
        exact hstep ▸ inv_gone h
      · rw [heq] at hstep
        simp only [Option.some_inj] at hstep
        refine hstep ▸ inv_replace h hacc hwrap.1 htag hseq rfl (hkeeps.trans hopening) ?_
        exact (congrArg replies (List.take_append_drop k _)).trans (replies_reply _ _)
    · exact absurd hstep (by simp)

theorem inv_of_starts {d : Dialogue} (h : Starts d) : d.Inv := by
  cases h with
  | dialled c inp fd fd' hs hserver hout hsd =>
    have hdial : (c.dial inp).conn.state = .connectingWaitBanner ∧
        (c.dial inp).conn.outcomingBl = [] := by
      simp only [Conn.dial, hserver, hsd, Conn.goto, Option.isSome_some, Bool.false_eq_true, if_true,
        if_false]
      exact ⟨trivial, hout⟩
    refine ⟨rfl, fun c' hc' ↦ ?_, fun s hacc ↦ ?_, fun m hm ↦ absurd hm (by simp)⟩
    · rw [Option.some_inj] at hc'
      subst hc'
      have hphase : (c.dial inp).conn.phase = .connectingWaitBanner :=
        Conn.phase_of_state hdial.1 (by decide)
      refine Silent.consistent ⟨⟨rfl, by rw [hdial.2]; rfl⟩, rfl, rfl, rfl, rfl⟩
        (Or.inl (by rw [hphase]; decide)) (fun hp ↦ ?_) (fun hp ↦ ?_) (fun hp ↦ ?_) fun ho ↦ ?_
      · rw [hphase] at hp
        exact absurd hp (by decide)
      · rw [hphase] at hp
        exact absurd hp (by decide)
      · rw [hphase] at hp
        exact absurd hp (by decide)
      · rw [hdial.1] at ho
        exact absurd ho (by decide)
    · rw [Acceptor.serving.injEq] at hacc
      subst hacc
      exact serves_of_unanswered (s := .accepting) rfl (by decide) rfl

/-- **Handshake agreement.** Whatever rounds a handshake goes through, no assertion of the client fails,
and a client that is in an open session agrees with the connection that accepted it, as it was
when it sent READY or SEQ and as it is now. -/
theorem handshake_agreement {d d' : Dialogue} {turns : List Turn} (hstart : Starts d)
    (hwrap : Run.Meets (step K flags) NoWrap d turns)
    (hrun : Run.exec (step K flags) d turns = some d') :
    d'.aborted = false ∧ ∀ c, d'.client = some c → c.state.isOpen = true →
      ∃ a, d'.answered = some a ∧ c.connectSeq = a.connectSeq ∧ c.features = a.features ∧
        c.policy.lossy = a.policy.lossy ∧ a.peerGlobalSeq = c.globalSeq ∧
        ∀ s, d'.acceptor = .serving s → s.peerGlobalSeq = c.globalSeq := by
  have hinv : d'.Inv := Run.invariant_of_meets (fun _ _ _ h hw hs ↦ inv_step h hw hs)
    (inv_of_starts hstart) hwrap hrun
  refine ⟨hinv.sound, fun c hc hopen ↦ ?_⟩
  obtain ⟨a, ha, hseq, hfeatures, hlossy, hglobal⟩ := (hinv.client c hc).agreed hopen
  refine ⟨a, ha, hseq, hfeatures, hlossy, hglobal, fun s hs ↦ ?_⟩
  rw [((hinv.serving s hs).settled a ha).2.2.2.2, hglobal]

/-- A client without a session dials a peer that still has one with it. -/
def redial : Dialogue :=
  { client := some (({ state := .connecting, policy := .losslessPeer 0 0 } : Conn Chunk).dial
      { newSd := some ⟨0, .con⟩ }).conn
    acceptor := .serving (Node.accepted ⟨0, .acc⟩).conn }

/-- The connection the peer has registered. -/
def standing : Conn Chunk :=
  { state := .standby, policy := .losslessPeer 0 0, connectSeq := 3, inSeq := 7 }

/-- The greeting, a first round that ends in `do_replace`, and a second one. -/
def redialTurns : List Turn :=
  [.acceptor .nothing { kernel := some 2 },
    .client .next { kernel := some 1 },
    .client .next { kernel := some 1 },
    .client .nothing { kernel := some 1 },
    .acceptor .next {},
    .acceptor .next {},
    .acceptor .nothing { newPolicy := .losslessPeer 0 0, existing := some standing },
    .replace (standing.markReplacing (some ⟨0, .acc⟩)
      { features := featureMsgAuth, globalSeq := 1 } [] false true) { kernel := some 1 },
    .client .next {},
    .client .nothing {},
    .client .nothing { kernel := some 1 },
    .acceptor .next {},
    .acceptor .nothing { newPolicy := .losslessPeer 0 0 },
    .acceptor .nothing {},
    .acceptor .nothing { kernel := some 1 },
    .client .next {},
    .client .nothing {},
    .client .nothing {}]

/-- `NoWrap`, evaluated. -/
def noWrapTest (d : Dialogue) (t : Turn) : Bool :=
  (d.client.all fun c ↦ decide (c.connectSeq + 1 < 2 ^ 32)) &&
    match t with
    | .acceptor _ inp => inp.existing.all fun e ↦ decide (e.connectSeq + 1 < 2 ^ 32)
    | _ => true

theorem noWrap_of_test {d : Dialogue} {t : Turn} (h : d.noWrapTest t = true) : d.NoWrap t := by
  simp only [noWrapTest, Bool.and_eq_true] at h
  constructor
  · intro c hc
    rw [hc, Option.all_some, decide_eq_true_eq] at h
    exact h.1
  · cases t with
    | acceptor arrival inp =>
      intro e he
      have hexisting := h.2
      dsimp only at hexisting
      rw [he, Option.all_some, decide_eq_true_eq] at hexisting
      exact hexisting
    | _ => trivial

theorem handshake_agreement_redial :
    ∃ d c a, Run.exec (step Codec.trivial ⟨true, true⟩) redial redialTurns = some d ∧
      d.aborted = false ∧ d.client = some c ∧ d.answered = some a ∧ c.state = .opened ∧
      c.connectSeq = 2 ∧ a.connectSeq = 2 := by
  have hstart : Starts redial :=
    .dialled { state := .connecting, policy := .losslessPeer 0 0 } { newSd := some ⟨0, .con⟩ }
      ⟨0, .con⟩ ⟨0, .acc⟩ rfl rfl rfl rfl
  have hwrap : Run.Meets (step Codec.trivial ⟨true, true⟩) NoWrap redial redialTurns :=
    Run.Meets.of_check (fun _ _ ↦ noWrap_of_test) (by decide +kernel)
  obtain ⟨d, hrun, c, hc, hopen, hseq⟩ : ∃ d,
      Run.exec (step Codec.trivial ⟨true, true⟩) redial redialTurns = some d ∧
      ∃ c, d.client = some c ∧ c.state = .opened ∧ c.connectSeq = 2 := by
    have htest : ((Run.exec (step Codec.trivial ⟨true, true⟩) redial redialTurns).bind
        fun d ↦ d.client.map fun c ↦ (c.state, c.connectSeq)) = some (.opened, 2) := by
      decide +kernel
    rw [Option.bind_eq_some_iff] at htest
    obtain ⟨d, hd, hclient⟩ := htest
    rw [Option.map_eq_some_iff] at hclient
    obtain ⟨c, hc, heq⟩ := hclient
    rw [Prod.mk.injEq] at heq
    exact ⟨d, hd, c, hc, heq⟩
  obtain ⟨hsound, hagree⟩ := handshake_agreement hstart hwrap hrun
  obtain ⟨a, ha, hsame, -⟩ := hagree c hc (by rw [hopen]; rfl)
  exact ⟨d, c, a, hrun, hsound, hc, ha, hopen, hseq, hsame.symm.trans hseq⟩

end Dialogue

end AsyncMessenger
