import AsyncMessenger.Process

/-!
# What a pass leaves alone

A pass of `do_process` belongs to the event thread. The flags through which the threads of a
connection coordinate are not its business, and in an open session it touches neither the output
nor the descriptor.

Both are frame conditions, and they are proved in the same way: the fields in question are collected
in one value, each function of the state machine leaves that value alone, and so does a pass. The
handshake goes through the list of its moves; the states of an open session go through the functions
they call. What a pass does to a flag of the threads is only what `start_write` and
`center->delete_file_event` are asked for by the event thread itself.
-/

namespace AsyncMessenger

namespace Conn

variable {β : Type}

theorem startWrite_eq (c : Conn β) :
    c.startWrite = { c with evWrite := c.evWrite || c.sd.isSome } := by
  rw [startWrite]
  split_ifs with h
  · rw [h, Bool.or_true]
  · rw [Bool.not_eq_true] at h
    rw [h, Bool.or_false]

theorem setAction_eq (c : Conn β) :
    c.setAction =
      { c with evWrite := !c.outcomingBl.isEmpty && (c.evWrite || c.sd.isSome) } := by
  rw [setAction]
  split_ifs with h
  · rw [h]
    rfl
  · rw [startWrite_eq, List.isEmpty_eq_false_iff.mpr h]
    rfl

/-- `_try_send` under the lock fails, or hands a front part of the output to the kernel. -/
theorem trySend_cases (c : Conn β) (bl : List β) (kernel : Option ℕ) :
    c.trySend bl kernel = ⟨{ c with outcomingBl := c.outcomingBl ++ bl }, [], none⟩ ∨
    ∃ k evWrite, c.trySend bl kernel =
      ⟨{ c with outcomingBl := (c.outcomingBl ++ bl).drop k, evWrite },
        (c.outcomingBl ++ bl).take k, some ((c.outcomingBl ++ bl).drop k).length⟩ := by
  simp only [trySend, setAction_eq]
  by_cases hout : c.outcomingBl ++ bl = []
  · rw [if_pos hout, hout]
    exact Or.inr ⟨0, _, rfl⟩
  · rw [if_neg hout]
    cases kernel with
    | none => exact Or.inl rfl
    | some k => exact Or.inr ⟨k, _, rfl⟩

/-- `_reply_accept` fails, or leaves the connection waiting for the next connect message. -/
theorem replyAccept_cases (enc : Frame → List β) (c : Conn β) (tag : ℕ) (m : MsgConnect)
    (reply : MsgConnectReply) (auth : Bytes) (kernel : Option ℕ) :
    c.replyAccept enc tag m reply auth kernel =
      ⟨{ c with outcomingBl :=
          c.outcomingBl ++ enc (.reply (c.acceptReply tag m reply auth) auth) }, [], none⟩ ∨
    ∃ k evWrite, c.replyAccept enc tag m reply auth kernel =
      ⟨{ c with
          outcomingBl :=
            (c.outcomingBl ++ enc (.reply (c.acceptReply tag m reply auth) auth)).drop k
          evWrite
          state := .acceptingWaitConnectMsg },
        (c.outcomingBl ++ enc (.reply (c.acceptReply tag m reply auth) auth)).take k,
        some ((c.outcomingBl ++
          enc (.reply (c.acceptReply tag m reply auth) auth)).drop k).length⟩ := by
  rw [replyAccept]
  rcases c.trySend_cases (enc (.reply (c.acceptReply tag m reply auth) auth)) kernel with
    h | ⟨k, b, h⟩
  · rw [h]
    exact Or.inl rfl
  · rw [h]
    exact Or.inr ⟨k, b, rfl⟩

/-- What a `do_replace` has done with its socket before it answers. -/
theorem takeOver_fields (c : Conn β) (random : ℕ) :
    (c.takeOver random).outcomingBl = [] ∧
      (c.takeOver random).replacingAuthorizerReply = c.replacingAuthorizerReply ∧
      (c.takeOver random).opening = c.opening := by
  rw [takeOver]
  split_ifs <;> exact ⟨rfl, rfl, rfl⟩

/-- `do_replace` takes the socket over and answers RETRY_SESSION on it; if the answer cannot be
sent, the connection faults right away. -/
theorem doReplace_cases (enc : Frame → List β) (c : Conn β) (r : ReplaceInput) :
    ∃ reply : MsgConnectReply, reply.tag = Tag.retrySession ∧
      reply.connectSeq = inc32 c.replacingConnect.connectSeq ∧
      ((∃ out, c.doReplace enc r =
          ⟨({ c.takeOver r.random with
              outcomingBl := out, replacing := 0 } : Conn β).fault.clearAuthorizerReply, [], none⟩) ∨
        ∃ k evWrite, c.doReplace enc r =
          ⟨({ c.takeOver r.random with
              outcomingBl := (enc (.reply reply c.replacingAuthorizerReply)).drop k
              evWrite
              state := .acceptingWaitConnectMsg } : Conn β).clearAuthorizerReply,
            (enc (.reply reply c.replacingAuthorizerReply)).take k,
            some ((enc (.reply reply c.replacingAuthorizerReply)).drop k).length⟩) := by
  obtain ⟨hout, hauth, -⟩ := c.takeOver_fields r.random
  rw [doReplace, ← hauth]
  dsimp only
  generalize c.takeOver r.random = t at hout ⊢
  have hreply := t.replyAccept_cases enc Tag.retrySession c.replacingConnect
    { r.junk with connectSeq := inc32 c.replacingConnect.connectSeq } t.replacingAuthorizerReply
    r.kernel
  obtain ⟨reply, htag, hseq, heq⟩ : ∃ reply : MsgConnectReply, reply.tag = Tag.retrySession ∧
      reply.connectSeq = inc32 c.replacingConnect.connectSeq ∧
      t.acceptReply Tag.retrySession c.replacingConnect { r.junk with
        connectSeq := inc32 c.replacingConnect.connectSeq } t.replacingAuthorizerReply = reply :=
    ⟨_, rfl, rfl, rfl⟩
  rw [hout, List.nil_append, heq] at hreply
  refine ⟨reply, htag, hseq, ?_⟩
  rcases hreply with h | ⟨k, b, h⟩
  · rw [h]
    exact Or.inl ⟨_, rfl⟩
  · rw [h]
    exact Or.inr ⟨k, b, rfl⟩

theorem state_stop (c : Conn β) : c.stop.state = .closed := by
  rw [stop]
  split_ifs with h
  · exact h
  · rfl

/-! ## The flags of the threads -/

/-- The flags that the threads of a connection share and no pass touches. -/
def threadFlags (c : Conn β) : Bool × Bool × Bool × Bool × Bool :=
  (c.sending, c.wantSend, c.stopping, c.keepalive, c.handleWriteDelayed)

@[simp] theorem threadFlags_stop (c : Conn β) : c.stop.threadFlags = c.threadFlags := by
  rw [stop]
  split_ifs <;> rfl

@[simp] theorem threadFlags_setAction (c : Conn β) :
    c.setAction.threadFlags = c.threadFlags := by
  rw [setAction_eq]
  rfl

@[simp] theorem threadFlags_trySend (c : Conn β) (bl : List β) (kernel : Option ℕ) :
    (c.trySend bl kernel).conn.threadFlags = c.threadFlags := by
  simp only [trySend]
  split_ifs
  · rw [threadFlags_setAction]
    rfl
  · split
    · rfl
    · rw [threadFlags_setAction]
      rfl

variable (enc : Frame → List β)

@[simp] theorem threadFlags_sendThen (c : Conn β) (frames : List Frame) (next : State)
    (inp : Input β) : (c.sendThen enc frames next inp).conn.threadFlags = c.threadFlags := by
  rw [← c.threadFlags_trySend (frames.flatMap enc) inp.kernel]
  simp only [sendThen]
  split <;> rfl

@[simp] theorem threadFlags_replyAccept (c : Conn β) (tag : ℕ) (connect : MsgConnect)
    (reply : MsgConnectReply) (auth : Bytes) (kernel : Option ℕ) :
    (c.replyAccept enc tag connect reply auth kernel).conn.threadFlags = c.threadFlags := by
  rw [← c.threadFlags_trySend (enc (.reply (c.acceptReply tag connect reply auth) auth)) kernel]
  simp only [replyAccept]
  split <;> rfl

@[simp] theorem threadFlags_refuse (c : Conn β) (tag : ℕ) (connect : MsgConnect)
    (reply : MsgConnectReply) (auth : Bytes) (inp : Input β) (effect : Effect β) :
    (c.refuse enc tag connect reply auth inp effect).conn.threadFlags = c.threadFlags := by
  simp only [refuse]
  split <;> exact threadFlags_replyAccept ..

theorem threadFlags_onRead {c : Conn β} {inp : Input β} {k : Chunk → Outcome β}
    (h : ∀ chunk, (k chunk).conn.threadFlags = c.threadFlags) :
    (c.onRead inp k).conn.threadFlags = c.threadFlags := by
  rw [onRead]
  split
  · rfl
  · rfl
  · exact h _

theorem threadFlags_ite {c : Conn β} {p : Prop} [Decidable p] {a b : Outcome β}
    (ha : a.conn.threadFlags = c.threadFlags) (hb : b.conn.threadFlags = c.threadFlags) :
    (if p then a else b).conn.threadFlags = c.threadFlags := by
  split_ifs
  · exact ha
  · exact hb

theorem threadFlags_handleConnectReply (c : Conn β) (r : MsgConnectReply) (inp : Input β) :
    (c.handleConnectReply r inp).conn.threadFlags = c.threadFlags := by
  rw [handleConnectReply]
  repeat' first | rfl | apply threadFlags_ite

theorem threadFlags_openSession (c : Conn β) (connect : MsgConnect) (auth : Bytes)
    (protoVersion gseq : ℕ) :
    (c.openSession connect auth protoVersion gseq).conn.threadFlags = c.threadFlags := by
  simp only [openSession]
  split_ifs <;> rfl

theorem threadFlags_carryOut (c : Conn β) (connect : MsgConnect) (inp : Input β) (v : Verdict) :
    (c.carryOut enc connect inp v).conn.threadFlags = c.threadFlags := by
  cases v with
  | reply => exact threadFlags_refuse ..
  | wait => exact threadFlags_refuse ..
  | busy =>
    rw [carryOut, refuseBusy]
    split_ifs <;> exact threadFlags_refuse ..
  | replace => exact threadFlags_stop _
  | «open» => exact threadFlags_openSession ..

theorem threadFlags_handleConnectMsg (c : Conn β) (inp : Input β) :
    (c.handleConnectMsg enc inp).conn.threadFlags = c.threadFlags := by
  have hpolicy : (c.requireSignatures inp).threadFlags = c.threadFlags := by
    rw [requireSignatures]
    split_ifs <;> rfl
  simp only [handleConnectMsg]
  split_ifs
  · exact threadFlags_refuse ..
  · exact (threadFlags_refuse ..).trans hpolicy
  · exact (threadFlags_refuse ..).trans hpolicy
  · exact (threadFlags_carryOut ..).trans hpolicy

theorem threadFlags_finishOpen (c : Conn β) (frames : List Frame) (next : State) (inp : Input β) :
    (c.finishOpen enc frames next inp).conn.threadFlags = c.threadFlags := by
  simp only [finishOpen]
  split_ifs
  · rfl
  · exact threadFlags_sendThen ..

theorem threadFlags_processConnection (c : Conn β) (inp : Input β) :
    (c.processConnection enc inp).conn.threadFlags = c.threadFlags := by
  rw [processConnection]
  split
  · -- `STATE_WAIT_SEND`
    rw [flushed]
    split_ifs <;> rfl
  · -- `STATE_CONNECTING`
    simp only [dial]
    split_ifs <;> rfl
  · -- `STATE_CONNECTING_WAIT_BANNER`
    refine threadFlags_onRead fun chunk ↦ ?_
    split
    · split_ifs
      · exact threadFlags_sendThen ..
      · rfl
    · rfl
  · -- `STATE_CONNECTING_WAIT_IDENTIFY_PEER`
    refine threadFlags_onRead fun chunk ↦ ?_
    split
    · split_ifs
      · exact threadFlags_sendThen ..
      · rfl
    · rfl
  · -- `STATE_CONNECTING_SEND_CONNECT_MSG`
    simp only [sendConnectMsg]
    rw [threadFlags_sendThen]
    split_ifs <;> rfl
  · -- `STATE_CONNECTING_WAIT_CONNECT_REPLY`
    refine threadFlags_onRead fun chunk ↦ ?_
    split <;> rfl
  · -- `STATE_CONNECTING_WAIT_CONNECT_REPLY_AUTH`
    split_ifs
    · exact threadFlags_handleConnectReply ..
    · rfl
    · exact threadFlags_onRead fun _ ↦ rfl
    · exact threadFlags_onRead fun _ ↦ threadFlags_handleConnectReply ..
  · -- `STATE_CONNECTING_WAIT_ACK_SEQ`
    refine threadFlags_onRead fun chunk ↦ ?_
    split
    · exact threadFlags_sendThen ..
    · rfl
  · -- `STATE_CONNECTING_READY`
    simp only [connectDone]
    split_ifs <;> rfl
  · -- `STATE_ACCEPTING`
    split_ifs
    · exact threadFlags_sendThen ..
    · rfl
  · -- `STATE_ACCEPTING_WAIT_BANNER_ADDR`
    refine threadFlags_onRead fun chunk ↦ ?_
    split
    · split_ifs <;> rfl
    · rfl
  · -- `STATE_ACCEPTING_WAIT_CONNECT_MSG`
    refine threadFlags_onRead fun chunk ↦ ?_
    split <;> rfl
  · -- `STATE_ACCEPTING_WAIT_CONNECT_MSG_AUTH`
    split
    · exact threadFlags_finishOpen ..
    · split_ifs
      · exact threadFlags_handleConnectMsg ..
      · exact threadFlags_onRead fun chunk ↦ threadFlags_handleConnectMsg ..
  · -- `STATE_ACCEPTING_WAIT_SEQ`
    refine threadFlags_onRead fun chunk ↦ ?_
    split <;> rfl
  · -- `STATE_ACCEPTING_READY`
    rfl
  · rfl

/-! ## The states of an open session

Reading a message changes what is being read, the throttles, and what is to be acknowledged. All the
rest is `outsideReading`. -/

/-- The connection without what reading the frames of an open session may change. -/
def outsideReading (c : Conn β) : Conn β :=
  { c with
    state := .none
    keepaliveAck := false
    q := {}
    inSeq := 0
    currentHeader := {}
    currentFooter := {}
    front := []
    middle := []
    data := []
    msgLeft := 0
    evWrite := false
    evProcess := false
    delivered := [] }

variable {K : Codec} {flags : CrcFlags}

/-- What one round of reading keeps: the rest of the connection, and the session stays open. -/
def Reads (c c' : Conn β) : Prop :=
  c'.outsideReading = c.outsideReading ∧ c'.state.isOpen = true

theorem reads_onRead {c : Conn β} {inp : Input β} {k : Chunk → Outcome β}
    (hopen : c.state.isOpen = true) (h : ∀ chunk, c.Reads (k chunk).conn) :
    c.Reads (c.onRead inp k).conn := by
  rw [onRead]
  split
  · exact ⟨rfl, hopen⟩
  · exact ⟨rfl, hopen⟩
  · exact h _

theorem isOpen_of_stateOfTag {t : ℕ} {s : State} (h : stateOfTag t = some s) :
    s.isOpen = true := by
  rw [stateOfTag] at h
  split_ifs at h <;> (rw [Option.some_inj] at h; subst h; rfl)

/-- What the last state of reading a message can do: fail to decode it, drop it as an old one, or
deliver it. -/
theorem dispatchMessage_cases (c : Conn β) (inp : Input β) :
    (Message.decodeMessage K flags inp.newId c.currentHeader c.currentFooter c.front c.middle
        c.data = none ∧ c.dispatchMessage K flags inp = c.failed inp.gseq) ∨
    (∃ m, Message.decodeMessage K flags inp.newId c.currentHeader c.currentFooter c.front c.middle
        c.data = some m ∧ m.getSeq ≤ c.inSeq ∧
      c.dispatchMessage K flags inp =
        { conn := { c with state := .opened }, gseq := inp.gseq, effect := .discard m }) ∨
    (∃ m evWrite evProcess flow, Message.decodeMessage K flags inp.newId c.currentHeader
        c.currentFooter c.front c.middle c.data = some m ∧ c.inSeq < m.getSeq ∧
      (flow = .next ∨ flow = .ret ∧ (inp.prefetched = true → evProcess = true)) ∧
      c.dispatchMessage K flags inp =
        { conn := { c with
            state := .opened, inSeq := m.getSeq, delivered := c.delivered ++ [m], evWrite, evProcess }
          flow
          gseq := inp.gseq
          effect := .deliver m }) := by
  rw [dispatchMessage]
  cases hm : Message.decodeMessage K flags inp.newId c.currentHeader c.currentFooter c.front c.middle
      c.data with
  | none => exact Or.inl ⟨rfl, rfl⟩
  | some m =>
    by_cases hold : m.getSeq ≤ c.inSeq
    · exact Or.inr (Or.inl ⟨m, rfl, hold, by dsimp only; rw [if_pos hold]⟩)
    · refine Or.inr (Or.inr ?_)
      have hstart (d : Conn β) : ∃ b, (if d.inSeqAcked < d.inSeq then d.startWrite else d) =
          { d with evWrite := b } := by
        split_ifs
        · exact ⟨_, startWrite_eq d⟩
        · exact ⟨d.evWrite, rfl⟩
      obtain ⟨b, hb⟩ := hstart { c with
        state := .opened, inSeq := m.getSeq, delivered := c.delivered ++ [m] }
      dsimp only at hb ⊢
      rw [if_neg hold, hb]
      by_cases hspent : inp.budgetSpent = true
      · rw [if_pos hspent]
        by_cases hpre : inp.prefetched = true
        · rw [if_pos hpre]
          exact ⟨m, b, true, .ret, rfl, Nat.lt_of_not_le hold, Or.inr ⟨rfl, fun _ ↦ rfl⟩, rfl⟩
        · rw [if_neg hpre]
          exact ⟨m, b, c.evProcess, .ret, rfl, Nat.lt_of_not_le hold,
            Or.inr ⟨rfl, fun h ↦ absurd h hpre⟩, rfl⟩
      · rw [if_neg hspent]
        exact ⟨m, b, c.evProcess, .next, rfl, Nat.lt_of_not_le hold, Or.inl rfl, rfl⟩

theorem reads_dispatchMessage {c : Conn β} {inp : Input β} (hopen : c.state.isOpen = true) :
    c.Reads (c.dispatchMessage K flags inp).conn := by
  rcases dispatchMessage_cases (K := K) c inp with
    ⟨-, h⟩ | ⟨m, -, -, h⟩ | ⟨m, b, p, flow, -, -, -, h⟩
  · rw [h]
    exact ⟨rfl, hopen⟩
  · rw [h]
    exact ⟨rfl, rfl⟩
  · rw [h]
    exact ⟨rfl, rfl⟩

/-- Reading frames stays within the open session. -/
theorem reads_processOpen {c : Conn β} {inp : Input β} (hopen : c.state.isOpen = true) :
    c.Reads (c.processOpen K flags inp).conn := by
  have hfailed (c' : Conn β) (g : ℕ) (h : c'.outsideReading = c.outsideReading)
      (hs : c'.state = c.state) : c.Reads (c'.failed g).conn := ⟨h, hs ▸ hopen⟩
  rw [processOpen]
  split
  · -- `STATE_OPEN`
    refine reads_onRead hopen fun chunk ↦ ?_
    split
    · split
      · exact ⟨rfl, isOpen_of_stateOfTag ‹_›⟩
      · exact hfailed c _ rfl rfl
    · exact hfailed c _ rfl rfl
  · -- `STATE_OPEN_KEEPALIVE2`
    refine reads_onRead hopen fun _ ↦ ?_
    rw [startWrite_eq]
    exact ⟨rfl, rfl⟩
  · -- `STATE_OPEN_KEEPALIVE2_ACK`
    exact reads_onRead hopen fun _ ↦ ⟨rfl, rfl⟩
  · -- `STATE_OPEN_TAG_ACK`
    refine reads_onRead hopen fun chunk ↦ ?_
    split
    · exact ⟨rfl, rfl⟩
    · exact hfailed c _ rfl rfl
  · -- `STATE_OPEN_MESSAGE_HEADER`
    refine reads_onRead hopen fun chunk ↦ ?_
    split
    · rw [gotHeader]
      split_ifs
      · exact hfailed c _ rfl rfl
      · exact ⟨rfl, rfl⟩
    · exact hfailed c _ rfl rfl
  · -- `STATE_OPEN_MESSAGE_THROTTLE_MESSAGE`
    exact ⟨rfl, rfl⟩
  · -- `STATE_OPEN_MESSAGE_THROTTLE_BYTES`
    exact ⟨rfl, rfl⟩
  · -- `STATE_OPEN_MESSAGE_READ_FRONT`
    split_ifs
    · exact ⟨rfl, rfl⟩
    · refine reads_onRead hopen fun chunk ↦ ?_
      split
      · exact ⟨rfl, rfl⟩
      · exact hfailed c _ rfl rfl
  · -- `STATE_OPEN_MESSAGE_READ_MIDDLE`
    split_ifs
    · exact ⟨rfl, rfl⟩
    · refine reads_onRead hopen fun chunk ↦ ?_
      split
      · exact ⟨rfl, rfl⟩
      · exact hfailed c _ rfl rfl
  · -- `STATE_OPEN_MESSAGE_READ_DATA_PREPARE`
    exact ⟨rfl, rfl⟩
  · -- `STATE_OPEN_MESSAGE_READ_DATA`
    split_ifs
    · exact ⟨rfl, rfl⟩
    · refine reads_onRead hopen fun chunk ↦ ?_
      split
      · refine ⟨rfl, ?_⟩
        rw [gotData, goto]
        dsimp only
        split_ifs <;> rfl
      · exact hfailed c _ rfl rfl
  · -- `STATE_OPEN_MESSAGE_READ_FOOTER`
    refine reads_onRead hopen fun chunk ↦ ?_
    split
    · rw [gotFooter]
      split_ifs
      · exact hfailed _ _ rfl rfl
      · exact ⟨rfl, rfl⟩
    · exact hfailed c _ rfl rfl
  · -- `STATE_OPEN_MESSAGE_THROTTLE_DISPATCH_SIZE`
    exact ⟨rfl, rfl⟩
  · -- `STATE_OPEN_MESSAGE_DISPATCH`
    exact reads_dispatchMessage hopen
  · exact ⟨rfl, hopen⟩

/-- What reading frames does not do: fail an assertion, write, or touch another connection. -/
def Harmless (o : Outcome β) : Prop :=
  o.flow ≠ .abort ∧ o.wrote = [] ∧ o.effect ≠ .register ∧ o.effect ≠ .keepalive ∧
    ∀ e, o.effect ≠ .replace e

theorem harmless_goto (c : Conn β) (s : State) (gseq : ℕ) : Harmless (c.goto s gseq) := by
  simp [Harmless, goto]

theorem harmless_failed (c : Conn β) (gseq : ℕ) : Harmless (c.failed gseq) := by
  simp [Harmless, failed]

theorem harmless_onRead {c : Conn β} {inp : Input β} {k : Chunk → Outcome β}
    (h : ∀ chunk, Harmless (k chunk)) : Harmless (c.onRead inp k) := by
  rw [onRead]
  split
  · exact harmless_failed c inp.gseq
  · simp [Harmless]
  · exact h _

theorem harmless_processOpen (c : Conn β) (inp : Input β) :
    Harmless (c.processOpen K flags inp) := by
  have hgoto (c : Conn β) (s : State) : Harmless (c.goto s inp.gseq) := harmless_goto c s inp.gseq
  have hfailed (c : Conn β) : Harmless (c.failed inp.gseq) := harmless_failed c inp.gseq
  rw [processOpen]
  split
  · refine harmless_onRead fun chunk ↦ ?_
    split
    · split
      · exact hgoto _ _
      · exact hfailed c
    · exact hfailed c
  · exact harmless_onRead fun _ ↦ hgoto _ _
  · exact harmless_onRead fun _ ↦ hgoto _ _
  · refine harmless_onRead fun chunk ↦ ?_
    split
    · exact hgoto _ _
    · exact hfailed c
  · refine harmless_onRead fun chunk ↦ ?_
    split
    · rw [gotHeader]
      split_ifs
      · exact hfailed c
      · exact hgoto _ _
    · exact hfailed c
  · simp only [Harmless, goto]
    split_ifs <;> simp
  · simp only [Harmless, goto]
    split_ifs <;> simp
  · split_ifs
    · exact hgoto _ _
    · refine harmless_onRead fun chunk ↦ ?_
      split
      · exact hgoto _ _
      · exact hfailed c
  · split_ifs
    · exact hgoto _ _
    · refine harmless_onRead fun chunk ↦ ?_
      split
      · exact hgoto _ _
      · exact hfailed c
  · exact hgoto _ _
  · split_ifs
    · exact hgoto _ _
    · refine harmless_onRead fun chunk ↦ ?_
      split
      · exact hgoto _ _
      · exact hfailed c
  · refine harmless_onRead fun chunk ↦ ?_
    split
    · rw [gotFooter]
      split_ifs
      · exact hfailed _
      · exact hgoto _ _
    · exact hfailed c
  · exact hgoto _ _
  · rcases dispatchMessage_cases (K := K) c inp with
      ⟨-, h⟩ | ⟨m, -, -, h⟩ | ⟨m, b, p, flow, -, -, hflow, h⟩
    · rw [h]
      exact hfailed c
    · rw [h]
      simp [Harmless]
    · rw [h]
      rcases hflow with rfl | ⟨rfl, -⟩ <;> simp [Harmless]
  · simp [Harmless]

variable {enc : Frame → List β}

/-- In an open session a pass reads. -/
theorem pass_of_isOpen {c : Conn β} {inp : Input β} (hopen : c.state.isOpen = true) :
    c.pass K flags enc inp = c.processOpen K flags inp := by
  have hlow : ¬ State.connectingSendConnectMsg.code ≤ c.state.code := by
    revert hopen
    cases c.state <;> decide
  simp only [pass, processState, hopen, if_true, hlow, false_and, and_false, if_false]

/-- No pass touches the flags of the threads. -/
theorem threadFlags_pass (c : Conn β) (inp : Input β) :
    (c.pass K flags enc inp).conn.threadFlags = c.threadFlags := by
  have hstate : (c.processState K flags enc inp).conn.threadFlags = c.threadFlags := by
    by_cases hopen : c.state.isOpen = true
    · rw [processState, if_pos hopen]
      have hreads : c.Reads (c.processOpen K flags inp).conn := reads_processOpen hopen
      have hflags := congrArg threadFlags hreads.1
      exact hflags
    · rw [processState, if_neg hopen]
      split
      · rfl
      · rfl
      · rfl
      · exact threadFlags_processConnection enc c inp
  rw [← hstate]
  simp only [pass]
  split_ifs <;> rfl

end Conn

end AsyncMessenger
