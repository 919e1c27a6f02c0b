import AsyncMessenger.Lib.Run
import AsyncMessenger.Moves
import AsyncMessenger.Prefetch
import AsyncMessenger.StateMachine

/-!
# No stranded input

The kernel does not signal bytes that are in the prefetch buffer already. So whenever `do_process`
returns, or `do_replace` has filled the buffer, the buffer must be empty, or the timer `ev_process`
must be set to come back to it. Otherwise a message could lie there until the peer sends the next
one.

## The connection with its buffer

An `Inlet` is a connection of the messenger with the buffers of the module on `read_until`. Its
passes get from the reads what the indices of the buffer say, `do_replace` takes over the bytes
another connection has handed over, and `fault` forgets what was read. Everything else a step meets,
the results of the kernel, the other connections, the clock, is arbitrary (`Supply`).

## The argument

A `read_until` that returns with a positive number has drained the buffer: it asks the kernel only
when nothing is left, and what it then gets goes to the target. A pass that stays in its state has
made such a read. A pass that goes on to another state is followed by another pass. What remains are
the passes from which the loop does not go on although nothing was read to the end: these set the
timer, or the connection is in a state in which it reads again only after something else has
happened, which `Attended` lists.

The last section is about the returns. `do_process` returns from a pass, and after `wait_sending` in
the fail path; in between any other thread may have run.
-/

namespace AsyncMessenger

/-- The call of `do_process` has not returned. -/
def Loc.inProcess : Loc → Bool
  | .process _ => true
  | .waiting .. => true
  | .leaving k => k.isSome
  | _ => false

/-- What the answer of `read_until` means to the pass that has called it; `none` is a failed
assertion. -/
def Answer.read (chunk : Chunk) : Answer → Option Read
  | .assertion => none
  | .ret r => some (if r < 0 then .error else if 0 < r then .again else .done chunk)

namespace Prefetch

/-- `fault` forgets what has been read. -/
def clear (x : Prefetch) : Prefetch := { x with recvStart := 0, recvEnd := 0, stateOffset := 0 }

/-- Nothing has been prefetched. -/
def Drained (x : Prefetch) : Prop := x.recvStart = x.recvEnd

instance (x : Prefetch) : Decidable x.Drained := inferInstanceAs (Decidable (x.recvStart = x.recvEnd))

end Prefetch

/-- A connection and what it reads. -/
structure Inlet (β : Type) where
  node : Node β
  recv : Prefetch
  /-- The target of the read that has begun. -/
  target : Bytes := []
  /-- The bytes that have arrived on the socket and have not been read. -/
  wire : Bytes := []
  /-- The buffers from `data_blp` on: what is left of the first, and the lengths of the others. -/
  pieces : List ℕ := []

/-- What a step meets outside of the connection. -/
structure Supply where
  /-- What the kernel does in the `read_until` calls of the step. -/
  scripts : ℕ → List Ready := fun _ ↦ []
  /-- The bytes that arrive before the step. -/
  arrived : Bytes := []
  /-- The buffers for the data of a message. -/
  pieces : List ℕ := []
  /-- The prefetch buffer of the connection that hands over its socket. -/
  accepting : Prefetch := { recvMaxPrefetch := 0, recvBuf := [] }
  /-- The bytes that have arrived on the socket handed over. -/
  socket : Bytes := []

namespace Node

variable {β : Type} (enc : Frame → List β) (K : Codec) (flags : CrcFlags)

/-- The step runs `do_replace`: at the label `fail` of `do_process` or in `STATE_OPEN_TAG_CLOSE`, at the
label `fail` of `handle_write`, or in `handle_replace`. -/
def replaces (n : Node β) : Event β → Bool
  | .handleReplace _ => n.conn.replacing == 1
  | .wake _ => n.conn.replacing == 1
  | .pass inp =>
    let o := n.conn.pass K flags enc inp
    (o.flow == .fail || o.flow == .close) && !o.conn.sending && o.conn.replacing == 1
  | .relock _ _ =>
    match n.win, n.loc with
    | some w, .writing _ => w.error && w.owner == .event && n.conn.replacing == 1
    | _, _ => false
  | _ => false

end Node

namespace Inlet

variable {β : Type}

/-- `read_until` begins or goes on with a target of `len` bytes. -/
def reading (s : Inlet β) (len : ℕ) : ReadState :=
  { s.recv with
    p := if s.recv.stateOffset = 0 then List.replicate len 0 else s.target
    wire := s.wire }

/-- The loop of `STATE_OPEN_MESSAGE_READ_DATA`, from the buffers on, with `left` bytes to come and `bs`
read in this pass; its `read_until` calls are numbered from `n`. -/
def readData (scripts : ℕ → List Ready) :
    ℕ → List ℕ → ℕ → Bytes → Inlet β → Option Read × Inlet β
  | _, [], left, bs, s => (if left = 0 then some (.done (.bytes bs)) else none, { s with pieces := [] })
  | n, piece :: pieces, left, bs, s =>
    if left = 0 then (some (.done (.bytes bs)), { s with pieces := piece :: pieces })
    else
      let read := min piece left
      let (answer, x) := (s.reading read).readUntil (.ofNat read) (scripts n)
      let s : Inlet β :=
        { s with recv := x.toPrefetch, target := x.p, wire := x.wire, pieces := piece :: pieces }
      match answer with
      | .assertion => (none, s)
      | .ret r =>
        if r < 0 then (some .error, s)
        else if 0 < r then (some (if bs = [] then .again else .done (.bytes bs)), s)
        else
          let bs := bs ++ x.p.takeD read 0
          if left < piece then
            (some (.done (.bytes bs)), { s with pieces := (piece - left) :: pieces })
          else readData scripts (n + 1) pieces (left - piece) bs s

/-- The reads of a pass. -/
def fetch (s : Inlet β) (scripts : ℕ → List Ready) : Option Read × Inlet β :=
  match s.node.conn.readCall with
  | none => (some .again, s)
  | some (_, len) =>
    if s.node.conn.state = .openMessageReadData then
      readData scripts 0 s.pieces s.node.conn.msgLeft [] s
    else
      let (answer, x) := (s.reading len).readUntil (.ofNat len) (scripts 0)
      (answer.read (s.node.conn.chunkOf (x.p.takeD len 0)),
        { s with recv := x.toPrefetch, target := x.p, wire := x.wire })

variable (enc : Frame → List β) (K : Codec) (flags : CrcFlags)

/-- What a step of the connection to `n` does to the buffers and the timer. `fault` is the only way from
a state that reads to `STATE_STANDBY` or `STATE_CONNECTING`. -/
def settle (s : Inlet β) (e : Event β) (sup : Supply) (n : Node β) : Inlet β :=
  let replaces := s.node.replaces enc K flags e
  let recv := if replaces then s.recv.doReplace else s.recv
  let recv :=
    if n.conn.state = .standby ∨ n.conn.state = .connecting then recv.clear
    else if n.conn.state = .closed then { recv with stateOffset := 0 }
    else recv
  { s with
    -- schedule_timer(ev_process, 0) in do_replace
    node := if replaces ∧ n.conn.state ≠ .closed ∧ ¬recv.Drained then
        { n with conn := { n.conn with evProcess := true } }
      else n
    recv
    wire := if n.conn.sd = none then [] else if replaces then sup.socket else s.wire }

/-- A step. -/
def step (s : Inlet β) (x : Event β × Supply) : Option (Inlet β) :=
  let s : Inlet β := { s with wire := s.wire ++ x.2.arrived }
  match x.1 with
  | .pass inp =>
    match s.node.loc with
    | .process _ =>
      match s.fetch x.2.scripts with
      | (none, s) => some { s with node := { s.node with crashed := true } }
      | (some read, s) =>
        let s : Inlet β := if s.node.conn.state = .openMessageReadDataPrepare then
          { s with pieces := x.2.pieces } else s
        let inp : Input β := { inp with read, prefetched := !decide s.recv.Drained }
        (s.node.next enc K flags (.pass inp)).map (s.settle enc K flags (.pass inp) x.2)
    | _ => none
  | .handOver sd connect auth reset fromPeer =>
    (s.node.next enc K flags (.handOver sd connect auth reset fromPeer)).map fun n ↦
      { s with node := n, recv := x.2.accepting.handOver s.recv }
  | e => (s.node.next enc K flags e).map (s.settle enc K flags e x.2)

end Inlet

/-! ## The reads drain the buffer

The data section is the awkward one, as it calls `read_until` once for each of its buffers: the last
of these calls is the one that has run short. -/

namespace ReadState

theorem indices_readBulk (x : ReadState) (call : ReadCall) (e : Ready) :
    (x.readBulk call e).2.recvStart = x.recvStart ∧ (x.readBulk call e).2.recvEnd = x.recvEnd := by
  cases e with
  | bytes k =>
    rw [readBulk]
    split_ifs <;> exact ⟨rfl, rfl⟩
  | _ => exact ⟨rfl, rfl⟩

/-- A `read_until` that asks for more has used everything. -/
def DrainedIfPositive (out : Answer × ReadState) : Prop := ∀ r, out.1 = .ret r → 0 < r → out.2.Drained

theorem drained_fetch (len : UInt32) (script : List Ready) (x : ReadState) :
    DrainedIfPositive (fetch len script x) := by
  rw [fetch]
  by_cases hassert : x.recvEnd ≠ x.recvStart
  · rw [if_pos hassert]
    rintro r ⟨⟩
  rw [if_neg hassert]
  dsimp only
  split_ifs
  · refine doLoop_rule (I := fun y : ReadState ↦ y.recvStart = y.recvEnd) ?_ ?_ ?_ script ?_
    · intro e x y _ hturn r hr hpos
      rw [turnLarge] at hturn
      dsimp only at hturn
      split_ifs at hturn
      all_goals
        cases hturn
        cases hr
        exact absurd hpos (by decide)
    · intro e x y hx hturn
      rw [turnLarge] at hturn
      dsimp only at hturn
      split_ifs at hturn
      cases hturn
      obtain ⟨hstart, hend⟩ := x.indices_readBulk x.callTarget e
      exact hstart.trans (hx.trans hend.symm)
    · exact fun x hx _ _ _ ↦ hx
    · rfl
  · refine doLoop_rule (I := fun _ ↦ True) ?_ (fun _ _ _ _ _ ↦ trivial) (fun _ _ _ _ _ ↦ rfl) script
      trivial
    intro e x y _ hturn r hr hpos
    rw [turnAhead] at hturn
    dsimp only at hturn
    split_ifs at hturn
    all_goals
      cases hturn
      cases hr
      exact absurd hpos (by decide)

theorem drained_readUntil (len : UInt32) (script : List Ready) (x : ReadState) :
    DrainedIfPositive (x.readUntil len script) := by
  rw [readUntil]
  by_cases hlen : len = 0
  · rw [if_pos hlen]
    rintro r ⟨⟩
  rw [if_neg hlen]
  dsimp only
  by_cases hsome : x.recvStart < x.recvEnd
  · rw [if_pos hsome]
    split_ifs
    · rintro r ⟨⟩
    · rintro r ⟨⟩ hpos
      exact absurd hpos (by decide)
    · exact drained_fetch _ _ _
  · rw [if_neg hsome]
    exact drained_fetch _ _ _

end ReadState

namespace Inlet

variable {β : Type}

theorem node_readData (scripts : ℕ → List Ready) (n : ℕ) (pieces : List ℕ) (left : ℕ) (bs : Bytes)
    (s : Inlet β) : (readData scripts n pieces left bs s).2.node = s.node := by
  induction pieces generalizing n left bs s with
  | nil => rfl
  | cons piece pieces ih =>
    rw [readData]
    by_cases hleft : left = 0
    · rw [if_pos hleft]
    rw [if_neg hleft]
    dsimp only
    generalize (s.reading (min piece left)).readUntil (.ofNat (min piece left)) (scripts n) = out
    obtain ⟨answer, x⟩ := out
    cases answer with
    | assertion => rfl
    | ret r =>
      dsimp only
      by_cases hneg : r < 0
      · rw [if_pos hneg]
      rw [if_neg hneg]
      by_cases hpos : 0 < r
      · rw [if_pos hpos]
      rw [if_neg hpos]
      by_cases hlt : left < piece
      · rw [if_pos hlt]
      · rw [if_neg hlt]
        exact ih ..

/-- The data section is read up to the end of what has come, or up to its own end. -/
theorem readData_spec (scripts : ℕ → List Ready) {n : ℕ} {pieces : List ℕ} {left : ℕ} {bs : Bytes}
    {s s' : Inlet β} {read : Read} (h : readData scripts n pieces left bs s = (some read, s')) :
    s'.recv.Drained ∨ read = .error ∨ ∃ bs', read = .done (.bytes bs') ∧
      bs'.length = bs.length + left := by
  induction pieces generalizing n left bs s with
  | nil =>
    rw [readData] at h
    by_cases hleft : left = 0
    · rw [if_pos hleft] at h
      cases h
      exact .inr (.inr ⟨bs, rfl, by rw [hleft, Nat.add_zero]⟩)
    · rw [if_neg hleft] at h
      cases h
  | cons piece pieces ih =>
    rw [readData] at h
    by_cases hleft : left = 0
    · rw [if_pos hleft] at h
      cases h
      exact .inr (.inr ⟨bs, rfl, by rw [hleft, Nat.add_zero]⟩)
    rw [if_neg hleft] at h
    dsimp only at h
    have hdrained := ReadState.drained_readUntil (.ofNat (min piece left)) (scripts n)
      (s.reading (min piece left))
    generalize (s.reading (min piece left)).readUntil (.ofNat (min piece left)) (scripts n) = out
      at h hdrained
    obtain ⟨answer, x⟩ := out
    cases answer with
    | assertion => cases h
    | ret r =>
      dsimp only at h
      by_cases hneg : r < 0
      · rw [if_pos hneg] at h
        cases h
        exact .inr (.inl rfl)
      rw [if_neg hneg] at h
      by_cases hpos : 0 < r
      · rw [if_pos hpos] at h
        cases h
        exact .inl (hdrained r rfl hpos)
      rw [if_neg hpos] at h
      have hlen : (bs ++ x.p.takeD (min piece left) 0).length = bs.length + min piece left := by
        rw [List.length_append, List.takeD_length]
      -- the data is complete, or the next piece is read
      by_cases hlt : left < piece
      · rw [if_pos hlt] at h
        cases h
        exact .inr (.inr ⟨_, rfl, by rw [hlen]; omega⟩)
      · rw [if_neg hlt] at h
        rcases ih h with hdone | herror | ⟨bs', hread, hbs⟩
        · exact .inl hdone
        · exact .inr (.inl herror)
        · exact .inr (.inr ⟨bs', hread, by rw [hbs, hlen]; omega⟩)

theorem node_fetch (s : Inlet β) (scripts : ℕ → List Ready) : (s.fetch scripts).2.node = s.node := by
  rw [fetch]
  split
  · rfl
  · split_ifs
    · exact node_readData ..
    · rfl

end Inlet

/-! ## A pass that stays in its state has read

`Leaves` is the property of a pass that the loop needs, and each function of the state machine has
it. The two long cases are the functions with the states in them, a case for each. -/

namespace Conn

variable {β : Type} {enc : Frame → List β} {K : Codec} {flags : CrcFlags} {c : Conn β} {inp : Input β}

/-- A pass from the state `s`: if the loop goes on, it goes on in another state, and if `do_process`
returns, the timer is set for what has been prefetched. -/
structure Leaves (inp : Input β) (s : State) (o : Outcome β) : Prop where
  next : o.flow = .next → o.conn.opening = none → o.conn.state ≠ s
  ret : o.flow = .ret → inp.prefetched = true → o.conn.evProcess = true

/-- The pass reads, and there is not enough. -/
structure ReadsShort (c : Conn β) (inp : Input β) (o : Outcome β) : Prop where
  call : c.readCall.isSome = true
  short : inp.read = .again ∨ c.state = .openMessageReadData ∧
    ∃ bs, inp.read = .done (.bytes bs) ∧ c.msgLeft - bs.length ≠ 0
  flow : o.flow = .next

theorem Leaves.of_ne {s : State} {o : Outcome β} (hne : o.conn.state ≠ s) (hflow : o.flow ≠ .ret) :
    Leaves inp s o :=
  ⟨fun _ _ ↦ hne, fun h ↦ absurd h hflow⟩

theorem leaves_failed (d : Conn β) (s : State) (g : ℕ) : Leaves inp s (d.failed g) :=
  ⟨by rintro ⟨⟩, by rintro ⟨⟩⟩

theorem leaves_abort (d : Conn β) (s : State) (g : ℕ) :
    Leaves inp s { conn := d, flow := .abort, gseq := g } :=
  ⟨by rintro ⟨⟩, by rintro ⟨⟩⟩

theorem leaves_goto (d : Conn β) {s next : State} (hne : next ≠ s) (g : ℕ) :
    Leaves inp s (d.goto next g) := .of_ne hne (by rintro ⟨⟩)

theorem leaves_sendThen (d : Conn β) (frames : List Frame) {s next : State} (hne : next ≠ s)
    (hwait : State.waitSend ≠ s) : Leaves inp s (d.sendThen enc frames next inp) := by
  rw [sendThen]
  dsimp only
  split
  · exact ⟨by rintro ⟨⟩, by rintro ⟨⟩⟩
  · exact .of_ne hne (by rintro ⟨⟩)
  · exact .of_ne hwait (by rintro ⟨⟩)

/-- A pass that begins with a read, and goes on elsewhere when it is complete. -/
theorem leaves_onRead (hcall : c.readCall.isSome = true) {k : Chunk → Outcome β}
    (hk : ∀ chunk, Leaves inp c.state (k chunk)) :
    Leaves inp c.state (c.onRead inp k) ∨ c.ReadsShort inp (c.onRead inp k) := by
  rw [onRead]
  cases hread : inp.read with
  | error => exact .inl (leaves_failed _ _ _)
  | again => exact .inr ⟨hcall, .inl hread, rfl⟩
  | done chunk => exact .inl (hk chunk)

theorem leaves_handleConnectReply (hs : c.state = .connectingWaitConnectReplyAuth) :
    Leaves inp c.state (c.handleConnectReply c.connectReply inp) := by
  rw [hs, handleConnectReply]
  split_ifs
  all_goals first
    | exact leaves_failed _ _ _
    | exact leaves_goto _ (by decide) _
    | exact leaves_abort _ _ _

theorem leaves_refuse {d : Conn β} {tag : ℕ} {m : MsgConnect} {reply : MsgConnectReply} {auth : Bytes}
    {effect : Effect β} :
    Leaves inp .acceptingWaitConnectMsgAuth (d.refuse enc tag m reply auth inp effect) := by
  rcases refuse_cases d tag m reply auth inp effect with ⟨out, h⟩ | ⟨r, k, evWrite, -, -, -, h⟩
  · rw [h]
    exact ⟨by rintro ⟨⟩, by rintro ⟨⟩⟩
  · rw [h]
    exact .of_ne (by decide : State.acceptingWaitConnectMsg ≠ .acceptingWaitConnectMsgAuth)
      (by rintro ⟨⟩)

theorem leaves_gotConnectMsg (hs : c.state = .acceptingWaitConnectMsgAuth) :
    Leaves inp .acceptingWaitConnectMsgAuth (c.gotConnectMsg enc inp) := by
  have hcarry (d : Conn β) (hd : d.state = .acceptingWaitConnectMsgAuth) (m : MsgConnect) (v : Verdict) :
      Leaves inp .acceptingWaitConnectMsgAuth (d.carryOut enc m inp v) := by
    cases v with
    | reply => exact leaves_refuse
    | wait => exact leaves_refuse
    | busy =>
      rw [carryOut, refuseBusy]
      dsimp only
      split_ifs with hfail
      · exact ⟨fun hnext ↦ absurd (hfail.symm.trans hnext) (by decide),
          fun hret ↦ absurd (hfail.symm.trans hret) (by decide)⟩
      · exact leaves_refuse
    | replace =>
      refine .of_ne ?_ (by rintro ⟨⟩)
      rw [carryOut, state_stop]
      decide
    | «open» => exact ⟨fun _ hnone ↦ absurd hnone (by simp [carryOut, openSession]), by rintro ⟨⟩⟩
  have hhandle (d : Conn β) (hd : d.state = .acceptingWaitConnectMsgAuth) :
      Leaves inp .acceptingWaitConnectMsgAuth (d.handleConnectMsg enc inp) := by
    have hstate : (d.requireSignatures inp).state = d.state := by
      obtain ⟨p, -, heq⟩ := requireSignatures_eq d inp
      rw [heq]
    rw [handleConnectMsg]
    dsimp only
    split_ifs
    · exact leaves_refuse
    · exact leaves_refuse
    · exact leaves_refuse
    · exact hcarry _ (hstate.trans hd) _ _
  exact hhandle _ hs

theorem leaves_processConnection (hlater : c.Later) (hwait : c.state ≠ .waitSend) :
    Leaves inp c.state (c.processConnection enc inp) ∨
      c.ReadsShort inp (c.processConnection enc inp) := by
  rw [processConnection.eq_def]
  split <;> rename_i hs
  · -- `STATE_WAIT_SEND`
    exact absurd hs hwait
  · -- `STATE_CONNECTING`
    left
    rw [hs, dial]
    split_ifs
    · exact leaves_abort _ _ _
    · exact leaves_goto _ (by decide) _
    · exact leaves_failed _ _ _
  · -- `STATE_CONNECTING_WAIT_BANNER`
    refine leaves_onRead (by simp [readCall, hs]) fun chunk ↦ ?_
    rw [hs]
    cases chunk with
    | banner bs =>
      dsimp only
      split_ifs
      · exact leaves_sendThen _ _ (by decide) (by decide)
      · exact leaves_failed _ _ _
    | _ => exact leaves_failed _ _ _
  · -- `STATE_CONNECTING_WAIT_IDENTIFY_PEER`
    refine leaves_onRead (by simp [readCall, hs]) fun chunk ↦ ?_
    rw [hs]
    cases chunk with
    | addrs =>
      dsimp only
      split_ifs
      · exact leaves_sendThen _ _ (by decide) (by decide)
      · exact leaves_failed _ _ _
    | _ => exact leaves_failed _ _ _
  · -- `STATE_CONNECTING_SEND_CONNECT_MSG`
    left
    rw [hs]
    exact leaves_sendThen _ _ (by decide) (by decide)
  · -- `STATE_CONNECTING_WAIT_CONNECT_REPLY`
    refine leaves_onRead (by simp [readCall, hs]) fun chunk ↦ ?_
    rw [hs]
    cases chunk with
    | reply r => exact leaves_goto _ (by decide) _
    | _ => exact leaves_failed _ _ _
  · -- `STATE_CONNECTING_WAIT_CONNECT_REPLY_AUTH`
    by_cases hzero : c.connectReply.authorizerLen = 0
    · rw [if_pos hzero]
      exact .inl (leaves_handleConnectReply hs)
    rw [if_neg hzero]
    by_cases hbig : stateBufferSize < c.connectReply.authorizerLen
    · rw [if_pos hbig]
      exact .inl (leaves_failed _ _ _)
    rw [if_neg hbig]
    refine leaves_onRead (by simp [readCall, hs, hzero, hbig]) fun chunk ↦ ?_
    split_ifs
    · exact leaves_failed _ _ _
    · exact leaves_handleConnectReply hs
  · -- `STATE_CONNECTING_WAIT_ACK_SEQ`
    refine leaves_onRead (by simp [readCall, hs]) fun chunk ↦ ?_
    rw [hs]
    cases chunk with
    | seq n => exact leaves_sendThen _ _ (by decide) (by decide)
    | _ => exact leaves_failed _ _ _
  · -- `STATE_CONNECTING_READY`
    left
    rw [hs, connectDone]
    dsimp only
    split_ifs
    · exact .of_ne (by rintro ⟨⟩) (by rintro ⟨⟩)
    · exact leaves_abort _ _ _
  · -- `STATE_ACCEPTING`
    left
    rw [hs]
    split_ifs
    · exact leaves_sendThen _ _ (by decide) (by decide)
    · exact leaves_failed _ _ _
  · -- `STATE_ACCEPTING_WAIT_BANNER_ADDR`
    refine leaves_onRead (by simp [readCall, hs]) fun chunk ↦ ?_
    rw [hs]
    cases chunk with
    | bannerAddr bs =>
      dsimp only
      split_ifs
      · exact leaves_goto _ (by decide) _
      · exact leaves_failed _ _ _
    | _ => exact leaves_failed _ _ _
  · -- `STATE_ACCEPTING_WAIT_CONNECT_MSG`
    refine leaves_onRead (by simp [readCall, hs]) fun chunk ↦ ?_
    rw [hs]
    cases chunk with
    | connect m => exact leaves_goto _ (by decide) _
    | _ => exact leaves_failed _ _ _
  · -- `STATE_ACCEPTING_WAIT_CONNECT_MSG_AUTH`
    split
    · rename_i frames next hopening
      left
      have hnext : next ≠ .acceptingWaitConnectMsgAuth := by
        rcases hlater.opening _ _ hopening with rfl | rfl <;> decide
      have hleaves (d : Conn β) : Leaves inp c.state (d.sendThen enc frames next inp) := by
        rw [hs]
        exact leaves_sendThen _ _ hnext (by decide)
      rw [finishOpen]
      split_ifs
      · exact ⟨fun _ hnone ↦ absurd (hopening.symm.trans hnone) (by simp), by rintro ⟨⟩⟩
      · exact ⟨(hleaves _).next, (hleaves _).ret⟩
    · rename_i hnone
      split_ifs with hzero
      · rw [hs]
        exact .inl (leaves_gotConnectMsg hs)
      · refine leaves_onRead (by simp [readCall, hs, hnone, hzero]) fun chunk ↦ ?_
        rw [hs]
        exact leaves_gotConnectMsg hs
  · -- `STATE_ACCEPTING_WAIT_SEQ`
    refine leaves_onRead (by simp [readCall, hs]) fun chunk ↦ ?_
    rw [hs]
    cases chunk with
    | seq n => exact leaves_goto _ (by decide) _
    | _ => exact leaves_failed _ _ _
  · -- `STATE_ACCEPTING_READY`
    left
    rw [hs]
    exact leaves_goto _ (by decide) _
  · exact .inl (leaves_abort _ _ _)

/-- The same for an open session; the data of a message may take several passes. -/
theorem leaves_processOpen (c : Conn β) (inp : Input β) :
    Leaves inp c.state (c.processOpen K flags inp) ∨ c.ReadsShort inp (c.processOpen K flags inp) := by
  rw [processOpen.eq_def]
  split <;> rename_i hs
  · -- `STATE_OPEN`
    refine leaves_onRead (by simp [readCall, hs]) fun chunk ↦ ?_
    rw [hs]
    cases chunk with
    | tag t =>
      dsimp only
      split
      · rename_i s hstate
        -- no tag leads back to `STATE_OPEN`
        refine leaves_goto _ ?_ _
        rintro rfl
        rw [stateOfTag] at hstate
        split_ifs at hstate <;> cases hstate
      · exact leaves_failed _ _ _
    | _ => exact leaves_failed _ _ _
  · -- `STATE_OPEN_KEEPALIVE2`
    refine leaves_onRead (by simp [readCall, hs]) fun chunk ↦ ?_
    rw [hs]
    exact leaves_goto _ (by decide) _
  · -- `STATE_OPEN_KEEPALIVE2_ACK`
    refine leaves_onRead (by simp [readCall, hs]) fun chunk ↦ ?_
    rw [hs]
    exact leaves_goto _ (by decide) _
  · -- `STATE_OPEN_TAG_ACK`
    refine leaves_onRead (by simp [readCall, hs]) fun chunk ↦ ?_
    rw [hs]
    cases chunk with
    | seq n => exact leaves_goto _ (by decide) _
    | _ => exact leaves_failed _ _ _
  · -- `STATE_OPEN_MESSAGE_HEADER`
    refine leaves_onRead (by simp [readCall, hs]) fun chunk ↦ ?_
    rw [hs]
    cases chunk with
    | header h =>
      dsimp only [gotHeader]
      split_ifs
      · exact leaves_failed _ _ _
      · exact leaves_goto _ (by decide) _
    | _ => exact leaves_failed _ _ _
  · -- `STATE_OPEN_MESSAGE_THROTTLE_MESSAGE`
    left
    rw [hs]
    exact .of_ne (by rintro ⟨⟩) (by rintro ⟨⟩)
  · -- `STATE_OPEN_MESSAGE_THROTTLE_BYTES`
    left
    rw [hs]
    exact .of_ne (by rintro ⟨⟩) (by rintro ⟨⟩)
  · -- `STATE_OPEN_MESSAGE_READ_FRONT`
    split_ifs with hzero
    · rw [hs]
      exact .inl (leaves_goto _ (by decide) _)
    · refine leaves_onRead (by simp [readCall, hs, hzero]) fun chunk ↦ ?_
      rw [hs]
      cases chunk with
      | bytes bs => exact leaves_goto _ (by decide) _
      | _ => exact leaves_failed _ _ _
  · -- `STATE_OPEN_MESSAGE_READ_MIDDLE`
    split_ifs with hzero
    · rw [hs]
      exact .inl (leaves_goto _ (by decide) _)
    · refine leaves_onRead (by simp [readCall, hs, hzero]) fun chunk ↦ ?_
      rw [hs]
      cases chunk with
      | bytes bs => exact leaves_goto _ (by decide) _
      | _ => exact leaves_failed _ _ _
  · -- `STATE_OPEN_MESSAGE_READ_DATA_PREPARE`
    left
    rw [hs]
    exact leaves_goto _ (by decide) _
  · -- `STATE_OPEN_MESSAGE_READ_DATA`
    split_ifs with hzero
    · rw [hs]
      exact .inl (leaves_goto _ (by decide) _)
    · have hcall : c.readCall.isSome = true := by simp [readCall, hs, hzero]
      rw [onRead, hs]
      cases hread : inp.read with
      | error => exact .inl (leaves_failed _ _ _)
      | again => exact .inr ⟨hcall, .inl hread, rfl⟩
      | done chunk =>
        cases chunk with
        | bytes bs =>
          by_cases hleft : c.msgLeft - bs.length = 0
          · left
            refine leaves_goto _ ?_ _
            rw [if_pos hleft]
            decide
          · -- bytes have come, and the buffers are not full yet
            exact .inr ⟨hcall, .inr ⟨hs, bs, hread, hleft⟩, rfl⟩
        | _ => exact .inl (leaves_failed _ _ _)
  · -- `STATE_OPEN_MESSAGE_READ_FOOTER`
    refine leaves_onRead (by simp [readCall, hs]) fun chunk ↦ ?_
    rw [hs]
    cases chunk with
    | footer f =>
      dsimp only [gotFooter]
      split_ifs
      · exact leaves_failed _ _ _
      · exact leaves_goto _ (by decide) _
    | _ => exact leaves_failed _ _ _
  · -- `STATE_OPEN_MESSAGE_THROTTLE_DISPATCH_SIZE`
    left
    rw [hs]
    exact leaves_goto _ (by decide) _
  · -- `STATE_OPEN_MESSAGE_DISPATCH`
    left
    rw [hs]
    rcases dispatchMessage_cases (K := K) c inp with
      ⟨-, h⟩ | ⟨m, -, -, h⟩ | ⟨m, evWrite, evProcess, flow, -, -, hflow, h⟩
    · rw [h]
      exact leaves_failed _ _ _
    · rw [h]
      exact .of_ne (by rintro ⟨⟩) (by rintro ⟨⟩)
    · rw [h]
      refine ⟨fun _ _ ↦ by rintro ⟨⟩, fun hret hprefetched ↦ ?_⟩
      rcases hflow with rfl | ⟨-, hset⟩
      · cases hret
      · exact hset hprefetched
  · exact .inl ⟨by rintro ⟨⟩, by rintro ⟨⟩⟩

/-- **A pass from which the loop does not go on** has read all there is, or sets the timer, unless it
waits for something else. -/
theorem leaves_pass (hlater : c.Later) (hrest : c.state ∉ [State.standby, .closed, .waitSend]) :
    Leaves inp c.state (c.pass K flags enc inp) ∨ c.ReadsShort inp (c.pass K flags enc inp) := by
  by_cases hopen : c.state.isOpen = true
  · rw [pass_of_isOpen hopen]
    exact leaves_processOpen c inp
  have hstate : Leaves inp c.state (c.processState K flags enc inp) ∨
      c.ReadsShort inp (c.processState K flags enc inp) := by
    by_cases hwait : c.state = .wait
    · rw [processState, if_neg hopen, hwait]
      exact .inl (leaves_failed _ _ _)
    · simp only [List.mem_cons, List.not_mem_nil, or_false, not_or] at hrest
      rw [processState_eq (by simpa using hopen) (by simp [hrest, hwait])]
      exact leaves_processConnection hlater hrest.2.2
  rw [pass]
  dsimp only
  split_ifs with hfail
  · exact .inl ⟨fun hnext ↦ absurd (hfail.1.symm.trans hnext) (by decide),
      fun hret ↦ absurd (hfail.1.symm.trans hret) (by decide)⟩
  · exact hstate

end Conn

namespace Node

variable {β : Type} {enc : Frame → List β} {K : Codec} {flags : CrcFlags} {n n' : Node β} {e : Event β}

/-! ## Every return of `do_process`

A step of the event thread either stays inside of `do_process`, or is its return. The steps of other
threads do not move the event thread, so that they do not matter here. -/

theorem finish_spec (c : Conn β) (win : Option (Window β)) (k : Caller) :
    (finish c win k).conn.state = c.state ∧ (finish c win k).conn.stopping = c.stopping ∧
      (finish c win k).conn.evProcess = c.evProcess := by
  cases k with
  | process =>
    obtain ⟨b, h⟩ := c.kickWrite_eq
    rw [finish, h]
    exact ⟨rfl, rfl, rfl⟩
  | nested =>
    obtain ⟨b, h⟩ := ({ c with sending := false } : Conn β).kickWrite_eq
    rw [finish, h]
    exact ⟨rfl, rfl, rfl⟩

theorem again_spec {c : Conn β} {win : Option (Window β)} {prev : State} {k : Caller}
    (h : (again c win prev k).loc.inProcess = false) :
    again c win prev k = finish c win k ∧ c.opening = none ∧ (c.state = prev ∨ c.stopping = true) := by
  rw [again] at h ⊢
  split_ifs at h ⊢ with hgo
  · cases h
  · rw [not_or] at hgo
    refine ⟨rfl, by simpa using hgo.1, ?_⟩
    by_cases hstate : c.state = prev
    · exact .inl hstate
    · exact .inr (by simpa [hstate] using hgo.2)

/-- How `do_process` may return. -/
inductive Return (enc : Frame → List β) (K : Codec) (flags : CrcFlags) (n n' : Node β) :
    Event β → Prop
  | replaced {e : Event β} (h : n.replaces enc K flags e = true) : Return enc K flags n n' e
  | left {e : Event β} (h : n'.conn.state ∈ [State.closed, .standby, .connecting, .waitSend]) :
    Return enc K flags n n' e
  /-- A pass has been the last, or has returned. -/
  | passed (inp : Input β) (hflow : (n.conn.pass K flags enc inp).flow = .next ∨
        (n.conn.pass K flags enc inp).flow = .ret)
      (hlast : (n.conn.pass K flags enc inp).flow = .next →
        (n.conn.pass K flags enc inp).conn.opening = none ∧
          ((n.conn.pass K flags enc inp).conn.state = n.conn.state ∨ n'.conn.stopping = true))
      (hstate : n'.conn.state = (n.conn.pass K flags enc inp).conn.state)
      (htimer : n'.conn.evProcess = (n.conn.pass K flags enc inp).conn.evProcess) :
    Return enc K flags n n' (.pass inp)

theorem exempt_fault {c : Conn β} {win : Option (Window β)} {k : Caller}
    (h : (fault c win (some k)).node.loc.inProcess = false) :
    (fault c win (some k)).node.conn.state ∈ [State.closed, .standby, .connecting, .waitSend] := by
  rw [fault] at h ⊢
  split_ifs at h ⊢ with hclosed
  · rw [(finish_spec c win k).1, hclosed]
    decide
  · cases h
  · rw [(finish_spec c.faultRetry win k).1, Conn.faultRetry]
    dsimp only
    split_ifs <;> simp

/-- Past `wait_sending`: the replacement is carried out, or the connection closes or faults. -/
theorem afterWait_returns {c : Conn β} {win : Option (Window β)} {k : Caller} {close : Bool}
    {prev : State} {r : ReplaceInput}
    (h : (afterWait enc c win k close prev r).node.loc.inProcess = false) :
    c.replacing = 1 ∨ (afterWait enc c win k close prev r).node.conn.state ∈
      [State.closed, .standby, .connecting, .waitSend] := by
  rw [afterWait] at h ⊢
  by_cases hrepl : c.replacing = 1
  · exact .inl hrepl
  rw [if_neg hrepl] at h ⊢
  cases close with
  | true => cases h
  | false => exact .inr (exempt_fault h)

theorem processPass_returns {k : Caller} {inp : Input β} (hloc : n.loc = .process k)
    (h : (processPass enc K flags n k inp).node.loc.inProcess = false) :
    Return enc K flags n (processPass enc K flags n k inp).node (.pass inp) := by
  -- after a failure the thread has left, unless it waits for the sender
  have hwaits {o : Outcome β} (close : Bool) (ho : n.conn.pass K flags enc inp = o)
      (hflow : o.flow = .fail ∨ o.flow = .close)
      (h : (waitSending enc n o.conn k close inp.replace).node.loc.inProcess = false) :
      Return enc K flags n (waitSending enc n o.conn k close inp.replace).node (.pass inp) := by
    rw [waitSending] at h ⊢
    by_cases hsending : o.conn.sending = true
    · rw [if_pos hsending] at h
      cases h
    rw [if_neg hsending] at h ⊢
    rcases afterWait_returns h with hrepl | hleft
    · refine .replaced ?_
      rw [replaces, ho]
      rcases hflow with hflow | hflow <;> simp [hflow, hsending, hrepl]
    · exact .left hleft
  rw [processPass] at h ⊢
  generalize ho : n.conn.pass K flags enc inp = o at h ⊢
  dsimp only at h ⊢
  cases hflow : o.flow with
  | next =>
    rw [hflow] at h
    obtain ⟨heq, hopening, hlast⟩ := again_spec h
    obtain ⟨hstate, hstop, htimer⟩ := finish_spec o.conn n.win k
    dsimp only
    rw [heq]
    refine .passed inp (.inl (ho ▸ hflow)) (fun _ ↦ ?_) (ho ▸ hstate) (ho ▸ htimer)
    rw [ho, hstop]
    exact ⟨hopening, hlast⟩
  | ret =>
    obtain ⟨hstate, hstop, htimer⟩ := finish_spec o.conn n.win k
    exact .passed inp (.inr (ho ▸ hflow)) (fun hnext ↦ absurd (hflow.symm.trans (ho ▸ hnext)) (by decide))
      (ho ▸ hstate) (ho ▸ htimer)
  | abort =>
    rw [hflow] at h
    have hloc' : n.loc.inProcess = false := h
    rw [hloc] at hloc'
    cases hloc'
  | fail =>
    rw [hflow] at h
    exact hwaits false ho (.inl hflow) h
  | close =>
    rw [hflow] at h
    exact hwaits true ho (.inr hflow) h

/-- A thread in `send_message` does not move the event thread. -/
theorem loc_returnTrySend {c : Conn β} {owner : Owner} {loc : Loc} (h : loc.inProcess = true)
    (left : Option ℕ) (gather : ℕ) (r : ReplaceInput) :
    (returnTrySend enc K flags c owner loc left gather r).node.loc = loc := by
  cases owner with
  | user => rfl
  | event =>
    cases loc with
    | idle => cases h
    | writing => cases h
    | _ => rfl

theorem loc_relock (h : n.loc.inProcess = true) (w : Window β) (gather : ℕ) (r : ReplaceInput) :
    (relock enc K flags n w gather r).node.loc = n.loc := by
  rw [relock]
  split_ifs
  · exact loc_returnTrySend h ..
  · split
    · rfl
    · split_ifs
      · rfl
      · exact loc_returnTrySend h ..

theorem loc_sendMessage (m : Message) (concurrent : Bool) (gather : ℕ) :
    (sendMessage enc K flags n m concurrent gather).loc = n.loc := by
  rw [sendMessage]
  dsimp only
  split_ifs <;> rfl

/-- Where `do_process` returns. -/
theorem returns_of_next (hnext : n.next enc K flags e = some n') (h : n.loc.inProcess = true)
    (h' : n'.loc.inProcess = false) : Return enc K flags n n' e := by
  rw [next, Option.map_eq_some_iff] at hnext
  obtain ⟨res, hstep, rfl⟩ := hnext
  have hidle (hloc : n.loc = .idle) : Return enc K flags n res.node e := by
    rw [hloc] at h
    cases h
  have hstay (hloc : res.node.loc = n.loc) : Return enc K flags n res.node e := by
    rw [hloc, h] at h'
    cases h'
  cases (Step.of_step hstep).2 with
  | pass inp k hloc => exact processPass_returns hloc h'
  | wake r k close prev hloc hsending =>
    rcases afterWait_returns h' with hrepl | hleft
    · exact .replaced (by simp [replaces, hrepl])
    · exact .left hleft
  | leave k hloc =>
    refine .left ?_
    cases k with
    | none =>
      rw [hloc] at h
      cases h
    | some k =>
      rw [(finish_spec n.conn.stop n.win k).1, Conn.state_stop]
      decide
  | relock gather r w hwin => exact hstay (loc_relock (n := { n with win := none }) h w gather r)
  | sendMessage m concurrent gather => exact hstay (loc_sendMessage m concurrent gather)
  | sendKeepaliveClosed => exact hstay rfl
  | sendKeepalive => exact hstay rfl
  | sendmsg => exact hstay rfl
  | sendmsgError => exact hstay rfl
  | setStopping => exact hstay rfl
  | markDisposable => exact hstay rfl
  | handOver => exact hstay rfl
  | cStop hloc => exact hidle hloc
  | handleReplace r hloc => exact hidle hloc
  | timer hloc => exact hidle hloc
  | readable hloc => exact hidle hloc
  | handleWrite gather hloc => exact hidle hloc

end Node

namespace Inlet

variable {β : Type} {enc : Frame → List β} {K : Codec} {flags : CrcFlags}

/-- `do_process` returns in the step. -/
def Returns (s s' : Inlet β) : Prop := s.node.loc.inProcess = true ∧ s'.node.loc.inProcess = false

/-- What has been read is not forgotten: the connection is stopping, closed, in standby, about to
connect or waits until its output is written, or nothing is prefetched, or the timer is set. -/
def Attended (s : Inlet β) : Prop :=
  s.node.conn.stopping = true ∨ s.node.conn.state ∈ [State.closed, .standby, .connecting, .waitSend] ∨
    s.recv.Drained ∨ s.node.conn.evProcess = true

variable {s : Inlet β} {e : Event β} {sup : Supply} {n : Node β}

theorem attended_of_state (h : n.conn.state ∈ [State.closed, .standby, .connecting, .waitSend]) :
    (s.settle enc K flags e sup n).Attended := by
  refine .inr (.inl ?_)
  rw [settle]
  dsimp only
  split_ifs <;> exact h

/-- After `do_replace` the timer is set for what was handed over. -/
theorem attended_of_replaces (h : s.node.replaces enc K flags e = true) :
    (s.settle enc K flags e sup n).Attended := by
  by_cases hstate : n.conn.state ∈ [State.closed, .standby, .connecting, .waitSend]
  · exact attended_of_state hstate
  simp only [List.mem_cons, List.not_mem_nil, or_false, not_or] at hstate
  obtain ⟨hclosed, hstandby, hconnecting, -⟩ := hstate
  have hclear : ¬(n.conn.state = .standby ∨ n.conn.state = .connecting) := by
    rintro (h | h)
    · exact hstandby h
    · exact hconnecting h
  by_cases hdrained : s.recv.doReplace.Drained
  · refine .inr (.inr (.inl ?_))
    rw [settle, h]
    dsimp only
    rw [if_neg hclear, if_neg hclosed]
    exact hdrained
  · refine .inr (.inr (.inr ?_))
    rw [settle, h]
    dsimp only
    rw [if_neg hclear, if_neg hclosed, if_pos ⟨rfl, hclosed, hdrained⟩]

/-- Otherwise the buffer and the timer are as the step has left them. -/
theorem attended_of_not_replaces (h : s.node.replaces enc K flags e = false)
    (hn : n.conn.stopping = true ∨ s.recv.Drained ∨ n.conn.evProcess = true) :
    (s.settle enc K flags e sup n).Attended := by
  have hnode : (s.settle enc K flags e sup n).node = n := by
    simp only [settle, h, Bool.false_eq_true, false_and, if_false]
  rw [Attended, hnode]
  rcases hn with hstop | hdrained | htimer
  · exact .inl hstop
  · refine .inr (.inr (.inl ?_))
    simp only [settle, h, Bool.false_eq_true, if_false]
    split_ifs
    · rfl
    · exact hdrained
    · exact hdrained
  · exact .inr (.inr (.inr htimer))

theorem loc_settle (s : Inlet β) (e : Event β) (sup : Supply) (n : Node β) :
    (s.settle enc K flags e sup n).node.loc = n.loc := by
  rw [settle]
  dsimp only
  split_ifs <;> rfl

/-- A read that has not been enough has drained the buffer. -/
theorem drained_of_short {s' : Inlet β} {scripts : ℕ → List Ready} {read : Read} {inp : Input β}
    {o : Outcome β} (hfetch : s.fetch scripts = (some read, s')) (hread : inp.read = read)
    (hshort : s.node.conn.ReadsShort inp o) : s'.recv.Drained := by
  obtain ⟨hcall, hshort, -⟩ := hshort
  obtain ⟨⟨target, len⟩, hcall⟩ := Option.isSome_iff_exists.mp hcall
  rw [hread] at hshort
  rw [fetch, hcall] at hfetch
  dsimp only at hfetch
  by_cases hdata : s.node.conn.state = .openMessageReadData
  · rw [if_pos hdata] at hfetch
    rcases readData_spec scripts hfetch with hdrained | herror | ⟨bs, hdone, hlen⟩
    · exact hdrained
    · rw [herror] at hshort
      rcases hshort with ⟨⟨⟩⟩ | ⟨-, bs, ⟨⟩, -⟩
    · rw [hdone] at hshort
      rcases hshort with ⟨⟨⟩⟩ | ⟨-, bs', hbs, hleft⟩
      cases hbs
      rw [List.length_nil, Nat.zero_add] at hlen
      omega
  · rw [if_neg hdata] at hfetch
    have hagain : read = .again := hshort.resolve_right fun hboth ↦ hdata hboth.1
    have hdrained := ReadState.drained_readUntil (.ofNat len) (scripts 0) (s.reading len)
    generalize (s.reading len).readUntil (.ofNat len) (scripts 0) = out at hfetch hdrained
    obtain ⟨answer, x⟩ := out
    cases answer with
    | assertion => cases hfetch
    | ret r =>
      rw [hagain, Answer.read] at hfetch
      by_cases hneg : r < 0
      · rw [if_pos hneg] at hfetch
        cases hfetch
      rw [if_neg hneg] at hfetch
      by_cases hpos : 0 < r
      · rw [if_pos hpos, Prod.mk.injEq] at hfetch
        rw [← hfetch.2]
        exact hdrained r rfl hpos
      · rw [if_neg hpos] at hfetch
        cases hfetch

/-- A connection in standby, a closed one and one that waits until its output is written do not return
from a pass. -/
theorem flow_ne_ret {c : Conn β} {inp : Input β} (hs : c.state ∈ [State.standby, .closed, .waitSend]) :
    (c.pass K flags enc inp).flow ≠ .ret := by
  simp only [List.mem_cons, List.not_mem_nil, or_false] at hs
  rw [Conn.pass]
  dsimp only
  split_ifs with hfail
  · rw [hfail.1]
    decide
  · rcases hs with hs | hs | hs
    · rw [Conn.processState, hs]
      rintro ⟨⟩
    · rw [Conn.processState, hs]
      rintro ⟨⟩
    · rw [Conn.processState, hs]
      show (c.processConnection enc inp).flow ≠ .ret
      rw [Conn.processConnection, hs]
      show (c.flushed inp).flow ≠ .ret
      rw [Conn.flushed]
      split_ifs <;> rintro ⟨⟩

/-- **The last pass** has read all there is, or has set the timer. -/
theorem attended_pass {s' : Inlet β} {scripts : ℕ → List Ready} {read : Read} {inp : Input β}
    (hlater : s.node.conn.Later) (hfetch : s.fetch scripts = (some read, s')) {t : Inlet β}
    (hnode : t.node = s'.node) (hrecv : t.recv = s'.recv) (hread : inp.read = read)
    (hprefetched : inp.prefetched = !decide t.recv.Drained)
    (hreturn : Node.Return enc K flags t.node n (.pass inp)) :
    (t.settle enc K flags (.pass inp) sup n).Attended := by
  have hsame : t.node = s.node := by
    rw [hnode, ← node_fetch s scripts, hfetch]
  cases hreturn with
  | replaced h => exact attended_of_replaces h
  | left h => exact attended_of_state h
  | passed _ hflow hlast hstate htimer =>
    rw [hsame] at hflow hlast hstate htimer
    have hreplaces : t.node.replaces enc K flags (.pass inp) = false := by
      rw [hsame, Node.replaces]
      rcases hflow with hflow | hflow <;> rw [hflow] <;> rfl
    by_cases hrest : s.node.conn.state ∈ [State.standby, .closed, .waitSend]
    · have hnext := hflow.resolve_right (flow_ne_ret hrest)
      rcases (hlast hnext).2 with heq | hstop
      · apply attended_of_state
        rw [hstate, heq]
        simp only [List.mem_cons, List.not_mem_nil, or_false] at hrest ⊢
        rcases hrest with h | h | h <;> simp [h]
      · exact attended_of_not_replaces hreplaces (.inl hstop)
    apply attended_of_not_replaces hreplaces
    have hpass : Conn.Leaves inp s.node.conn.state (s.node.conn.pass K flags enc inp) ∨
        s.node.conn.ReadsShort inp (s.node.conn.pass K flags enc inp) := Conn.leaves_pass hlater hrest
    rcases hpass with hleaves | hshort
    · rcases hflow with hnext | hret
      · obtain ⟨hopening, heq | hstop⟩ := hlast hnext
        · exact absurd heq (hleaves.next hnext hopening)
        · exact .inl hstop
      · by_cases hdrained : t.recv.Drained
        · exact .inr (.inl hdrained)
        · refine .inr (.inr (htimer.trans (hleaves.ret hret ?_)))
          rw [hprefetched, decide_eq_false hdrained]
          rfl
    · exact .inr (.inl (hrecv ▸ drained_of_short hfetch hread hshort))

/-- The steps of an `Inlet`. -/
inductive Move (enc : Frame → List β) (K : Codec) (flags : CrcFlags) (s : Inlet β) (sup : Supply) :
    Event β → Inlet β → Prop
  /-- An assertion has failed in `read_until`. -/
  | assertion (inp : Input β) (t r : Inlet β) (hnode : t.node = s.node)
      (hfetch : t.fetch sup.scripts = (none, r)) :
    Move enc K flags s sup (.pass inp) { r with node := { r.node with crashed := true } }
  | pass (inp inp' : Input β) (t r r' : Inlet β) (read : Read) (n : Node β) (hnode : t.node = s.node)
      (hfetch : t.fetch sup.scripts = (some read, r)) (hread : inp'.read = read)
      (hnode' : r'.node = r.node) (hrecv : r'.recv = r.recv)
      (hprefetched : inp'.prefetched = !decide r'.recv.Drained)
      (hnext : r'.node.next enc K flags (.pass inp') = some n) :
    Move enc K flags s sup (.pass inp) (r'.settle enc K flags (.pass inp') sup n)
  | handOver (e : Event β) (n : Node β) (s' : Inlet β)
      (he : ∃ sd connect auth reset fromPeer, e = .handOver sd connect auth reset fromPeer)
      (hnext : s.node.next enc K flags e = some n) (hnode : s'.node = n) :
    Move enc K flags s sup e s'
  | other (e : Event β) (t : Inlet β) (n : Node β) (he : ∀ inp, e ≠ .pass inp) (hnode : t.node = s.node)
      (hnext : s.node.next enc K flags e = some n) :
    Move enc K flags s sup e (t.settle enc K flags e sup n)

theorem move_of_step {s' : Inlet β} (h : s.step enc K flags (e, sup) = some s') :
    Move enc K flags s sup e s' := by
  have hother (t : Inlet β) (hnode : t.node = s.node) (he : ∀ inp, e ≠ .pass inp)
      (h : (t.node.next enc K flags e).map (t.settle enc K flags e sup) = some s') :
      Move enc K flags s sup e s' := by
    rw [Option.map_eq_some_iff] at h
    obtain ⟨n, hnext, rfl⟩ := h
    exact .other e t n he hnode (hnode ▸ hnext)
  cases e with
  | pass inp =>
    rw [step] at h
    dsimp only at h
    split at h
    · split at h
      · rename_i r hfetch
        cases h
        exact .assertion inp { s with wire := s.wire ++ sup.arrived } r rfl hfetch
      · rename_i read r hfetch
        rw [Option.map_eq_some_iff] at h
        obtain ⟨n, hnext, rfl⟩ := h
        refine .pass inp _ { s with wire := s.wire ++ sup.arrived } r _ read n rfl hfetch rfl ?_ ?_ rfl hnext
        · split_ifs <;> rfl
        · split_ifs <;> rfl
    · cases h
  | handOver sd connect auth reset fromPeer =>
    rw [step, Option.map_eq_some_iff] at h
    obtain ⟨n, hnext, rfl⟩ := h
    exact .handOver _ n _ ⟨sd, connect, auth, reset, fromPeer, rfl⟩ hnext rfl
  | _ => exact hother { s with wire := s.wire ++ sup.arrived } rfl (by rintro - ⟨⟩) h

/-- **A step in which `do_process` returns, or `handle_replace` runs `do_replace`**, forgets nothing
that has been read. -/
theorem attended_step {s' : Inlet β} (hlater : s.node.conn.Later)
    (hstep : s.step enc K flags (e, sup) = some s')
    (h : Returns s s' ∨ s.node.conn.replacing = 1 ∧ ∃ r, e = .handleReplace r) : s'.Attended := by
  cases move_of_step hstep with
  | assertion inp t r hnode hfetch =>
    rcases h with ⟨hin, hout⟩ | ⟨-, -, ⟨⟩⟩
    have hsame : r.node = s.node := by
      rw [← hnode, ← node_fetch t sup.scripts, hfetch]
    rw [hsame, hin] at hout
    cases hout
  | pass inp inp' t r r' read n hnode hfetch hread hnode' hrecv hprefetched hnext =>
    rcases h with ⟨hin, hout⟩ | ⟨-, -, ⟨⟩⟩
    have hsame : r'.node = s.node := by
      rw [hnode', ← hnode, ← node_fetch t sup.scripts, hfetch]
    rw [loc_settle] at hout
    exact attended_pass (hnode ▸ hlater) hfetch hnode' hrecv hread hprefetched
      (Node.returns_of_next hnext (hsame ▸ hin) hout)
  | handOver e n s' he hnext hnode =>
    obtain ⟨sd, connect, auth, reset, fromPeer, rfl⟩ := he
    rcases h with ⟨hin, hout⟩ | ⟨-, -, ⟨⟩⟩
    cases Node.returns_of_next hnext hin (hnode ▸ hout) with
    | replaced h => cases h
    | left h => exact .inr (.inl (hnode ▸ h))
  | other e t n he hnode hnext =>
    have hreplaced (hrepl : s.node.replaces enc K flags e = true) :
        (t.settle enc K flags e sup n).Attended := attended_of_replaces (hnode ▸ hrepl)
    rcases h with ⟨hin, hout⟩ | ⟨hrepl, r, rfl⟩
    · rw [loc_settle] at hout
      cases Node.returns_of_next hnext hin hout with
      | replaced h => exact hreplaced h
      | left h => exact attended_of_state h
      | passed inp => exact absurd rfl (he inp)
    · exact hreplaced (by rw [Node.replaces, hrepl]; rfl)

/-- The connection as it is created, with nothing prefetched. -/
structure Initial (s : Inlet β) : Prop where
  node : s.node.Initial
  recvStart : s.recv.recvStart = 0
  recvEnd : s.recv.recvEnd = 0

theorem later_settle (h : n.conn.Later) : (s.settle enc K flags e sup n).node.conn.Later := by
  apply h.congr
  rw [settle]
  dsimp only
  split_ifs <;> rfl

theorem later_step {s' : Inlet β} (h : s.node.conn.Later) (hstep : s.step enc K flags (e, sup) = some s') :
    s'.node.conn.Later := by
  cases move_of_step hstep with
  | assertion inp t r hnode hfetch =>
    have hsame : r.node = s.node := by
      rw [← hnode, ← node_fetch t sup.scripts, hfetch]
    show r.node.conn.Later
    rw [hsame]
    exact h
  | pass inp inp' t r r' read n hnode hfetch hread hnode' hrecv hprefetched hnext =>
    have hsame : r'.node = s.node := by
      rw [hnode', ← hnode, ← node_fetch t sup.scripts, hfetch]
    exact later_settle (Node.later_next (hsame ▸ h) hnext)
  | handOver e n s' he hnext hnode =>
    rw [hnode]
    exact Node.later_next h hnext
  | other e t n he hnode hnext => exact later_settle (Node.later_next h hnext)

/-- **No stranded input.** Wherever `do_process` returns in a run, and wherever `handle_replace` runs
`do_replace`, nothing is left in the prefetch buffer or the timer is set, unless the connection is
stopping, is closed, in standby or about to connect, or waits until its output is written. -/
theorem no_stranded_input {s₀ s s' : Inlet β} {es : List (Event β × Supply)} (hinit : s₀.Initial)
    (hrun : Run.exec (step enc K flags) s₀ es = some s) (hstep : s.step enc K flags (e, sup) = some s')
    (h : Returns s s' ∨ s.node.conn.replacing = 1 ∧ ∃ r, e = .handleReplace r) : s'.Attended := by
  refine attended_step ?_ hstep h
  refine Run.invariant (I := fun s : Inlet β ↦ s.node.conn.Later) ?_ ?_ hrun
  · rintro s ⟨e, sup⟩ s' hlater hstep
    exact later_step hlater hstep
  · exact Node.later_initial hinit.node

/-- A peer has sent three bytes of its banner, and `do_process` returns. -/
theorem no_stranded_input_three :
    ∃ s s' : Inlet Frame, s.step (fun f ↦ [f]) Codec.trivial ⟨true, true⟩
        (.pass {}, { scripts := fun _ ↦ [.bytes 3], arrived := [99, 101, 112] }) = some s' ∧
      s'.wire = [] ∧ s'.recv.stateOffset = 3 ∧ s'.Attended := by
  obtain ⟨s, s', hrun, hstep, hreturns, hwire, hoffset⟩ : ∃ s s' : Inlet Frame,
      Run.exec (step (fun f ↦ [f]) Codec.trivial ⟨true, true⟩)
        { node := Node.accepted ⟨0, .acc⟩, recv := { recvMaxPrefetch := 8, recvBuf := List.replicate 16 0 } }
        [(.process true, {}), (.pass { kernel := some 2 }, {})] = some s ∧
      s.step (fun f ↦ [f]) Codec.trivial ⟨true, true⟩
        (.pass {}, { scripts := fun _ ↦ [.bytes 3], arrived := [99, 101, 112] }) = some s' ∧
      Returns s s' ∧ s'.wire = [] ∧ s'.recv.stateOffset = 3 := ⟨_, _, rfl, rfl, ⟨rfl, rfl⟩, rfl, rfl⟩
  exact ⟨s, s', hstep, hwire, hoffset,
    no_stranded_input ⟨.accepted _, rfl, rfl⟩ hrun hstep (.inl hreturns)⟩

end Inlet

end AsyncMessenger
