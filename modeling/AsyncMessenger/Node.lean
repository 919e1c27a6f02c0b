import AsyncMessenger.Process

/-!
# A connection and its threads

The methods of one connection as steps at the granularity of its lock. Everything the event center
runs for a connection (`process`, `handle_write`, `handle_replace`, `C_stop`) runs in one thread;
`send_message` and `send_keepalive` may be called from any other.

The lock is released in the middle of a method at three kinds of places, and there the method is
split into two steps: inside `_try_send`, around `do_sendmsg` (a `Window`); in `wait_sending`; and on
the way to `_stop`, which needs the messenger's lock first. `Loc` says where the event thread
stands.

A step that is not possible in a state is `none`. A failed assertion and the `end_of_buffer` that
`splice` throws on an empty list end in `crashed`.

`_try_send` sends a zero-copy buffer by itself instead of gathering it; here that is a gather of its
own, and the consumed part of a zero-copy buffer counts as trimmed.
-/

namespace AsyncMessenger

/-- Whose call has released the lock inside `_try_send`: a thread in `send_message`, or the event
thread in `handle_write`. -/
inductive Owner
  | user
  | event
  deriving DecidableEq, Repr

/-- The unlocked stretch of `_try_send`. -/
structure Window (β : Type) where
  owner : Owner
  /-- What `msgvec` points at: the front of `outcoming_bl` when the lock was released. -/
  gathered : List β
  /-- How much of it `do_sendmsg` has handed to the socket. -/
  wrote : ℕ := 0
  /-- `sendmsg` has failed. -/
  error : Bool := false

/-- Where `handle_write` calls `_try_send`: for a message of `out_q`, at the end of its open branch,
or in any other state. -/
inductive WritePc
  | message
  | flush
  | other
  deriving DecidableEq, Repr

/-- Who called `do_process`: `process`, or `handle_write` in `STATE_WAIT_SEND`. -/
inductive Caller
  | process
  | nested
  deriving DecidableEq, Repr

/-- Where the event thread stands. -/
inductive Loc
  | idle
  /-- In the loop of `do_process`. -/
  | process (k : Caller)
  /-- In `wait_sending`, at the label `fail` or in `STATE_OPEN_TAG_CLOSE`; `prev` is the variable
  `prev_state`. -/
  | waiting (k : Caller) (close : Bool) (prev : State)
  /-- Without the lock, on the way to `_stop`; `none` if not inside `do_process`. -/
  | leaving (k : Option Caller)
  /-- In `handle_write`, inside `_try_send`. -/
  | writing (pc : WritePc)
  deriving DecidableEq, Repr

/-- A connection with its threads. -/
structure Node (β : Type) where
  conn : Conn β := {}
  win : Option (Window β) := none
  loc : Loc := .idle
  crashed : Bool := false

/-- The result of a step: the node, what was written to which descriptor, what `release_throttle` gave
back to the message and the byte throttle, and what the step did to the messenger. -/
structure Result (β : Type) where
  node : Node β
  out : Option Fd × List β := (none, [])
  released : ℕ × ℕ := (0, 0)
  effect : Effect β := .none
  gseq : Option ℕ := none

/-- The steps. -/
inductive Event (β : Type)
  /-- `send_message`, until it returns or releases the lock; `m` has its source and priority filled
  in already. `concurrent` is the option `ms_concurrent_socket`, and `gather` is one less than what
  `_try_send` can put into `msgvec`. -/
  | sendMessage (m : Message) (concurrent : Bool) (gather : ℕ)
  | sendKeepalive
  /-- One `sendmsg` of `do_sendmsg`. -/
  | sendmsg (taken : ℕ)
  | sendmsgError
  /-- `_try_send` takes the lock again and its caller goes on. -/
  | relock (gather : ℕ) (r : ReplaceInput)
  /-- `mark_down` or `stop`: the flag is set and a `C_stop` is on its way. Only `mark_down` clears
  `queue_reset`. -/
  | setStopping (marksDown : Bool)
  | markDisposable
  | cStop
  /-- Another connection's `handle_connect_msg` hands its socket over. -/
  | handOver (sd : Option Fd) (connect : MsgConnect) (authorizerReply : Bytes)
      (resetSession resetFromPeer : Bool)
  | handleReplace (r : ReplaceInput)
  /-- `process`, called by the read watcher, or by `handle_process` for the timer. -/
  | process (timer : Bool)
  | pass (inp : Input β)
  /-- `wait_sending` returns. -/
  | wake (r : ReplaceInput)
  | leave
  | handleWrite (gather : ℕ)

namespace Conn

variable {β : Type}

/-- `kick_write`. -/
def kickWrite (c : Conn β) : Conn β :=
  if (c.state.isOpen ∧ (!c.q.outQ.isEmpty ∨ c.keepalive ∨ c.keepaliveAck)) ∨
      (c.outcomingBl ≠ [] ∧ c.state ≠ .connecting ∧ c.state ≠ .standby ∧ c.state ≠ .wait ∧
        c.state ≠ .closed)
  then c.startWrite else c

/-- `send_message` sends in the calling thread. -/
def sendsDirectly (c : Conn β) (concurrent : Bool) : Bool :=
  !c.isQueued && !c.sending && c.state.isOpen && c.state != .openTagClose &&
    (concurrent || c.state != .openMessageReadData)

/-- `mark_disposable`. -/
def markDisposable (c : Conn β) : Conn β :=
  let c : Conn β := { c with policy := { c.policy with lossy := true } }
  if c.state = .standby then c.stop else c

/-- `splice(0, sent)`; `none` is the exception `end_of_buffer`. -/
def splice (c : Conn β) (sent : ℕ) : Option (Conn β) :=
  if sent = 0 then some c
  else if c.outcomingBl = [] then none
  else some { c with outcomingBl := c.outcomingBl.drop sent }

variable (K : Codec) (flags : CrcFlags) (enc : Frame → List β)

/-- `_send` up to the call of `_try_send`, with the frame already appended to `outcoming_bl`. -/
def send (c : Conn β) (m : Message) : Conn β :=
  let (m', q) := c.q.number c.policy.lossy m
  { c with q, outcomingBl := c.outcomingBl ++ enc (.msg (m'.encode K flags c.features)) }

/-- `_send_keepalive_or_ack`: the frame is only appended, and the watcher started. -/
def sendKeepaliveOrAck (c : Conn β) (f : Frame) : Conn β :=
  ({ c with outcomingBl := c.outcomingBl ++ enc f } : Conn β).setAction

/-- `handle_write` sends a keepalive that was asked for. -/
def sendKeepalive (c : Conn β) : Conn β :=
  if c.keepalive then { c.sendKeepaliveOrAck enc .keepalive2 with keepalive := false } else c

/-- `handle_write` answers the peer's keepalive. -/
def sendKeepaliveAck (c : Conn β) : Conn β :=
  if c.keepaliveAck then { c.sendKeepaliveOrAck enc .keepalive2Ack with keepaliveAck := false }
  else c

end Conn

namespace Node

variable {β : Type}

/-- The lock is released with the front of `outcoming_bl` gathered. -/
def openWindow (c : Conn β) (owner : Owner) (loc : Loc) (gather : ℕ) : Node β :=
  { conn := c, win := some { owner, gathered := c.outcomingBl.take (gather + 1) }, loc }

/-- What follows the return of `do_process`, if there was one. -/
def finish (c : Conn β) (win : Option (Window β)) : Option Caller → Node β
  | some .process => { conn := c.kickWrite, win }
  | some .nested => { conn := ({ c with sending := false } : Conn β).kickWrite, win }
  | none => { conn := c, win }

/-- The loop condition of `do_process`. A pass split by `Conn.opening` goes on in any case. -/
def again (c : Conn β) (win : Option (Window β)) (prev : State) (k : Caller) : Node β :=
  if c.opening.isSome ∨ (c.state ≠ prev ∧ !c.stopping) then { conn := c, win, loc := .process k }
  else finish c win k

/-- `fault`; the lossy way out releases the lock. -/
def fault (c : Conn β) (win : Option (Window β)) (k : Option Caller) : Result β :=
  if c.state = .closed then { node := finish c win k }
  else if c.faultStops then { node := { conn := c, win, loc := .leaving k } }
  else { node := finish c.faultRetry win k, released := c.releaseThrottle }

variable (enc : Frame → List β)

/-- `do_process` after `wait_sending`: at the label `fail`, or in `STATE_OPEN_TAG_CLOSE`. -/
def afterWait (c : Conn β) (win : Option (Window β)) (k : Caller) (close : Bool) (prev : State)
    (r : ReplaceInput) : Result β :=
  if c.replacing = 1 then
    let s := c.doReplace enc r
    { node := again s.conn win prev k, out := (s.conn.sd, s.wrote), released := c.releaseThrottle }
  else if close then { node := { conn := c, win, loc := .leaving (some k) } }
  else fault c win (some k)

/-- The label `fail` of `handle_write`. -/
def writeFail (c : Conn β) (r : ReplaceInput) : Result β :=
  let c : Conn β := { c with sending := false }
  if c.replacing = 1 then
    let s := c.doReplace enc r
    { node := { conn := s.conn }, out := (s.conn.sd, s.wrote), released := c.releaseThrottle }
  else fault c none none

/-- The end of a successful `handle_write`. -/
def writeDone (c : Conn β) : Node β := { conn := ({ c with sending := false } : Conn β).kickWrite }

/-- The end of the open branch of `handle_write`: the ACK, if one is due, and the flush. -/
def writeFlush (c : Conn β) (gather : ℕ) : Node β :=
  if c.inSeqAcked < c.inSeq then
    openWindow { c with
      inSeqAcked := c.inSeq
      outcomingBl := c.outcomingBl ++ enc (.ack c.inSeq) } .event (.writing .flush) gather
  else if c.outcomingBl = [] then writeDone c.setAction
  else openWindow c .event (.writing .flush) gather

variable (K : Codec) (flags : CrcFlags)

/-- The loop of `handle_write` over `out_q`. -/
def writeMessages (c : Conn β) (gather : ℕ) : Node β :=
  -- a connection that is marked down sends no more messages
  if c.stopping then writeFlush enc c gather
  else match c.q.getNextOutgoing with
    | none => writeFlush enc c gather
    | some (m, q) =>
      openWindow (({ c with q } : Conn β).send K flags enc m) .event (.writing .message) gather

/-- `handle_write`, until it returns or releases the lock. -/
def handleWrite (c : Conn β) (win : Option (Window β)) (gather : ℕ) : Node β :=
  -- another thread sends, and starts the watcher again when it has done
  if c.sending then { conn := { c with handleWriteDelayed := true, evWrite := false }, win }
  else
    let c : Conn β := { c with sending := true }
    if c.state.isOpen then
      writeMessages enc K flags ((c.sendKeepalive enc).sendKeepaliveAck enc) gather
    else if c.state ≠ .connecting ∧ c.state ≠ .standby ∧ c.state ≠ .wait then
      if c.outcomingBl = [] then
        if c.state = .waitSend then { conn := c.setAction, loc := .process .nested }
        else writeDone c.setAction
      else openWindow c .event (.writing .other) gather
    else { conn := { c with sending := false, evWrite := false } }

/-- `handle_write` after a `_try_send` that returned `left`; a negative result is `none`. -/
def afterWrite (c : Conn β) (pc : WritePc) (left : Option ℕ) (gather : ℕ) (r : ReplaceInput) :
    Result β :=
  match left, pc with
  | none, _ => writeFail enc c r
  | some 0, .message => { node := writeMessages enc K flags c gather }
  | some (_ + 1), .message => { node := writeFlush enc c gather }
  | some _, .flush => { node := writeDone c }
  | some _, .other =>
    { node := if c.state = .waitSend then { conn := c, loc := .process .nested } else writeDone c }

/-- `send_message`, until it returns or releases the lock. -/
def sendMessage (n : Node β) (m : Message) (concurrent : Bool) (gather : ℕ) : Node β :=
  -- the message is dropped
  if n.conn.stopping then n
  else if n.conn.sendsDirectly concurrent then
    openWindow (({ n.conn with sending := true } : Conn β).send K flags enc m) .user n.loc gather
  else if n.conn.state = .closed then n
  else
    let c : Conn β := { n.conn with q := n.conn.q.push m }
    -- the thread that sends takes it later
    if c.sending then { n with conn := c }
    else if c.state = .standby ∧ !c.policy.server then { n with conn := c.connect }
    else { n with conn := c.startWrite }

/-- The end of `send_message`, after its `_try_send` returned. -/
def finishSend (c : Conn β) (loc : Loc) (error : Bool) : Node β :=
  let c : Conn β := { c with sending := false, wantSend := false }
  { conn := if error ∨ c.handleWriteDelayed then
      ({ c with handleWriteDelayed := false } : Conn β).startWrite else c
    loc }

/-- The caller of `_try_send` goes on with its result. -/
def returnTrySend (c : Conn β) (owner : Owner) (loc : Loc) (left : Option ℕ) (gather : ℕ)
    (r : ReplaceInput) : Result β :=
  match owner, loc with
  | .user, _ => { node := finishSend c loc left.isNone }
  | .event, .writing pc => afterWrite enc K flags c pc left gather r
  | .event, _ => { node := { conn := c, loc, crashed := true } }

/-- `_try_send` after `do_sendmsg`: with the lock taken again, trim what was sent and go on
gathering, or return. -/
def relock (n : Node β) (w : Window β) (gather : ℕ) (r : ReplaceInput) : Result β :=
  if w.error then returnTrySend enc K flags n.conn w.owner n.loc none gather r
  else match n.conn.splice w.wrote with
    | none => { node := { n with win := some w, crashed := true } }
    | some c =>
      -- all that was gathered has gone, and there is more to gather
      if w.wrote = w.gathered.length ∧ c.outcomingBl ≠ [] then
        { node := openWindow c w.owner n.loc gather }
      else returnTrySend enc K flags c.setAction w.owner n.loc (some c.outcomingBl.length) gather r

/-- `handle_replace`. -/
def handleReplace (n : Node β) (r : ReplaceInput) : Result β :=
  let c : Conn β := { n.conn with evReplace := false }
  if c.replacing = 1 then
    let s := c.doReplace enc r
    { node := { n with conn := s.conn }
      out := (s.conn.sd, s.wrote)
      released := c.releaseThrottle }
  else { node := { n with conn := c } }

/-- `wait_sending` in `do_process`, and what follows if it returns at once; `c` is the connection
after the pass. -/
def waitSending (n : Node β) (c : Conn β) (k : Caller) (close : Bool) (r : ReplaceInput) : Result β :=
  if c.sending then
    { node := { n with conn := { c with wantSend := true }, loc := .waiting k close n.conn.state } }
  else afterWait enc c n.win k close n.conn.state r

/-- One pass of `do_process` and what follows it under the same hold of the lock. -/
def processPass (n : Node β) (k : Caller) (inp : Input β) : Result β :=
  let o := n.conn.pass K flags enc inp
  match o.flow with
  | .next =>
    { node := again o.conn n.win n.conn.state k
      out := (n.conn.sd, o.wrote)
      effect := o.effect
      gseq := some o.gseq }
  | .ret => { node := finish o.conn n.win k, effect := o.effect, gseq := some o.gseq }
  | .abort => { node := { n with crashed := true } }
  | .fail =>
    { waitSending enc n o.conn k false inp.replace with effect := o.effect, gseq := some o.gseq }
  | .close =>
    { waitSending enc n o.conn k true inp.replace with effect := o.effect, gseq := some o.gseq }

/-- One step of a connection that has not crashed. -/
def live (n : Node β) : Event β → Option (Result β)
  | .sendMessage m concurrent gather =>
    some { node := sendMessage enc K flags n m concurrent gather }
  | .sendKeepalive =>
    some { node := if n.conn.state = .closed then n else
      { n with conn := ({ n.conn with keepalive := true } : Conn β).startWrite } }
  | .sendmsg taken =>
    match n.win with
    | none => none
    | some w =>
      if w.error ∨ n.conn.sd = none ∨ w.gathered.length < w.wrote + taken then none
      else some
        { node := { n with win := some { w with wrote := w.wrote + taken } }
          out := (n.conn.sd, (w.gathered.drop w.wrote).take taken) }
  | .sendmsgError =>
    n.win.map fun w ↦ { node := { n with win := some { w with error := true } } }
  | .relock gather r => n.win.map fun w ↦ relock enc K flags { n with win := none } w gather r
  | .setStopping marksDown =>
    some { node := { n with conn := { n.conn with
      stopping := true
      queueReset := n.conn.queueReset && !marksDown } } }
  | .markDisposable => some { node := { n with conn := n.conn.markDisposable } }
  | .cStop =>
    if n.loc = .idle ∧ n.conn.stopping then
      some { node := { n with conn := n.conn.stop }, released := n.conn.releaseThrottle }
    else none
  | .handOver sd connect authorizerReply resetSession resetFromPeer =>
    if n.conn.busy then none
    else some { node := { n with
      conn := n.conn.markReplacing sd connect authorizerReply resetSession resetFromPeer } }
  | .handleReplace r =>
    if n.loc = .idle ∧ n.conn.evReplace then some (handleReplace enc n r) else none
  | .process timer =>
    if n.loc = .idle ∧ (if timer then n.conn.evProcess else n.conn.evRead) then
      some { node := { n with
        conn := if timer then { n.conn with evProcess := false } else n.conn
        loc := .process .process } }
    else none
  | .pass inp =>
    match n.loc with
    | .process k => some (processPass enc K flags n k inp)
    | _ => none
  | .wake r =>
    match n.loc with
    | .waiting k close prev =>
      if n.conn.sending then none else some (afterWait enc n.conn n.win k close prev r)
    | _ => none
  | .leave =>
    match n.loc with
    | .leaving k =>
      some { node := finish n.conn.stop n.win k, released := n.conn.releaseThrottle }
    | _ => none
  | .handleWrite gather =>
    if n.loc = .idle ∧ n.conn.evWrite then
      some { node := handleWrite enc K flags n.conn n.win gather }
    else none

/-- One step of the connection. -/
def step (n : Node β) (e : Event β) : Option (Result β) :=
  if n.crashed then none else live enc K flags n e

/-- The connection alone, along the steps that are possible. -/
def next (n : Node β) (e : Event β) : Option (Node β) :=
  (n.step enc K flags e).map Result.node

/-- The steps, with what each of them needs. -/
inductive Step (n : Node β) : Event β → Result β → Prop
  | sendMessage (m concurrent gather) :
    Step n (.sendMessage m concurrent gather)
      { node := sendMessage enc K flags n m concurrent gather }
  | sendKeepaliveClosed (h : n.conn.state = .closed) : Step n .sendKeepalive { node := n }
  | sendKeepalive (h : n.conn.state ≠ .closed) :
    Step n .sendKeepalive
      { node := { n with conn := ({ n.conn with keepalive := true } : Conn β).startWrite } }
  | sendmsg (taken w) (hwin : n.win = some w) (herror : w.error = false) (hsd : n.conn.sd ≠ none)
      (hfits : w.wrote + taken ≤ w.gathered.length) :
    Step n (.sendmsg taken)
      { node := { n with win := some { w with wrote := w.wrote + taken } }
        out := (n.conn.sd, (w.gathered.drop w.wrote).take taken) }
  | sendmsgError (w) (hwin : n.win = some w) :
    Step n .sendmsgError { node := { n with win := some { w with error := true } } }
  | relock (gather r w) (hwin : n.win = some w) :
    Step n (.relock gather r) (relock enc K flags { n with win := none } w gather r)
  | setStopping (marksDown : Bool) :
    Step n (.setStopping marksDown)
      { node := { n with conn := { n.conn with
        stopping := true
        queueReset := n.conn.queueReset && !marksDown } } }
  | markDisposable : Step n .markDisposable { node := { n with conn := n.conn.markDisposable } }
  | cStop (hidle : n.loc = .idle) (hstopping : n.conn.stopping = true) :
    Step n .cStop { node := { n with conn := n.conn.stop }, released := n.conn.releaseThrottle }
  | handOver (sd connect auth reset fromPeer) (hbusy : n.conn.busy = false) :
    Step n (.handOver sd connect auth reset fromPeer)
      { node := { n with conn := n.conn.markReplacing sd connect auth reset fromPeer } }
  | handleReplace (r) (hidle : n.loc = .idle) (hev : n.conn.evReplace = true) :
    Step n (.handleReplace r) (handleReplace enc n r)
  | timer (hidle : n.loc = .idle) (hev : n.conn.evProcess = true) :
    Step n (.process true)
      { node := { n with conn := { n.conn with evProcess := false }, loc := .process .process } }
  | readable (hidle : n.loc = .idle) (hev : n.conn.evRead = true) :
    Step n (.process false) { node := { n with loc := .process .process } }
  | pass (inp k) (hloc : n.loc = .process k) :
    Step n (.pass inp) (processPass enc K flags n k inp)
  | wake (r k close prev) (hloc : n.loc = .waiting k close prev) (hsending : n.conn.sending = false) :
    Step n (.wake r) (afterWait enc n.conn n.win k close prev r)
  | leave (k) (hloc : n.loc = .leaving k) :
    Step n .leave { node := finish n.conn.stop n.win k, released := n.conn.releaseThrottle }
  | handleWrite (gather) (hidle : n.loc = .idle) (hev : n.conn.evWrite = true) :
    Step n (.handleWrite gather) { node := handleWrite enc K flags n.conn n.win gather }

variable {enc K flags} in
/-- Every possible step is one of these. -/
theorem Step.of_step {n : Node β} {e : Event β} {res : Result β}
    (h : n.step enc K flags e = some res) : n.crashed = false ∧ Step enc K flags n e res := by
  rw [step] at h
  by_cases hcrashed : n.crashed = true
  · rw [if_pos hcrashed] at h
    exact absurd h (by simp)
  · rw [if_neg hcrashed] at h
    refine ⟨by simpa using hcrashed, ?_⟩
    cases e with
    | sendMessage m concurrent gather =>
      rw [live, Option.some_inj] at h
      exact h ▸ .sendMessage m concurrent gather
    | sendKeepalive =>
      rw [live, Option.some_inj] at h
      subst h
      split_ifs with hclosed
      · exact .sendKeepaliveClosed hclosed
      · exact .sendKeepalive hclosed
    | sendmsg taken =>
      rw [live] at h
      split at h
      · exact absurd h (by simp)
      · rename_i w hwin
        split_ifs at h with hno
        rw [Option.some_inj] at h
        simp only [not_or, Bool.not_eq_true, Nat.not_lt] at hno
        exact h ▸ .sendmsg taken w hwin hno.1 hno.2.1 hno.2.2
    | sendmsgError =>
      rw [live, Option.map_eq_some_iff] at h
      obtain ⟨w, hwin, rfl⟩ := h
      exact .sendmsgError w hwin
    | relock gather r =>
      rw [live, Option.map_eq_some_iff] at h
      obtain ⟨w, hwin, rfl⟩ := h
      exact .relock gather r w hwin
    | setStopping marksDown =>
      rw [live, Option.some_inj] at h
      exact h ▸ .setStopping marksDown
    | markDisposable =>
      rw [live, Option.some_inj] at h
      exact h ▸ .markDisposable
    | cStop =>
      rw [live, Option.ite_none_right_eq_some, Option.some_inj] at h
      obtain ⟨⟨hidle, hstopping⟩, rfl⟩ := h
      exact .cStop hidle hstopping
    | handOver sd connect auth reset fromPeer =>
      rw [live, Option.ite_none_left_eq_some, Option.some_inj] at h
      obtain ⟨hbusy, rfl⟩ := h
      exact .handOver sd connect auth reset fromPeer (by simpa using hbusy)
    | handleReplace r =>
      rw [live, Option.ite_none_right_eq_some, Option.some_inj] at h
      obtain ⟨⟨hidle, hev⟩, rfl⟩ := h
      exact .handleReplace r hidle hev
    | process timer =>
      rw [live, Option.ite_none_right_eq_some, Option.some_inj] at h
      obtain ⟨⟨hidle, hev⟩, rfl⟩ := h
      cases timer with
      | true => exact .timer hidle (by simpa using hev)
      | false => exact .readable hidle (by simpa using hev)
    | pass inp =>
      rw [live] at h
      split at h
      · rename_i k hloc
        rw [Option.some_inj] at h
        exact h ▸ .pass inp k hloc
      · exact absurd h (by simp)
    | wake r =>
      rw [live] at h
      split at h
      · rename_i k close prev hloc
        rw [Option.ite_none_left_eq_some, Option.some_inj] at h
        obtain ⟨hsending, rfl⟩ := h
        exact .wake r k close prev hloc (by simpa using hsending)
      · exact absurd h (by simp)
    | leave =>
      rw [live] at h
      split at h
      · rename_i k hloc
        rw [Option.some_inj] at h
        exact h ▸ .leave k hloc
      · exact absurd h (by simp)
    | handleWrite gather =>
      rw [live, Option.ite_none_right_eq_some, Option.some_inj] at h
      obtain ⟨⟨hidle, hev⟩, rfl⟩ := h
      exact .handleWrite gather hidle hev

/-- A connection made by `get_connection`, after `_connect`. -/
def outgoing (policy : Policy) : Node β :=
  { conn := ({ policy } : Conn β).connect }

/-- A connection made for an accepted socket, after `accept`. -/
def accepted (fd : Fd) : Node β :=
  { conn := { state := .accepting, sd := some fd, evRead := true, evProcess := true } }

/-- The steps that take a connection accepted on a socket through the handshake with a peer that
sends `connect` and no authorizer. -/
def acceptRun (connect : MsgConnect) (policy : Policy) : List (Event β) :=
  [.process true,
    .pass { kernel := some 2 },
    .pass { read := .done (.bannerAddr AsyncMessenger.banner) },
    .pass { read := .done (.connect connect) },
    .pass { newPolicy := policy },
    .pass {},
    .pass { kernel := some 1 },
    .pass {},
    .pass {}]

/-- The connection as it is created, on either side. -/
inductive Initial : Node β → Prop
  | outgoing (policy : Policy) : Initial (outgoing policy)
  | accepted (fd : Fd) : Initial (accepted fd)

end Node

end AsyncMessenger
