import AsyncMessenger.Resumption
import AsyncMessenger.Moves
import AsyncMessenger.Changes
import AsyncMessenger.StateMachine

/-!
# The connection object as a party

A session over many sockets is about the part of a connection that outlives its socket: the send
queues, the two counters of what has been received, and the messages dispatched. Here is what the
code does to this part, whichever thread takes the step.

## Deeds and acts

A pass of `do_process` does one of seven things to it, each in a state of its own (`Affects`): five
of them are steps of a party, the other two end the session. `send_message` queues, or sends at
once, which is the same as queueing and then sending, since nothing else waits. `handle_write` sends
the next message, or an ACK. Where a step gives up on the socket, `fault` and `do_replace` put back
what was sent.

The cases are collected by what takes the step: a pass, `handle_write`, a thread in `send_message`,
the end of a `wait_sending`. `deed_next` says that there are no others, and `acts_next` that every
one of them is a chain of acts of a session, or ends it. So what is proved of all runs of a session
holds of the connection objects as long as their sessions last.
-/

namespace AsyncMessenger

namespace Party

/-- What a session does to a party. -/
inductive Act : Party → Party → Prop
  | queues (p : Party) (m : Message) : Act p { p with q := p.q.push m }
  | sends (p : Party) {m : Message} {p' : Party} (h : p.send = some (m, p')) : Act p p'
  | acks (p : Party) : Act p { p with inSeqAcked := p.inSeq }
  | receives (p : Party) (m : Message) : Act p (p.receive m)
  | acked (p : Party) (seq : ℕ) : Act p (p.handleAck seq)
  | resumes (p : Party) (seq : ℕ) : Act p (p.resume seq)
  | begins (p : Party) : Act p p.begin
  | requeues (p : Party) : Act p p.requeue

/-- Nothing is left to send. -/
def Dropped (p : Party) : Prop := p.q.sent = [] ∧ p.q.outQ = []

/-- A message sent at once might as well have been queued. -/
theorem acts_direct {p : Party} (hqueue : p.q.outQ = []) (m : Message) :
    Relation.ReflTransGen Act p { p with q := (p.q.number false m).2 } := by
  have hpop : (p.q.push m).outQ.popMax = some (m, []) := by
    rw [SendQueue.push, hqueue]
    rfl
  have hsend : ({ p with q := p.q.push m } : Party).send =
      some ((p.q.number false m).1, { p with q := (p.q.number false m).2 }) := by
    rw [send, SendQueue.transmit, SendQueue.getNextOutgoing, hpop, ← hqueue]
    rfl
  exact Relation.ReflTransGen.tail (Relation.ReflTransGen.single (.queues p m)) (.sends _ hsend)

end Party

namespace Session

variable {s s' : Session}

theorem reflGen_setParty (s : Session) (b c : Bool) {p : Party}
    (h : Relation.ReflGen Party.Act (s.party b) p) :
    Relation.ReflGen Party.Act (s.party c) ((s.setParty b p).party c) := by
  by_cases hc : c = b
  · subst hc
    rw [setParty_party_self]
    exact h
  · rw [setParty_party_of_ne s p hc]

theorem acts_react {b : Bool} {x : Pos} {p : Packet} (h : s.react b x p = some s') (c : Bool) :
    Relation.ReflGen Party.Act (s.party c) (s'.party c) := by
  rw [react.eq_def] at h
  split at h
  · obtain rfl := Option.some_inj.mp h
    exact .refl
  · obtain rfl := Option.some_inj.mp h
    exact .refl
  · obtain rfl := Option.some_inj.mp h
    exact s.reflGen_setParty b c (.single (.resumes _ _))
  · obtain rfl := Option.some_inj.mp h
    exact s.reflGen_setParty b c (.single (.resumes _ _))
  · obtain rfl := Option.some_inj.mp h
    exact s.reflGen_setParty b c (.single (.receives _ _))
  · obtain rfl := Option.some_inj.mp h
    exact s.reflGen_setParty b c (.single (.acked _ _))
  · cases h

/-- A step of a session is at most one act of either side. -/
theorem acts_step {e : Event} (hstep : s.step e = some s') (c : Bool) :
    Relation.ReflGen Party.Act (s.party c) (s'.party c) := by
  cases e with
  | queue b m =>
    rw [step] at hstep
    split_ifs at hstep
    obtain rfl := Option.some_inj.mp hstep
    exact s.reflGen_setParty b c (.single (.queues _ m))
  | send b =>
    rw [step, Option.bind_eq_some_iff] at hstep
    obtain ⟨k, -, hstep⟩ := hstep
    rw [Option.map_eq_some_iff] at hstep
    obtain ⟨⟨m, p⟩, hsend, rfl⟩ := hstep
    exact s.reflGen_setParty b c (.single (.sends _ hsend))
  | ack b =>
    rw [step, Option.bind_eq_some_iff] at hstep
    obtain ⟨k, -, hstep⟩ := hstep
    split_ifs at hstep
    obtain rfl := Option.some_inj.mp hstep
    exact s.reflGen_setParty b c (.single (.acks _))
  | dial =>
    rw [step] at hstep
    split_ifs at hstep
    obtain rfl := Option.some_inj.mp hstep
    exact .refl
  | refuse k =>
    rw [step, Option.bind_eq_some_iff] at hstep
    -- neither side changes when a connect message is refused
    obtain ⟨rest, -, hstep⟩ := hstep
    split_ifs at hstep
    obtain rfl := Option.some_inj.mp hstep
    exact .refl
  | accept k =>
    rw [step, Option.bind_eq_some_iff] at hstep
    obtain ⟨rest, -, hstep⟩ := hstep
    split_ifs at hstep
    obtain rfl := Option.some_inj.mp hstep
    exact s.reflGen_setParty false c (.single (.begins _))
  | takeOver k =>
    rw [step, Option.bind_eq_some_iff] at hstep
    obtain ⟨rest, -, hstep⟩ := hstep
    split_ifs at hstep
    obtain rfl := Option.some_inj.mp hstep
    exact s.reflGen_setParty false c (.single (.requeues _))
  | resume =>
    rw [step] at hstep
    split at hstep
    · rw [Option.map_eq_some_iff] at hstep
      obtain ⟨rest, -, rfl⟩ := hstep
      exact .refl
    · cases hstep
  | read b =>
    rw [step, read, Option.bind_eq_some_iff] at hstep
    obtain ⟨k, -, hstep⟩ := hstep
    split at hstep
    · cases hstep
    · exact acts_react hstep c
  | fault b =>
    rw [step] at hstep
    split_ifs at hstep
    obtain rfl := Option.some_inj.mp hstep
    exact s.reflGen_setParty b c (.single (.requeues _))

end Session

namespace Conn

variable {β : Type} {K : Codec} {flags : CrcFlags} {enc : Frame → List β} {c : Conn β} {inp : Input β}

/-- What outlives the socket. -/
def party (c : Conn β) : Party :=
  { q := c.q, inSeq := c.inSeq, inSeqAcked := c.inSeqAcked, delivered := c.delivered }

variable (K flags) in
/-- What a pass of `do_process` may do to it. -/
inductive Affects (c : Conn β) (inp : Input β) : Party → Prop
  | nothing : Affects c inp c.party
  | receives (m : Message) (hs : c.state = .openMessageDispatch)
      (hm : Message.decodeMessage K flags inp.newId c.currentHeader c.currentFooter c.front c.middle c.data =
        some m) :
    Affects c inp (c.party.receive m)
  | acked (n : ℕ) (hs : c.state = .openTagAck) (hread : inp.read = .done (.seq n)) :
    Affects c inp (c.party.handleAck n)
  | resumes (n : ℕ) (hs : c.state = .connectingWaitAckSeq ∨ c.state = .acceptingWaitSeq)
      (hread : inp.read = .done (.seq n)) :
    Affects c inp (c.party.resume n)
  | begins (hs : c.state = .acceptingWaitConnectMsgAuth) (h : c.replacing = 0 ∨ c.isResetFromPeer = true) :
    Affects c inp c.party.begin
  /-- The server does not know the session. -/
  | forgets (hs : c.state = .connectingWaitConnectReplyAuth) (htag : c.connectReply.tag = Tag.resetSession) :
    Affects c inp (c.wasSessionReset inp.random).party
  /-- An accepted connection has handed its socket over. -/
  | stops (hs : c.state = .acceptingWaitConnectMsgAuth) :
    Affects c inp { c.party with q := c.q.discardOutQueue }

theorem affects_onRead {k : Chunk → Outcome β}
    (h : ∀ chunk, inp.read = .done chunk → Affects K flags c inp (k chunk).conn.party) :
    Affects K flags c inp (c.onRead inp k).conn.party := by
  rw [onRead]
  split
  · exact .nothing
  · exact .nothing
  · exact h _ ‹_›

theorem affects_dispatchMessage (hs : c.state = .openMessageDispatch) :
    Affects K flags c inp (c.dispatchMessage K flags inp).conn.party := by
  rcases dispatchMessage_cases (K := K) c inp with ⟨-, h⟩ | ⟨m, hm, hold, h⟩ | ⟨m, b, p, flow, hm, hnew, -, h⟩
  · rw [h]
    exact .nothing
  · rw [h]
    exact .nothing
  · have hreceive : c.party.receive m = { c.party with inSeq := m.getSeq, delivered := c.delivered ++ [m] } :=
      if_neg (Nat.not_le_of_lt hnew)
    have hreceives : Affects K flags c inp (c.party.receive m) := .receives m hs hm
    rw [hreceive] at hreceives
    rw [h]
    exact hreceives

theorem affects_processOpen : Affects K flags c inp (c.processOpen K flags inp).conn.party := by
  rw [processOpen]
  split <;> rename_i hs
  · -- `STATE_OPEN`
    refine affects_onRead fun chunk _ ↦ ?_
    split
    · split
      · exact .nothing
      · exact .nothing
    · exact .nothing
  · -- `STATE_OPEN_KEEPALIVE2`
    refine affects_onRead fun _ _ ↦ ?_
    rw [startWrite_eq]
    exact .nothing
  · -- `STATE_OPEN_KEEPALIVE2_ACK`
    exact affects_onRead fun _ _ ↦ .nothing
  · -- `STATE_OPEN_TAG_ACK`
    refine affects_onRead fun chunk hread ↦ ?_
    split
    · exact .acked _ hs hread
    · exact .nothing
  · -- `STATE_OPEN_MESSAGE_HEADER`
    refine affects_onRead fun chunk _ ↦ ?_
    split
    · rw [gotHeader]
      split_ifs
      · exact .nothing
      · exact .nothing
    · exact .nothing
  · -- `STATE_OPEN_MESSAGE_THROTTLE_MESSAGE`
    exact .nothing
  · -- `STATE_OPEN_MESSAGE_THROTTLE_BYTES`
    exact .nothing
  · -- `STATE_OPEN_MESSAGE_READ_FRONT`
    split_ifs
    · exact .nothing
    · refine affects_onRead fun chunk _ ↦ ?_
      split
      · exact .nothing
      · exact .nothing
  · -- `STATE_OPEN_MESSAGE_READ_MIDDLE`
    split_ifs
    · exact .nothing
    · refine affects_onRead fun chunk _ ↦ ?_
      split
      · exact .nothing
      · exact .nothing
  · -- `STATE_OPEN_MESSAGE_READ_DATA_PREPARE`
    exact .nothing
  · -- `STATE_OPEN_MESSAGE_READ_DATA`
    split_ifs
    · exact .nothing
    · refine affects_onRead fun chunk _ ↦ ?_
      split
      · exact .nothing
      · exact .nothing
  · -- `STATE_OPEN_MESSAGE_READ_FOOTER`
    refine affects_onRead fun chunk _ ↦ ?_
    split
    · rw [gotFooter]
      split_ifs
      · exact .nothing
      · exact .nothing
    · exact .nothing
  · -- `STATE_OPEN_MESSAGE_THROTTLE_DISPATCH_SIZE`
    exact .nothing
  · -- `STATE_OPEN_MESSAGE_DISPATCH`
    exact affects_dispatchMessage hs
  · exact .nothing

/-- What is about to be sent in a handshake goes out after the peer's `in_seq` has been heeded. -/
theorem Prepares.affects {d : Conn β} {frames : List Frame} {next : State}
    (h : Prepares c inp d frames next) :
    Affects K flags c inp d.party := by
  cases h with
  | banner => exact .nothing
  | addr => exact .nothing
  | connect => exact .nothing
  | seq n hs hread => exact .resumes n (Or.inl hs) hread
  | greeting => exact .nothing
  | reply => exact .nothing

theorem Heeds.affects {d : Conn β} {s : State} {g : ℕ} (hs : c.state = .connectingWaitConnectReplyAuth)
    (h : Heeds c inp d s g) : Affects K flags c inp d.party := by
  cases h with
  | badAuthorizer => exact .nothing
  | resetSession htag => exact .forgets hs htag
  | retryGlobal => exact .nothing
  | retrySession => exact .nothing
  | wait => exact .nothing
  | seq => exact .nothing
  | ready => exact .nothing

theorem affects_openSession {p : Policy} {m : MsgConnect} {auth : Bytes} {protoVersion gseq : ℕ}
    (hs : c.state = .acceptingWaitConnectMsgAuth) :
    Affects K flags c inp (({ c with policy := p } : Conn β).openSession m auth protoVersion gseq).conn.party := by
  -- a session that is taken up goes on with its numbers, any other begins anew
  by_cases hresume : c.replacing ≠ 0 ∧ (!c.isResetFromPeer) = true
  · simp only [openSession, if_pos hresume]
    exact .nothing
  · simp only [openSession, if_neg hresume]
    refine .begins hs ?_
    rcases not_and_or.mp hresume with hzero | hreset
    · exact Or.inl (not_not.mp hzero)
    · exact Or.inr (by simpa using hreset)

theorem Move.affects {o : Outcome β} (h : Move enc c inp o) : Affects K flags c inp o.conn.party := by
  cases h with
  | waits => exact .nothing
  | flushes => exact .nothing
  | aborts => exact .nothing
  | fails => exact .nothing
  | dials fd hs hserver hsd =>
    simp only [dial, hserver, hsd]
    exact .nothing
  | failsDial hs hserver hsd =>
    simp only [dial, hserver, hsd]
    exact .nothing
  | sends d frames next k evWrite s a hprep => exact hprep.affects
  | failsSend d frames next hprep => exact hprep.affects
  | hears => exact .nothing
  | heeds d s g hs hheeds => exact (hheeds.affects hs : Affects K flags c inp d.party)
  | connected hs hseq =>
    rw [connectDone, if_pos hseq]
    exact .nothing
  | identified => exact .nothing
  | asked => exact .nothing
  | refuses => exact .nothing
  | failsReply => exact .nothing
  | handsOver p e reset fromPeer hs =>
    -- the socket goes to the registered connection, and this one is stopped
    rw [stop, if_neg (by rw [hs]; decide)]
    exact .stops hs
  | opens p hs => exact affects_openSession hs
  | notifies => exact .nothing
  | gotSeq n hs hread => exact .resumes n (Or.inr hs) hread
  | accepted => exact .nothing

/-- **A pass of `do_process`** does one of seven things to what outlives the socket, for every
connection and whatever it reads. -/
theorem affects_pass (K : Codec) (flags : CrcFlags) (enc : Frame → List β) (c : Conn β) (inp : Input β) :
    Affects K flags c inp (c.pass K flags enc inp).conn.party := by
  rcases pass_cases K flags enc c inp with ⟨-, h⟩ | h | ⟨-, h⟩ | ⟨o, hmove, -, -, h | ⟨-, h⟩⟩
  · rw [h]
    exact affects_processOpen
  · rw [h]
    exact .nothing
  · rw [h]
    exact .nothing
  · rw [h]
    exact hmove.affects
  · rw [h]
    exact hmove.affects

/-! ## Giving up

A connection gives up on its socket in `fault`, in `_stop` and in `do_replace`. What was sent is put
back in the first and the last of these, and nothing is left after the second. -/

/-- What giving up on the socket does to it. -/
inductive LetsGo (c : Conn β) : Party → Prop
  | stays : LetsGo c c.party
  | requeues : LetsGo c c.party.requeue
  /-- `do_replace`, if a reset was handed over with the socket. -/
  | resets (random : ℕ) (hreset : c.replacingResetSession = true) : LetsGo c (c.wasSessionReset random).party
  /-- The reply of `do_replace` cannot be sent, and the channel is lossy. -/
  | drops (p : Party) (hlossy : c.policy.lossy = true) (h : LetsGo c p) :
    LetsGo c { p with q := p.q.discardOutQueue }

theorem party_faultRetry (c : Conn β) : c.faultRetry.party = c.party.requeue := by
  simp only [faultRetry]
  split_ifs
  · rfl
  · rfl
  · rfl
  · rfl

theorem party_stop {c : Conn β} (hs : c.state ≠ .closed) :
    c.stop.party = { c.party with q := c.q.discardOutQueue } := by
  rw [stop, if_neg hs]
  rfl

theorem sent_requeueSent (q : SendQueue) : q.requeueSent.sent = [] := by
  rw [SendQueue.requeueSent]
  split_ifs with hsent
  · exact hsent
  · rfl

theorem requeue_of_sent {p : Party} (hsent : p.q.sent = []) : p.requeue = p := by
  rw [Party.requeue, SendQueue.requeueSent, if_pos hsent]

theorem letsGo_takeOver (c : Conn β) (random : ℕ) :
    c.LetsGo (c.takeOver random).party ∧ (c.takeOver random).q.sent = [] := by
  by_cases hreset : c.replacingResetSession = true
  · have hparty : (c.takeOver random).party = (c.wasSessionReset random).party.requeue := by
      rw [takeOver, if_pos hreset]
      rfl
    -- the reset has left nothing to requeue
    have hsame : (c.wasSessionReset random).party.requeue = (c.wasSessionReset random).party :=
      requeue_of_sent rfl
    refine ⟨hparty.trans hsame ▸ .resets random hreset, ?_⟩
    rw [takeOver]
    exact sent_requeueSent _
  · have hparty : (c.takeOver random).party = c.party.requeue := by
      rw [takeOver, if_neg hreset]
      rfl
    refine ⟨hparty ▸ .requeues, ?_⟩
    rw [takeOver]
    exact sent_requeueSent _

theorem letsGo_fault {c : Conn β} (hs : c.state ≠ .closed) : c.fault.party = c.party.requeue ∨
    c.policy.lossy = true ∧ c.fault.party = { c.party with q := c.q.discardOutQueue } := by
  rw [fault, if_neg hs]
  split_ifs with hstops
  · rw [faultStops, Bool.and_eq_true] at hstops
    exact Or.inr ⟨hstops.1, party_stop hs⟩
  · exact Or.inl c.party_faultRetry

theorem letsGo_doReplace (enc : Frame → List β) (c : Conn β) (r : ReplaceInput) :
    c.LetsGo (c.doReplace enc r).conn.party := by
  obtain ⟨htake, hsent⟩ := c.letsGo_takeOver r.random
  obtain ⟨-, hpolicy, hstate⟩ := c.takeOver_frame r.random
  obtain ⟨reply, -, -, ⟨out, heq⟩ | ⟨k, b, heq⟩⟩ := c.doReplace_cases enc r
  · rw [heq]
    -- the reply cannot be sent
    generalize hd : ({ c.takeOver r.random with outcomingBl := out, replacing := 0 } : Conn β) = d
    have hparty : d.party = (c.takeOver r.random).party := by
      rw [← hd]
      rfl
    have hd' : d.state ≠ .closed ∧ d.policy = c.policy ∧ d.q.sent = [] := by
      rw [← hd]
      exact ⟨fun hclosed ↦ absurd (hstate.symm.trans hclosed) (by decide), hpolicy, hsent⟩
    have hclear : d.fault.clearAuthorizerReply.party = d.fault.party := rfl
    rw [← hparty] at htake
    rw [hclear]
    rcases letsGo_fault hd'.1 with hfault | ⟨hlossy, hfault⟩
    · rw [hfault, requeue_of_sent hd'.2.2]
      exact htake
    · rw [hfault]
      exact .drops _ (hd'.2.1 ▸ hlossy) htake
  · -- it is sent, or kept for `handle_write`
    rw [heq]
    exact htake

theorem Affects.acts {c : Conn β} {inp : Input β} {p : Party} (h : Affects K flags c inp p) :
    Relation.ReflTransGen Party.Act c.party p ∨ p.Dropped := by
  cases h with
  | nothing => exact Or.inl .refl
  | receives m => exact Or.inl (.single (.receives _ m))
  | acked n => exact Or.inl (.single (.acked _ n))
  | resumes n => exact Or.inl (.single (.resumes _ n))
  | begins => exact Or.inl (.single (.begins _))
  | forgets => exact Or.inr ⟨rfl, rfl⟩
  | stops => exact Or.inr ⟨rfl, rfl⟩

theorem LetsGo.acts {c : Conn β} {p : Party} (h : c.LetsGo p) :
    Relation.ReflTransGen Party.Act c.party p ∨ p.Dropped := by
  cases h with
  | stays => exact Or.inl .refl
  | requeues => exact Or.inl (.single (.requeues _))
  | resets => exact Or.inr ⟨rfl, rfl⟩
  | drops => exact Or.inr ⟨rfl, rfl⟩

theorem LetsGo.dropped {c : Conn β} {p : Party} (hc : c.party.Dropped) (h : c.LetsGo p) : p.Dropped := by
  cases h with
  | stays => exact hc
  | requeues =>
    rw [requeue_of_sent hc.1]
    exact hc
  | resets => exact ⟨rfl, rfl⟩
  | drops => exact ⟨rfl, rfl⟩

end Conn

/-! ## Every step

A step may be several things after each other, a write and then a fault, or a pass whose connection
is replaced at its end. `Deed` has the combinations that occur. -/

namespace Node

variable {β : Type} {enc : Frame → List β} {K : Codec} {flags : CrcFlags}

open Conn

@[simp] theorem party_finish (c : Conn β) (win : Option (Window β)) (k : Option Caller) :
    (finish c win k).conn.party = c.party := by
  have hkick (d : Conn β) : d.kickWrite.party = d.party := by
    obtain ⟨b, hb⟩ := d.kickWrite_eq
    rw [hb]
    rfl
  rcases k with _ | _ | _
  · rfl
  · exact hkick c
  · exact hkick { c with sending := false }

@[simp] theorem party_again (c : Conn β) (win : Option (Window β)) (prev : State) (k : Caller) :
    (again c win prev k).conn.party = c.party := by
  rw [again]
  split_ifs
  · rfl
  · exact party_finish c win k

@[simp] theorem party_setAction (c : Conn β) : c.setAction.party = c.party := by
  rw [setAction_eq]
  rfl

@[simp] theorem party_startWrite (c : Conn β) : c.startWrite.party = c.party := by
  rw [startWrite_eq]
  rfl

/-- What `handle_write` does to it. -/
inductive Writes (c : Conn β) : Party → Prop
  | nothing : Writes c c.party
  | sends (m : Message) (q : SendQueue) (hnext : c.q.getNextOutgoing = some (m, q)) (hrun : c.stopping = false) :
    Writes c { c.party with q := (q.number c.policy.lossy m).2 }
  | acks (hdue : c.inSeqAcked < c.inSeq) : Writes c { c.party with inSeqAcked := c.inSeq }

theorem writes_writeFlush (c : Conn β) (gather : ℕ) : Writes c (writeFlush enc c gather).conn.party := by
  rw [writeFlush]
  split_ifs with hdue
  · exact .acks hdue
  · have hdone : (writeDone c.setAction).conn.party = c.setAction.party :=
      party_finish { c.setAction with sending := false } none (some .process)
    rw [hdone, party_setAction]
    exact .nothing
  · exact .nothing

theorem writes_writeMessages (c : Conn β) (gather : ℕ) :
    Writes c (writeMessages enc K flags c gather).conn.party := by
  rw [writeMessages]
  split_ifs with hstopping
  · exact writes_writeFlush c gather
  · split
    · exact writes_writeFlush c gather
    · exact .sends _ _ ‹_› (by simpa using hstopping)

theorem Writes.congr {c c' : Conn β} {p : Party} (hparty : c'.party = c.party)
    (hshell : c'.shell = c.shell)
    (h : Writes c' p) : Writes c p := by
  have hq : c'.q = c.q := congrArg Party.q hparty
  cases h with
  | nothing =>
    rw [hparty]
    exact .nothing
  | sends m q hnext hrun =>
    have hpolicy : c'.shell.policy = c.shell.policy := congrArg Conn.policy hshell
    have hstopping : c'.shell.stopping = c.shell.stopping := congrArg Conn.stopping hshell
    change c'.policy = c.policy at hpolicy
    change c'.stopping = c.stopping at hstopping
    rw [hparty, hpolicy]
    exact .sends m q (hq ▸ hnext) (hstopping ▸ hrun)
  | acks hdue =>
    have hinSeq : c'.inSeq = c.inSeq := congrArg Party.inSeq hparty
    have hacked : c'.inSeqAcked = c.inSeqAcked := congrArg Party.inSeqAcked hparty
    rw [hparty, hinSeq]
    exact .acks (hinSeq ▸ hacked ▸ hdue)

@[simp] theorem party_writeDone (c : Conn β) : (writeDone c).conn.party = c.party :=
  party_finish { c with sending := false } none (some .process)

@[simp] theorem party_finishSend (c : Conn β) (loc : Loc) (error : Bool) :
    (finishSend c loc error).conn.party = c.party := by
  simp only [finishSend]
  split_ifs
  · exact party_startWrite _
  · rfl

theorem party_sendKeepaliveOrAck (enc : Frame → List β) (c : Conn β) (f : Frame) :
    (c.sendKeepaliveOrAck enc f).party = c.party := by
  rw [sendKeepaliveOrAck, party_setAction]
  rfl

@[simp] theorem party_sendKeepalive (enc : Frame → List β) (c : Conn β) :
    (c.sendKeepalive enc).party = c.party := by
  rw [sendKeepalive]
  split_ifs
  · exact party_sendKeepaliveOrAck enc c _
  · rfl

@[simp] theorem party_sendKeepaliveAck (enc : Frame → List β) (c : Conn β) :
    (c.sendKeepaliveAck enc).party = c.party := by
  rw [sendKeepaliveAck]
  split_ifs
  · exact party_sendKeepaliveOrAck enc c _
  · rfl

theorem writes_handleWrite (c : Conn β) (win : Option (Window β)) (gather : ℕ) :
    Writes c (handleWrite enc K flags c win gather).conn.party := by
  simp only [handleWrite]
  split_ifs
  · exact .nothing
  · refine (writes_writeMessages _ gather).congr ?_ ?_
    · rw [party_sendKeepaliveAck, party_sendKeepalive]
      rfl
    · rw [shell_sendKeepaliveAck, shell_sendKeepalive]
      rfl
  · rw [party_setAction]
    exact .nothing
  · rw [party_writeDone, party_setAction]
    exact .nothing
  · exact .nothing
  · exact .nothing

theorem writes_afterWrite (c : Conn β) (pc : WritePc) (left gather : ℕ) (r : ReplaceInput) :
    Writes c (afterWrite enc K flags c pc (some left) gather r).node.conn.party := by
  have hdone : Writes c (writeDone c).conn.party := by
    rw [party_writeDone]
    exact .nothing
  have hother : Writes c (if c.state = .waitSend then ({ conn := c, loc := .process .nested } : Node β)
      else writeDone c).conn.party := by
    split_ifs
    · exact .nothing
    · exact hdone
  rcases left with _ | left
  · cases pc with
    | message => exact writes_writeMessages c gather
    | flush => exact hdone
    | other => exact hother
  · cases pc with
    | message => exact writes_writeFlush c gather
    | flush => exact hdone
    | other => exact hother

variable (enc K flags) in
/-- What a step does to what outlives the socket. -/
inductive Deed (n : Node β) : Event β → Party → Prop
  | nothing (e : Event β) : Deed n e n.conn.party
  | queues (m concurrent gather) (hs : n.conn.state ≠ .closed) (hrun : n.conn.stopping = false) :
    Deed n (.sendMessage m concurrent gather) { n.conn.party with q := n.conn.q.push m }
  /-- `send_message` sends in the calling thread: no other message waits. -/
  | sends (m concurrent gather) (hqueue : n.conn.q.outQ = []) (hopen : n.conn.state.isOpen = true)
      (hrun : n.conn.stopping = false) :
    Deed n (.sendMessage m concurrent gather)
      { n.conn.party with q := (n.conn.q.number n.conn.policy.lossy m).2 }
  | handlesWrite (gather) (p : Party) (h : Writes n.conn p) : Deed n (.handleWrite gather) p
  /-- `handle_write` goes on after a `_try_send`. -/
  | writesOn (gather r w) (p : Party) (hwin : n.win = some w) (howner : w.owner = .event)
      (herror : w.error = false) (h : Writes n.conn p) :
    Deed n (.relock gather r) p
  | passes (inp k) (p : Party) (hloc : n.loc = .process k) (h : Affects K flags n.conn inp p) :
    Deed n (.pass inp) p
  | givesUp (e c close) (p : Party) (hup : GivesUp enc K flags n e close c) (h : c.LetsGo p) : Deed n e p
  | replaces (r) (p : Party) (hidle : n.loc = .idle) (hrepl : n.conn.replacing = 1)
      (h : ({ n.conn with evReplace := false } : Conn β).LetsGo p) :
    Deed n (.handleReplace r) p
  | stops (e) (he : e = .cStop ∨ e = .leave ∨ e = .markDisposable) (hs : n.conn.state ≠ .closed) :
    Deed n e { n.conn.party with q := n.conn.q.discardOutQueue }

theorem letsGo_nodeFault (c : Conn β) (win : Option (Window β)) (k : Option Caller) :
    c.LetsGo (fault c win k).node.conn.party := by
  rw [fault]
  split_ifs
  · rw [party_finish]
    exact .stays
  · exact .stays
  · rw [party_finish, party_faultRetry]
    exact .requeues

theorem letsGo_afterWait (c : Conn β) (win : Option (Window β)) (k : Caller) (close : Bool)
    (prev : State)
    (r : ReplaceInput) : c.LetsGo (afterWait enc c win k close prev r).node.conn.party := by
  rw [afterWait]
  split_ifs
  · dsimp only
    rw [party_again]
    exact letsGo_doReplace enc c r
  · exact .stays
  · exact letsGo_nodeFault c win (some k)

theorem letsGo_writeFail (c : Conn β) (r : ReplaceInput) :
    ({ c with sending := false } : Conn β).LetsGo (writeFail enc c r).node.conn.party := by
  simp only [writeFail]
  split_ifs
  · exact letsGo_doReplace enc _ r
  · exact letsGo_nodeFault _ none none

theorem deed_sendMessage (n : Node β) (m : Message) (concurrent : Bool) (gather : ℕ) :
    Deed enc K flags n (.sendMessage m concurrent gather)
      (sendMessage enc K flags n m concurrent gather).conn.party := by
  simp only [sendMessage]
  split_ifs with hstopping hdirect hclosed
  · exact .nothing _
  · simp only [sendsDirectly, isQueued, Bool.and_eq_true, Bool.not_eq_true', Bool.or_eq_false_iff] at hdirect
    exact .sends m _ _ (by simpa using hdirect.1.1.1.1.1) hdirect.1.1.2 (by simpa using hstopping)
  · exact .nothing _
  · exact .queues m _ _ hclosed (by simpa using hstopping)
  · exact .queues m _ _ hclosed (by simpa using hstopping)
  · dsimp only
    rw [party_startWrite]
    exact .queues m _ _ hclosed (by simpa using hstopping)

theorem deed_relock {n : Node β} {w : Window β} {gather : ℕ} {r : ReplaceInput} (hwin : n.win = some w) :
    Deed enc K flags n (.relock gather r) (relock enc K flags { n with win := none } w gather r).node.conn.party := by
  have hreturn {c : Conn β} {left : ℕ} (hparty : c.party = n.conn.party) (hshell : c.shell = n.conn.shell)
      (herror : w.error = false) :
      Deed enc K flags n (.relock gather r)
        (returnTrySend enc K flags c w.owner n.loc (some left) gather r).node.conn.party := by
    rw [returnTrySend.eq_def]
    split
    · dsimp only
      rw [party_finishSend, hparty]
      exact .nothing _
    · rename_i pc howner _
      exact .writesOn gather r w _ hwin howner herror ((writes_afterWrite c pc left gather r).congr hparty hshell)
    · dsimp only
      rw [hparty]
      exact .nothing _
  have hsplice {c : Conn β} {sent : ℕ} (h : n.conn.splice sent = some c) : c.party = n.conn.party := by
    rw [splice] at h
    split_ifs at h
    · rw [Option.some_inj.mp h]
    · rw [← Option.some_inj.mp h]
      rfl
  simp only [relock]
  split_ifs with herror
  · rw [returnTrySend.eq_def]
    split
    · dsimp only
      rw [party_finishSend]
      exact .nothing _
    · rename_i howner hloc
      exact .givesUp _ _ _ _ (.write gather r w _ hwin herror howner hloc) (letsGo_writeFail _ r)
    · exact .nothing _
  · split
    · exact .nothing _
    · rename_i c h
      split_ifs
      · dsimp only [openWindow]
        rw [hsplice h]
        exact .nothing _
      · refine hreturn ?_ ((shell_setAction c).trans (shell_splice h)) (by simpa using herror)
        rw [party_setAction, hsplice h]

theorem deed_processPass {n : Node β} {k : Caller} {inp : Input β} (hloc : n.loc = .process k) :
    Deed enc K flags n (.pass inp) (processPass enc K flags n k inp).node.conn.party := by
  have haffects := affects_pass K flags enc n.conn inp
  have hwait (close : Bool)
      (hup : GivesUp enc K flags n (.pass inp) close (n.conn.pass K flags enc inp).conn) :
      Deed enc K flags n (.pass inp)
        (waitSending enc n (n.conn.pass K flags enc inp).conn k close inp.replace).node.conn.party := by
    rw [waitSending]
    split_ifs
    · exact .passes inp k _ hloc haffects
    · exact .givesUp _ _ _ _ hup (letsGo_afterWait ..)
  simp only [processPass]
  split <;> rename_i hflow
  · dsimp only
    rw [party_again]
    exact .passes inp k _ hloc haffects
  · dsimp only
    rw [party_finish]
    exact .passes inp k _ hloc haffects
  · exact .nothing _
  · exact hwait false (.pass inp k hloc hflow)
  · exact hwait true (.passClose inp k hloc hflow)

theorem deed_stop (n : Node β) {e : Event β} (he : e = .cStop ∨ e = .leave ∨ e = .markDisposable) :
    Deed enc K flags n e n.conn.stop.party := by
  by_cases hs : n.conn.state = .closed
  · rw [stop, if_pos hs]
    exact .nothing _
  · rw [party_stop hs]
    exact .stops e he hs

/-- **What a step does to what outlives the socket**, whichever thread takes it: it is one of the
deeds. -/
theorem deed_next {n n' : Node β} {e : Event β} (hnext : n.next enc K flags e = some n') :
    Deed enc K flags n e n'.conn.party := by
  rw [next, Option.map_eq_some_iff] at hnext
  obtain ⟨res, hstep, rfl⟩ := hnext
  cases (Step.of_step hstep).2 with
  | sendMessage m concurrent gather => exact deed_sendMessage n m concurrent gather
  | sendKeepaliveClosed => exact .nothing _
  | sendKeepalive =>
    dsimp only
    rw [party_startWrite]
    exact .nothing _
  | sendmsg => exact .nothing _
  | sendmsgError => exact .nothing _
  | relock gather r w hwin => exact deed_relock hwin
  | setStopping => exact .nothing _
  | markDisposable =>
    simp only [markDisposable]
    split_ifs with hs
    · have hopen : n.conn.state ≠ .closed := fun h ↦ absurd (hs.symm.trans h) (by decide)
      have hparty := party_stop (c := { n.conn with policy := { n.conn.policy with lossy := true } }) hopen
      rw [hparty]
      exact .stops _ (Or.inr (Or.inr rfl)) hopen
    · exact .nothing _
  | cStop => exact deed_stop n (Or.inl rfl)
  | handOver => exact .nothing _
  | handleReplace r hidle hev =>
    simp only [handleReplace]
    split_ifs with hrepl
    · exact .replaces r _ hidle hrepl (letsGo_doReplace enc _ r)
    · exact .nothing _
  | timer => exact .nothing _
  | readable => exact .nothing _
  | pass inp k hloc => exact deed_processPass hloc
  | wake r k close prev hloc => exact .givesUp _ _ _ _ (.wake r k close prev hloc) (letsGo_afterWait ..)
  | leave =>
    dsimp only
    rw [party_finish]
    exact deed_stop n (Or.inr (Or.inl rfl))
  | handleWrite gather => exact .handlesWrite gather _ (writes_handleWrite n.conn n.win gather)

/-! ## The acts of a session

What is left is to translate: the acts of a party are those that `Session.step` allows, on whatever
socket. -/

theorem Writes.acts {c : Conn β} {p : Party} (hlossy : c.policy.lossy = false) (h : Writes c p) :
    Relation.ReflTransGen Party.Act c.party p := by
  cases h with
  | nothing => exact .refl
  | sends m q hnext =>
    refine .single (.sends _ (m := (q.number false m).1) ?_)
    rw [Party.send, SendQueue.transmit, show c.party.q.getNextOutgoing = some (m, q) from hnext, hlossy]
    rfl
  | acks => exact .single (.acks _)

/-- A connection gives up with what a pass has left of it. -/
theorem GivesUp.acts {n : Node β} {e : Event β} {close : Bool} {c : Conn β}
    (h : GivesUp enc K flags n e close c) :
    Relation.ReflTransGen Party.Act n.conn.party c.party ∨ c.party.Dropped := by
  cases h with
  | pass inp => exact (affects_pass K flags enc n.conn inp).acts
  | passClose inp => exact (affects_pass K flags enc n.conn inp).acts
  | wake => exact Or.inl .refl
  | write => exact Or.inl .refl

/-- **A connection object is a party of a session**: what a step of any of its threads does to what
outlives the socket is a chain of acts of the session, as long as the channel is lossless; or the
session ends, and the queues have been emptied. -/
theorem acts_next {n n' : Node β} {e : Event β} (hlossy : n.conn.policy.lossy = false)
    (hnext : n.next enc K flags e = some n') :
    Relation.ReflTransGen Party.Act n.conn.party n'.conn.party ∨ n'.conn.party.Dropped := by
  have hdeed := deed_next hnext
  generalize n'.conn.party = p at hdeed ⊢
  cases hdeed with
  | nothing => exact Or.inl .refl
  | queues m => exact Or.inl (.single (.queues _ m))
  | sends m _ _ hqueue =>
    rw [hlossy]
    exact Or.inl (Party.acts_direct (p := n.conn.party) hqueue m)
  | handlesWrite _ _ hwrites => exact Or.inl (hwrites.acts hlossy)
  | writesOn _ _ _ _ _ _ _ hwrites => exact Or.inl (hwrites.acts hlossy)
  | passes _ _ _ _ haffects => exact haffects.acts
  | givesUp _ c _ _ hup hgo =>
    rcases hup.acts with hacts | hdropped
    · exact hgo.acts.imp_left hacts.trans
    · exact Or.inr (hgo.dropped hdropped)
  | replaces _ _ _ _ hgo => exact hgo.acts
  | stops => exact Or.inr ⟨rfl, rfl⟩

/-- A message has been sent, and the socket fails. -/
def faulting : Node ℕ :=
  { conn := { state := .opened, policy := { lossy := false }, q := { sent := [({} : Message).setSeq 1], outSeq := 1 } }
    loc := .waiting .process false .opened }

theorem acts_next_faulting :
    ∃ n', faulting.next (fun _ ↦ [0]) Codec.trivial { data := true, header := true } (.wake {}) = some n' ∧
      (Relation.ReflTransGen Party.Act faulting.conn.party n'.conn.party ∨ n'.conn.party.Dropped) := by
  have hsome : (faulting.next (fun _ ↦ [0]) Codec.trivial { data := true, header := true } (.wake {})).isSome =
      true := rfl
  obtain ⟨n', hnext⟩ := Option.isSome_iff_exists.mp hsome
  exact ⟨n', hnext, acts_next rfl hnext⟩

end Node

end AsyncMessenger
