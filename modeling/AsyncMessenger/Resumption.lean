import AsyncMessenger.SendLine
import Mathlib.Logic.Function.Basic

/-!
# A session over many sockets

A lossless client and its server, over all the sockets the client dials one after the other. A
socket may be given up at any time, by either side, with packets still on the way; what has been
written before can still be read at the other end, as long as that has not given up the socket as
well.

On each socket the client asks, with a connect message, until it gets an answer that is not a retry.
The socket is served by an accepted connection until that hands it over to the registered one: at
first this is the accepted connection itself, and the answer is READY; later the registered
connection takes the socket over, lets the client ask again, and answers with its `in_seq`, to which
the client answers with its own. Which numbers the two compare before the server decides is left
open: it may refuse, and it may take over any socket at any time. What is left out is that a session
is reset, by either side, or taken for reset.

The invariant speaks of the packets that a side has still to read. In an open session they are a
stretch of the writer's line of messages, and acknowledgements. The stretch begins no later than
where the reader is, and while the writer is still at this socket, it ends where the writer is. So
no message is passed over, and what comes twice has a number that the reader has seen.
-/

namespace AsyncMessenger

/-- What a connection keeps from one socket to the next. -/
structure Party where
  q : SendQueue := {}
  inSeq : ℕ := 0
  inSeqAcked : ℕ := 0
  /-- History: the messages handed to the dispatch queue, oldest first. -/
  delivered : List Message := []

namespace Party

/-- `STATE_OPEN_MESSAGE_DISPATCH`. -/
def receive (p : Party) (m : Message) : Party :=
  if m.getSeq ≤ p.inSeq then p
  else { p with inSeq := m.getSeq, delivered := p.delivered ++ [m] }

/-- `STATE_OPEN_TAG_ACK`. -/
def handleAck (p : Party) (seq : ℕ) : Party := { p with q := p.q.handleAck seq }

/-- `requeue_sent`, in `fault` and in `do_replace`. -/
def requeue (p : Party) : Party := { p with q := p.q.requeueSent }

/-- The peer's `in_seq` has come. -/
def resume (p : Party) (seq : ℕ) : Party := { p with q := p.q.discardRequeuedUpTo seq }

/-- The `open` part of `handle_connect_msg`, for a session that begins. -/
def begin (p : Party) : Party := { p.resume 0 with inSeq := 0, inSeqAcked := 0 }

/-- `_get_next_outgoing` and `_send`. -/
def send (p : Party) : Option (Message × Party) := p.q.transmit.map fun r ↦ (r.1, { p with q := r.2 })

end Party

/-- What goes over a socket. -/
inductive Packet
  /-- A connect message. -/
  | connect
  /-- A reply after which the client asks again. -/
  | retry
  | ready
  /-- The `in_seq` of the one who sends it: behind a reply SEQ, and the answer to that. -/
  | seq (n : ℕ)
  | msg (m : Message)
  | ack (n : ℕ)

/-- Where a side is. -/
inductive Pos
  /-- Without a socket: before `_connect`, before the first connection is accepted, or after
  `fault`. -/
  | away
  /-- The client, from the connect message to `STATE_CONNECTING_READY`. -/
  | asking (k : ℕ)
  /-- The server, after `do_replace`: `STATE_ACCEPTING_WAIT_CONNECT_MSG`. -/
  | asked (k : ℕ)
  /-- The server: `STATE_ACCEPTING_WAIT_SEQ`. -/
  | resuming (k : ℕ)
  | opened (k : ℕ)
  deriving DecidableEq

namespace Pos

/-- The socket. -/
def sock : Pos → Option ℕ
  | .away => none
  | .asking k => some k
  | .asked k => some k
  | .resuming k => some k
  | .opened k => some k

/-- The socket of an open session. -/
def openSock : Pos → Option ℕ
  | .opened k => some k
  | _ => none

end Pos

/-- The two sides, `true` for the client. -/
structure Session where
  party : Bool → Party := fun _ ↦ {}
  pos : Bool → Pos := fun _ ↦ .away
  /-- The sockets dialled so far. -/
  count : ℕ := 0
  /-- What has been written by a side to a socket and not been read. -/
  wire : Bool → ℕ → List Packet := fun _ _ ↦ []
  /-- The socket has been given to the registered connection. -/
  handed : ℕ → Bool := fun _ ↦ false
  /-- A connection of the server is registered. -/
  registered : Bool := false

namespace Session

/-- What happens. -/
inductive Event
  /-- `send_message`. -/
  | queue (b : Bool) (m : Message)
  /-- `handle_write` sends a message. -/
  | send (b : Bool)
  /-- `handle_write` sends an ACK. -/
  | ack (b : Bool)
  /-- The client connects. -/
  | dial
  /-- The server refuses a connect message, and waits for another. -/
  | refuse (k : ℕ)
  /-- The first connection is accepted. -/
  | accept (k : ℕ)
  /-- `do_replace`. -/
  | takeOver (k : ℕ)
  /-- The connection that has been replaced accepts the session. -/
  | resume
  /-- A side reads the next packet. -/
  | read (b : Bool)
  | fault (b : Bool)

def setParty (s : Session) (b : Bool) (p : Party) : Session :=
  { s with party := Function.update s.party b p }

def setPos (s : Session) (b : Bool) (x : Pos) : Session := { s with pos := Function.update s.pos b x }

def setWire (s : Session) (b : Bool) (k : ℕ) (ps : List Packet) : Session :=
  { s with wire := Function.update s.wire b (Function.update (s.wire b) k ps) }

def hand (s : Session) (k : ℕ) : Session := { s with handed := Function.update s.handed k true }

/-- Side `b` writes to socket `k`. -/
def write (s : Session) (b : Bool) (k : ℕ) (p : Packet) : Session := s.setWire b k (s.wire b k ++ [p])

/-- Side `b` reads, at its place, the next packet on the socket. -/
def react (s : Session) (b : Bool) : Pos → Packet → Option Session
  | .asking k, .retry => some (s.write b k .connect)
  | .asking k, .ready => some (s.setPos b (.opened k))
  | .asking k, .seq n =>
    some (((s.setParty b ((s.party b).resume n)).write b k (.seq (s.party b).inSeq)).setPos b (.opened k))
  | .resuming k, .seq n => some ((s.setParty b ((s.party b).resume n)).setPos b (.opened k))
  | .opened _, .msg m => some (s.setParty b ((s.party b).receive m))
  | .opened _, .ack n => some (s.setParty b ((s.party b).handleAck n))
  | _, _ => none

/-- The next packet for side `b` on its socket. -/
def read (s : Session) (b : Bool) : Option Session :=
  (s.pos b).sock.bind fun k ↦ match s.wire (!b) k with
    | [] => none
    | p :: rest => (s.setWire (!b) k rest).react b (s.pos b) p

/-- A connect message on socket `k` has come to the server; what is behind it. -/
def asks (s : Session) (k : ℕ) : Option (List Packet) :=
  match s.wire true k with
  | .connect :: rest => some rest
  | _ => none

/-- The server has read all but `rest` on socket `k`, and answers. -/
def answer (s : Session) (k : ℕ) (rest : List Packet) (p : Packet) : Session :=
  (s.setWire true k rest).write false k p

/-- One step; `none` if it is not possible. -/
def step (s : Session) : Event → Option Session
  | .queue b m =>
    if b = true ∨ s.registered = true then
      some (s.setParty b { s.party b with q := (s.party b).q.push m })
    else none
  | .send b => (s.pos b).openSock.bind fun k ↦
      (s.party b).send.map fun r ↦ (s.setParty b r.2).write b k (.msg r.1)
  | .ack b => (s.pos b).openSock.bind fun k ↦
      if (s.party b).inSeqAcked < (s.party b).inSeq then
        some ((s.setParty b { s.party b with inSeqAcked := (s.party b).inSeq }).write b k
          (.ack (s.party b).inSeq))
      else none
  | .dial =>
    if s.pos true = .away then
      some (({ s with count := s.count + 1 }.write true s.count .connect).setPos true (.asking s.count))
    else none
  | .refuse k => (s.asks k).bind fun rest ↦
      if s.handed k = false ∨ s.pos false = .asked k then
        some (s.answer k rest .retry)
      else none
  | .accept k => (s.asks k).bind fun rest ↦
      if s.handed k = false ∧ s.registered = false then
        some (({ (s.answer k rest .ready).hand k with registered := true }.setParty false
          (s.party false).begin).setPos false (.opened k))
      else none
  | .takeOver k => (s.asks k).bind fun rest ↦
      if s.handed k = false ∧ s.registered = true then
        some ((((s.answer k rest .retry).hand k).setParty false (s.party false).requeue).setPos false
          (.asked k))
      else none
  | .resume => match s.pos false with
    | .asked k => (s.asks k).map fun rest ↦
        (s.answer k rest (.seq (s.party false).inSeq)).setPos false (.resuming k)
    | _ => none
  | .read b => s.read b
  | .fault b =>
    if s.pos b = .away then none else some ((s.setParty b (s.party b).requeue).setPos b .away)

end Session

/-! ## A stretch of the line

The packets that a reader has still to read from a writer are a `Stream`: the messages from some
place of the writer's line on, in turn, with acknowledgements of no more than the reader has
received. `Flow` is about the line itself, on whatever socket: what the reader has dispatched is a
first part of it, and what the writer has released has been seen. Both only need that the other side
goes on (`Stream.mono`, `Flow.mono`), so that a step of one side leaves what is known of the other
direction alone. -/

/-- What an open session carries: messages, and acknowledgements that do not exceed what `b` has
received. -/
def Packet.Plain (bound : ℕ) : Packet → Prop
  | .msg _ => True
  | .ack n => n ≤ bound
  | _ => False

theorem Packet.Plain.mono {p : Packet} {a b : ℕ} (h : p.Plain a) (hab : a ≤ b) : p.Plain b := by
  cases p <;> first | exact h | exact Nat.le_trans h hab

/-- The messages among the packets. -/
def messages : List Packet → List Message
  | [] => []
  | .msg m :: ps => m :: messages ps
  | _ :: ps => messages ps

theorem messages_append (ps qs : List Packet) : messages (ps ++ qs) = messages ps ++ messages qs := by
  induction ps with
  | nil => rfl
  | cons p ps ih => cases p <;> simp [messages, ih]

namespace Party

variable {S S' R R' : Party} {stop : ℕ} {ps : List Packet}

/-- What only grows. -/
structure Le (p p' : Party) : Prop where
  numbered : p.q.numbered <+: p'.q.numbered
  inSeq : p.inSeq ≤ p'.inSeq

theorem Le.refl (p : Party) : Le p p := ⟨List.prefix_rfl, le_rfl⟩

/-- The packets that `R` has to read from `S`: the messages of a stretch of the line of `S` that
ends at `stop`. -/
structure Stream (S R : Party) (stop : ℕ) (ps : List Packet) : Prop where
  plain : ∀ p ∈ ps, p.Plain S.inSeq
  stop_le : stop ≤ S.q.numbered.length
  stretch : ∃ start, start ≤ R.inSeq ∧ start ≤ stop ∧
    messages ps = (S.q.numbered.take stop).drop start

theorem take_of_prefix {l l' : List Message} (h : l <+: l') {n : ℕ} (hn : n ≤ l.length) :
    l'.take n = l.take n := by
  obtain ⟨t, rfl⟩ := h
  exact List.take_append_of_le_length hn

theorem Stream.mono (h : Stream S R stop ps) (hS : Le S S') (hR : Le R R') : Stream S' R' stop ps := by
  obtain ⟨start, hstart, hle, hmsgs⟩ := h.stretch
  refine ⟨fun p hp ↦ Packet.Plain.mono (h.plain p hp) hS.inSeq, h.stop_le.trans hS.numbered.length_le,
    start, hstart.trans hR.inSeq, hle, ?_⟩
  rw [hmsgs, take_of_prefix hS.numbered h.stop_le]

theorem stream_nil (hstop : stop ≤ S.q.numbered.length) (hR : stop ≤ R.inSeq) : Stream S R stop [] := by
  refine ⟨fun _ hp ↦ absurd hp List.not_mem_nil, hstop, stop, hR, le_rfl, ?_⟩
  rw [messages, List.drop_eq_nil_of_le (List.length_take_le stop _)]

theorem Stream.snoc_ack (h : Stream S R stop ps) {n : ℕ} (hn : n ≤ S.inSeq) :
    Stream S R stop (ps ++ [.ack n]) := by
  obtain ⟨start, hstart, hle, hmsgs⟩ := h.stretch
  refine ⟨fun p hp ↦ ?_, h.stop_le, start, hstart, hle, ?_⟩
  · rcases List.mem_append.mp hp with hp | hp
    · exact h.plain p hp
    · rw [List.mem_singleton.mp hp]
      exact hn
  · rw [messages_append, hmsgs]
    exact List.append_nil _

theorem Stream.snoc_msg (h : Stream S R stop ps) {m : Message} (hm : S.q.numbered[stop]? = some m) :
    Stream S R (stop + 1) (ps ++ [.msg m]) := by
  obtain ⟨start, hstart, hle, hmsgs⟩ := h.stretch
  obtain ⟨hlt, hget⟩ := List.getElem?_eq_some_iff.mp hm
  refine ⟨fun p hp ↦ ?_, hlt, start, hstart, hle.trans (Nat.le_succ stop), ?_⟩
  · rcases List.mem_append.mp hp with hp | hp
    · exact h.plain p hp
    · rw [List.mem_singleton.mp hp]
      exact trivial
  · rw [messages_append, hmsgs, List.take_succ_eq_append_getElem hlt, hget,
      List.drop_append_of_le_length (by rw [List.length_take]; omega)]
    rfl

/-- Nothing is left to read: the reader has seen all of the stretch. -/
theorem Stream.stop_le_of_nil (h : Stream S R stop []) : stop ≤ R.inSeq := by
  obtain ⟨start, hstart, hle, hmsgs⟩ := h.stretch
  have hlen := congrArg List.length hmsgs
  have hstop := h.stop_le
  rw [messages, List.length_nil, List.length_drop, List.length_take] at hlen
  omega

theorem Stream.read_ack {n : ℕ} (h : Stream S R stop (.ack n :: ps)) :
    n ≤ S.inSeq ∧ Stream S R stop ps :=
  ⟨h.plain _ List.mem_cons_self, fun p hp ↦ h.plain p (List.mem_cons_of_mem _ hp), h.stop_le, h.stretch⟩

/-- What the receiver of a line has got, and what the sender has released. -/
structure Flow (S R : Party) : Prop where
  received : R.delivered = S.q.numbered.take R.inSeq
  inSeq_le : R.inSeq ≤ S.q.numbered.length
  trimmed : S.q.released.length ≤ R.inSeq

theorem Flow.mono (h : Flow S R) (hS : Le S S') (htrim : S'.q.released.length ≤ R.inSeq) : Flow S' R :=
  ⟨by rw [h.received, take_of_prefix hS.numbered h.inSeq_le], h.inSeq_le.trans hS.numbered.length_le, htrim⟩

/-- The receiver does something with its own queue. -/
theorem Flow.queue (h : Flow S R) (q : SendQueue) : Flow S
    { R with q } := ⟨h.received, h.inSeq_le, h.trimmed⟩

theorem requeue_spec {p : Party} (h : p.q.InLine) :
    p.requeue.q.InLine ∧ p.requeue.q.sent = [] ∧ p.requeue.q.released = p.q.released ∧ p.Le p.requeue := by
  obtain ⟨requeued, fresh, hline⟩ := h
  obtain ⟨hline', hsent, hnumbered, hreleased⟩ := hline.requeueSent
  exact ⟨⟨_, _, hline'⟩, hsent, hreleased, hnumbered.symm ▸ List.prefix_rfl, le_rfl⟩

theorem resume_spec {p : Party} (h : p.q.InLine) (hsent : p.q.sent = []) (n : ℕ) :
    (p.resume n).q.InLine ∧ (p.resume n).q.sent = [] ∧
      (p.resume n).q.released.length ≤ max p.q.released.length n ∧ p.Le (p.resume n) := by
  obtain ⟨requeued, fresh, hline⟩ := h
  obtain ⟨hline', hsent', hnumbered, hreleased⟩ := hline.discardRequeuedUpTo hsent n
  exact ⟨hline', hsent', hreleased, hnumbered.symm ▸ List.prefix_rfl, le_rfl⟩

/-- With nothing sent, `out_seq` is at the first mark. -/
theorem outSeq_of_sent {p : Party} (h : p.q.InLine) (hsent : p.q.sent = []) :
    p.q.outSeq = p.q.released.length := by
  obtain ⟨requeued, fresh, hline⟩ := h
  rw [hline.outSeq, hsent]
  rfl

/-- A writer that has sent nothing begins where the reader has been before. -/
theorem Flow.stream_nil (h : Flow S R) (hline : S.q.InLine) (hsent : S.q.sent = []) :
    Stream S R S.q.outSeq [] := by
  have houtSeq := outSeq_of_sent hline hsent
  obtain ⟨requeued, fresh, hline⟩ := hline
  exact Party.stream_nil hline.outSeq_le (houtSeq.symm ▸ h.trimmed)

/-- The next message of the stretch is an old one, or the next of the line. -/
theorem Stream.read_msg {m : Message} (h : Stream S R stop (.msg m :: ps)) (hflow : Flow S R)
    (hcounts : SendQueue.Counts 0 S.q.numbered) :
    Stream S (R.receive m) stop ps ∧ Flow S (R.receive m) ∧ Le R (R.receive m) := by
  obtain ⟨start, hstart, hle, hmsgs⟩ := h.stretch
  rw [messages] at hmsgs
  have hlt : start < stop := by
    rcases Nat.lt_or_ge start stop with hlt | hge
    · exact hlt
    · rw [List.drop_eq_nil_of_le (by rw [List.length_take]; omega)] at hmsgs
      cases hmsgs
  have hlen : start < (S.q.numbered.take stop).length := by
    rw [List.length_take]
    exact lt_min hlt (lt_of_lt_of_le hlt h.stop_le)
  rw [List.drop_eq_getElem_cons hlen, List.cons.injEq, List.getElem_take] at hmsgs
  obtain ⟨hm, hrest⟩ := hmsgs
  have hin : start < S.q.numbered.length := lt_of_lt_of_le hlt h.stop_le
  have hget : S.q.numbered[start]? = some m := List.getElem?_eq_some_iff.mpr ⟨hin, hm.symm⟩
  have hseq := SendQueue.getSeq_of_counts hcounts hget
  rw [Nat.zero_add] at hseq
  have hplain : ∀ p ∈ ps, p.Plain S.inSeq := fun p hp ↦ h.plain p (List.mem_cons_of_mem _ hp)
  rw [receive]
  by_cases hold : m.getSeq ≤ R.inSeq
  · rw [if_pos hold]
    exact ⟨⟨hplain, h.stop_le, start + 1, hseq ▸ hold, hlt, hrest⟩, hflow, Le.refl R⟩
  · -- no number has been passed over
    have heq : R.inSeq = start := by omega
    rw [if_neg hold]
    refine ⟨⟨hplain, h.stop_le, start + 1, hseq.ge, hlt, hrest⟩, ⟨?_, ?_, ?_⟩, List.prefix_rfl, by
      dsimp only; omega⟩
    · dsimp only
      rw [hseq, hflow.received, heq, List.take_succ_eq_append_getElem hin, ← hm]
    · dsimp only
      rw [hseq]
      exact hin
    · dsimp only
      rw [hseq, ← heq]
      exact hflow.trimmed.trans (Nat.le_succ _)

end Party

/-! ## The invariant

`Stage` says how far a socket has come, with one constructor for each thing that can be under way:
the client's question, a retry, the server's `in_seq`, READY, the `in_seq` of the client, and the
frames of an open session. `Expects` is the part of it that a reader sees, and survives when the
other side has left. -/

/-- What a reader at position `x` can find on its socket `k`. -/
inductive Expects (S R : Party) (k : ℕ) : Pos → List Packet → Prop
  | nothing {x : Pos} (hx : x ≠ .opened k) : Expects S R k x []
  | retry : Expects S R k (.asking k) [.retry]
  | seq {n : ℕ} (hn : n ≤ S.inSeq) : Expects S R k (.asking k) [.seq n]
  | ready {stop : ℕ} {ps : List Packet} (h : S.Stream R stop ps) : Expects S R k (.asking k) (.ready :: ps)
  | connect : Expects S R k (.asked k) [.connect]
  | resume {n stop : ℕ} {ps : List Packet} (hn : n ≤ S.inSeq) (h : S.Stream R stop ps) :
    Expects S R k (.resuming k) (.seq n :: ps)
  | stream {stop : ℕ} {ps : List Packet} (h : S.Stream R stop ps) : Expects S R k (.opened k) ps

/-- How far the two sides have come on the socket `k` of the client, with what each has written: the
server has it too, or has not been given it. -/
inductive Stage (C S : Party) (k : ℕ) : Pos → Pos → List Packet → List Packet → Prop
  | request {y : Pos} (hy : y = .asked k ∨ y.sock ≠ some k) : Stage C S k (.asking k) y [.connect] []
  | answer {y : Pos} (hy : y = .asked k ∨ y.sock ≠ some k) : Stage C S k (.asking k) y [] [.retry]
  | offered {n : ℕ} (hn : n ≤ S.inSeq) : Stage C S k (.asking k) (.resuming k) [] [.seq n]
  | readied {ps : List Packet} (h : S.Stream C S.q.outSeq ps) :
    Stage C S k (.asking k) (.opened k) [] (.ready :: ps)
  | returned {n : ℕ} {ps : List Packet} (hn : n ≤ C.inSeq) (h : C.Stream S C.q.outSeq ps) :
    Stage C S k (.opened k) (.resuming k) (.seq n :: ps) []
  | both {cs ss : List Packet} (hc : C.Stream S C.q.outSeq cs) (hs : S.Stream C S.q.outSeq ss) :
    Stage C S k (.opened k) (.opened k) cs ss

theorem Expects.mono {S S' R R' : Party} {k : ℕ} {x : Pos} {ps : List Packet} (h : Expects S R k x ps)
    (hS : S.Le S') (hR : R.Le R') : Expects S' R' k x ps := by
  cases h with
  | nothing hx => exact .nothing hx
  | retry => exact .retry
  | seq hn => exact .seq (hn.trans hS.inSeq)
  | ready h => exact .ready (h.mono hS hR)
  | connect => exact .connect
  | resume hn h => exact .resume (hn.trans hS.inSeq) (h.mono hS hR)
  | stream h => exact .stream (h.mono hS hR)

theorem Stage.mono {C C' S S' : Party} {k : ℕ} {x y : Pos} {cs ss : List Packet}
    (h : Stage C S k x y cs ss)
    (hC : C.Le C') (hS : S.Le S') (hCout : x = .opened k → C'.q.outSeq = C.q.outSeq)
    (hSout : y = .opened k → S'.q.outSeq = S.q.outSeq) : Stage C' S' k x y cs ss := by
  cases h with
  | request hy => exact .request hy
  | answer hy => exact .answer hy
  | offered hn => exact .offered (hn.trans hS.inSeq)
  | readied h => exact .readied (hSout rfl ▸ h.mono hS hC)
  | returned hn h => exact .returned (hn.trans hC.inSeq) (hCout rfl ▸ h.mono hC hS)
  | both hc hs => exact .both (hCout rfl ▸ hc.mono hC hS) (hSout rfl ▸ hs.mono hS hC)

/-- What the client can find. -/
theorem Stage.client {C S : Party} {k : ℕ} {x y : Pos} {cs ss : List Packet}
    (h : Stage C S k x y cs ss) :
    Expects S C k x ss := by
  cases h with
  | request => exact .nothing nofun
  | answer => exact .retry
  | offered hn => exact .seq hn
  | readied h => exact .ready h
  | returned => exact .stream (Party.stream_nil (Nat.zero_le _) (Nat.zero_le _))
  | both _ hs => exact .stream hs

/-- What the server can find, if it has the socket. -/
theorem Stage.server {C S : Party} {k : ℕ} {x y : Pos} {cs ss : List Packet} (h : Stage C S k x y cs ss)
    (hk : y.sock = some k) : Expects C S k y cs := by
  cases h with
  | request hy =>
    -- it has the socket, so the connect message is for it to read
    obtain rfl := hy.resolve_right fun hne ↦ hne hk
    exact .connect
  | answer hy =>
    obtain rfl := hy.resolve_right fun hne ↦ hne hk
    exact .nothing nofun
  | offered => exact .nothing nofun
  | readied => exact .stream (Party.stream_nil (Nat.zero_le _) (Nat.zero_le _))
  | returned hn h => exact .resume hn h
  | both hc _ => exact .stream hc

/-- While the server has not been given the socket, its own place does not matter. -/
theorem Stage.elsewhere {C S : Party} {k : ℕ} {x y y' : Pos} {cs ss : List Packet}
    (h : Stage C S k x y cs ss)
    (hy : y.sock ≠ some k) (hy' : y'.sock ≠ some k) : Stage C S k x y' cs ss := by
  cases h with
  | request => exact .request (Or.inr hy')
  | answer => exact .answer (Or.inr hy')
  | offered => exact absurd rfl hy
  | readied => exact absurd rfl hy
  | returned => exact absurd rfl hy
  | both => exact absurd rfl hy

/-- In an open session of the client, the server has the socket. -/
theorem Stage.sock_of_opened {C S : Party} {k : ℕ} {y : Pos} {cs ss : List Packet}
    (h : Stage C S k (.opened k) y cs ss) : y.sock = some k := by
  cases h <;> rfl

/-- A connect message that has come to the server is all that is on the way. -/
theorem Stage.of_connect {C S : Party} {k : ℕ} {x y : Pos} {cs ss : List Packet}
    (h : Stage C S k x y (.connect :: cs) ss) (hy : y = .asked k ∨ y.sock ≠ some k) : x = .asking k ∧ ss = [] := by
  cases h with
  | request => exact ⟨rfl, rfl⟩
  | both => exact absurd rfl (hy.resolve_left nofun)

/-- The client writes a packet in an open session. -/
theorem Stage.clientWrites {C C' S : Party} {k : ℕ} {y : Pos} {cs ss : List Packet} {p : Packet}
    (h : Stage C S k (.opened k) y cs ss) (hC : C.Le C')
    (hp : ∀ ps, C.Stream S C.q.outSeq ps → C'.Stream S C'.q.outSeq (ps ++ [p])) :
    Stage C' S k (.opened k) y (cs ++ [p]) ss := by
  cases h with
  | returned hn h => exact .returned (hn.trans hC.inSeq) (hp _ h)
  | both hc hs => exact .both (hp _ hc) (hs.mono (Party.Le.refl S) hC)

/-- The client reads a packet in an open session. -/
theorem Stage.clientReads {C C' S : Party} {k : ℕ} {y : Pos} {cs ss : List Packet} {p : Packet}
    (h : Stage C S k (.opened k) y cs (p :: ss)) (hC : C.Le C') (hout : C'.q.outSeq = C.q.outSeq)
    (hp : ∀ stop, S.Stream C stop (p :: ss) → S.Stream C' stop ss) : Stage C' S k (.opened k) y cs ss := by
  cases h with
  | both hc hs => exact .both (hout ▸ hc.mono hC (.refl S)) (hp _ hs)

theorem Stage.serverReads {C S S' : Party} {k : ℕ} {x : Pos} {cs ss : List Packet} {p : Packet}
    (h : Stage C S k x (.opened k) (p :: cs) ss) (hS : S.Le S') (hout : S'.q.outSeq = S.q.outSeq)
    (hp : ∀ stop, C.Stream S stop (p :: cs) → C.Stream S' stop cs) : Stage C S' k x (.opened k) cs ss := by
  cases h with
  | request hy => exact absurd rfl (hy.resolve_left nofun)
  | both hc hs => exact .both (hp _ hc) (hout ▸ hs.mono hS (.refl C))

theorem Stage.serverWrites {C S S' : Party} {k : ℕ} {x : Pos} {cs ss : List Packet} {p : Packet}
    (h : Stage C S k x (.opened k) cs ss) (hS : S.Le S')
    (hp : ∀ ps, S.Stream C S.q.outSeq ps → S'.Stream C S'.q.outSeq (ps ++ [p])) :
    Stage C S' k x (.opened k) cs (ss ++ [p]) := by
  cases h with
  | request hy => exact absurd rfl (hy.resolve_left nofun)
  | answer hy => exact absurd rfl (hy.resolve_left nofun)
  | readied h => exact .readied (hp _ h)
  | both hc hs => exact .both (hc.mono (Party.Le.refl C) hS) (hp _ hs)

/-! ## The handshake on one socket

What a packet of the handshake makes of the stage. An `in_seq` that is on its way is no more than
its sender has received, so that what the other side drops because of it has arrived. -/

section Handshake

variable {C C' S S' : Party} {k n : ℕ} {x y : Pos} {cs ss : List Packet}

/-- The client asks again. -/
theorem Stage.retried (h : Stage C S k (.asking k) y cs (.retry :: ss)) :
    cs = [] ∧ Stage C S k (.asking k) y [.connect] ss := by
  cases h with
  | answer hy => exact ⟨rfl, .request hy⟩

theorem Stage.ready (h : Stage C S k (.asking k) y cs (.ready :: ss)) (hC : C.Stream S C.q.outSeq []) :
    Stage C S k (.opened k) y cs ss := by
  cases h with
  | readied hs => exact .both hC hs

theorem Stage.offer (h : Stage C S k (.asking k) y cs (.seq n :: ss)) (hC : C.Le C')
    (hC' : C'.Stream S C'.q.outSeq []) : Stage C' S k (.opened k) y (cs ++ [.seq C.inSeq]) ss := by
  cases h with
  | offered => exact .returned hC.inSeq hC'

theorem Stage.sock_of_offer (h : Stage C S k (.asking k) y cs (.seq n :: ss)) : y.sock = some k := by
  cases h
  rfl

theorem Stage.resumed (h : Stage C S k x (.resuming k) (.seq n :: cs) ss) (hS : S.Le S')
    (hS' : S'.Stream C S'.q.outSeq []) : Stage C S' k x (.opened k) cs ss := by
  cases h with
  | returned _ hc => exact .both (hc.mono (.refl C) hS) hS'

end Handshake

namespace Session

variable {s s' : Session} {b : Bool} {k : ℕ}

/-- The two sides by themselves. -/
structure Ends (s : Session) : Prop where
  line : ∀ b, (s.party b).q.InLine
  idle : ∀ b, (s.pos b).openSock = none → (s.party b).q.sent = []
  flow : ∀ b, Party.Flow (s.party b) (s.party !b)

/-- Who has which socket. -/
structure Book (s : Session) : Prop where
  client : ∀ k, s.pos true ≠ .asked k ∧ s.pos true ≠ .resuming k
  server : ∀ k, s.pos false ≠ .asking k
  handed : ∀ k, (s.pos false).sock = some k → s.handed k = true
  dialled : ∀ k, (s.pos true).sock = some k → k < s.count
  fresh : ∀ k, s.count ≤ k → s.handed k = false ∧ ∀ b, s.wire b k = []
  unhanded : ∀ k, s.handed k = false → s.wire true k = [] ∨ s.wire true k = [.connect]
  unregistered : s.registered = false →
    (∀ k, s.handed k = false) ∧ (s.party false).inSeq = 0 ∧ s.pos false = .away

/-- What is on the way to those who will read it. -/
structure Ways (s : Session) : Prop where
  reads : ∀ b k, (s.pos b).sock = some k →
    Expects (s.party !b) (s.party b) k (s.pos b) (s.wire (!b) k)
  stage : ∀ k, (s.pos true).sock = some k → ((s.pos false).sock = some k ∨ s.handed k = false) →
    Stage (s.party true) (s.party false) k (s.pos true) (s.pos false) (s.wire true k) (s.wire false k)

structure Inv (s : Session) : Prop where
  ends : s.Ends
  book : s.Book
  ways : s.Ways

/-- A step at socket `k` leaves the other sockets as they are. -/
structure Local (s s' : Session) (k : ℕ) : Prop where
  grows : ∀ b, (s.party b).Le (s'.party b)
  outSeq : ∀ b j, j ≠ k → (s'.pos b).sock = some j → (s'.party b).q.outSeq = (s.party b).q.outSeq
  pos : ∀ b j, j ≠ k → (s'.pos b).sock = some j → s'.pos b = s.pos b
  wire : ∀ b j, j ≠ k → s'.wire b j = s.wire b j
  handed : ∀ j, j ≠ k → s'.handed j = s.handed j

/-- So it is enough to look at this socket, and at the one reader that the stage does not speak
of. -/
theorem Ways.of_local (h : s.Ways) (hbook : s.Book) (hloc : Local s s' k)
    (hstage : (s'.pos true).sock = some k → ((s'.pos false).sock = some k ∨ s'.handed k = false) →
      Stage (s'.party true) (s'.party false) k (s'.pos true) (s'.pos false) (s'.wire true k)
        (s'.wire false k))
    (hclient : (s'.pos true).sock = some k → (s'.pos false).sock ≠ some k → s'.handed k = true →
      Expects (s'.party false) (s'.party true) k (s'.pos true) (s'.wire false k))
    (hserver : (s'.pos false).sock = some k → (s'.pos true).sock ≠ some k →
      Expects (s'.party true) (s'.party false) k (s'.pos false) (s'.wire true k)) : s'.Ways := by
  constructor
  · intro b j hj
    rcases eq_or_ne j k with rfl | hne
    · cases b with
      | true =>
        by_cases hor : (s'.pos false).sock = some j ∨ s'.handed j = false
        · exact (hstage hj hor).client
        · obtain ⟨hnot, hhanded⟩ := not_or.mp hor
          exact hclient hj hnot (Bool.not_eq_false _ ▸ hhanded)
      | false =>
        by_cases htrue : (s'.pos true).sock = some j
        · exact (hstage htrue (Or.inl hj)).server hj
        · exact hserver hj htrue
    · have hpos := hloc.pos b j hne hj
      rw [hloc.wire _ j hne, hpos]
      exact (h.reads b j (hpos ▸ hj)).mono (hloc.grows _) (hloc.grows _)
  · intro j hj hor
    rcases eq_or_ne j k with rfl | hne
    · exact hstage hj hor
    · have hpos := hloc.pos true j hne hj
      rw [hloc.wire _ j hne, hloc.wire _ j hne, hpos]
      rw [hloc.handed j hne] at hor
      by_cases hfalse : (s'.pos false).sock = some j
      · have hpos' := hloc.pos false j hne hfalse
        rw [hpos']
        refine (h.stage j (hpos ▸ hj) (Or.inl (hpos' ▸ hfalse))).mono (hloc.grows _) (hloc.grows _) ?_ ?_
        · exact fun _ ↦ hloc.outSeq true j hne hj
        · exact fun _ ↦ hloc.outSeq false j hne hfalse
      · -- the server has not been given socket `j`, neither before nor after
        have hunhanded := hor.resolve_left hfalse
        have hnot : (s.pos false).sock ≠ some j := fun hsock ↦
          absurd ((hbook.handed j hsock).symm.trans hunhanded) (by decide)
        refine ((h.stage j (hpos ▸ hj) (Or.inr hunhanded)).elsewhere hnot hfalse).mono (hloc.grows _)
          (hloc.grows _) ?_ ?_
        · exact fun _ ↦ hloc.outSeq true j hne hj
        · intro hopened
          exact absurd (congrArg Pos.sock hopened) hfalse

theorem setParty_party_self (s : Session) (b : Bool) (p : Party) : (s.setParty b p).party b = p := by
  dsimp only [setParty]
  rw [Function.update_self]

theorem setParty_party_of_ne (s : Session) {b c : Bool} (p : Party) (h : c ≠ b) :
    (s.setParty b p).party c = s.party c := by
  dsimp only [setParty]
  rw [Function.update_of_ne h]

theorem setPos_pos_self (s : Session) (b : Bool) (x : Pos) : (s.setPos b x).pos b = x := by
  dsimp only [setPos]
  rw [Function.update_self]

theorem setPos_pos_of_ne (s : Session) {b c : Bool} (x : Pos) (h : c ≠ b) :
    (s.setPos b x).pos c = s.pos c := by
  dsimp only [setPos]
  rw [Function.update_of_ne h]

@[simp] theorem setParty_wire (s : Session) (b : Bool) (p : Party) :
    (s.setParty b p).wire = s.wire := rfl

@[simp] theorem setPos_wire (s : Session) (b : Bool) (x : Pos) : (s.setPos b x).wire = s.wire := rfl

@[simp] theorem setPos_party (s : Session) (b : Bool) (x : Pos) : (s.setPos b x).party = s.party := rfl

@[simp] theorem write_party (s : Session) (b : Bool) (k : ℕ) (x : Packet) :
    (s.write b k x).party = s.party := rfl

theorem setWire_self (s : Session) (b : Bool) (k : ℕ) (ps : List Packet) :
    (s.setWire b k ps).wire b k = ps := by
  dsimp only [setWire]
  rw [Function.update_self, Function.update_self]

theorem setWire_of_ne (s : Session) {b c : Bool} (k j : ℕ) (ps : List Packet) (h : c ≠ b) :
    (s.setWire b k ps).wire c j = s.wire c j := by
  dsimp only [setWire]
  rw [Function.update_of_ne h]

theorem setWire_other (s : Session) (b c : Bool) {k j : ℕ} (ps : List Packet) (h : j ≠ k) :
    (s.setWire b k ps).wire c j = s.wire c j := by
  dsimp only [setWire]
  rcases eq_or_ne c b with rfl | hne
  · rw [Function.update_self, Function.update_of_ne h]
  · rw [Function.update_of_ne hne]

/-! ## The steps

The invariant has three parts: the two sides by themselves, who has which socket, and what is on the
way to those who will read it. A step at one socket is checked there, and leaves the others alone
(`Ways.of_local`). -/

/-- One side does something that keeps its line in order. -/
theorem Ends.of (h : s.Ends) (b : Bool) (hparty : s'.party (!b) = s.party (!b))
    (hpos : s'.pos (!b) = s.pos (!b))
    (hline : (s'.party b).q.InLine) (hidle : (s'.pos b).openSock = none → (s'.party b).q.sent = [])
    (hsend : Party.Flow (s'.party b) (s.party !b)) (hreceive : Party.Flow (s.party !b) (s'.party b)) :
    s'.Ends := by
  refine ⟨fun c ↦ ?_, fun c hc ↦ ?_, fun c ↦ ?_⟩ <;> rcases Bool.eq_or_eq_not c b with rfl | rfl
  · exact hline
  · rw [hparty]
    exact h.line _
  · exact hidle hc
  · rw [hparty]
    exact h.idle _ (hpos ▸ hc)
  · rw [hparty]
    exact hsend
  · rw [hparty, Bool.not_not]
    exact hreceive

theorem Ends.receives (h : s.Ends) (b : Bool) : Party.Flow (s.party !b) (s.party b) := by
  have hflow := h.flow (!b)
  rwa [Bool.not_not] at hflow

/-- Nothing changes but one party, and its `out_seq` stays. -/
theorem Inv.setParty (h : s.Inv) {p : Party} (hline : p.q.InLine) (hle : (s.party b).Le p)
    (houtSeq : p.q.outSeq = (s.party b).q.outSeq)
    (hidle : (s.party b).q.sent = [] → p.q.sent = []) (hsend : Party.Flow p (s.party !b))
    (hreceive : Party.Flow (s.party !b) p) (hinSeq : p.inSeq = (s.party b).inSeq) : (s.setParty b p).Inv := by
  have hgrows (c : Bool) : (s.party c).Le ((s.setParty b p).party c) := by
    rcases eq_or_ne c b with rfl | hne
    · rw [setParty_party_self]
      exact hle
    · rw [setParty_party_of_ne _ _ hne]
      exact .refl _
  have hout (c : Bool) : ((s.setParty b p).party c).q.outSeq = (s.party c).q.outSeq := by
    rcases eq_or_ne c b with rfl | hne
    · rw [setParty_party_self, houtSeq]
    · rw [setParty_party_of_ne _ _ hne]
  have hsame (c : Bool) : ((s.setParty b p).party c).inSeq = (s.party c).inSeq := by
    rcases eq_or_ne c b with rfl | hne
    · rw [setParty_party_self, hinSeq]
    · rw [setParty_party_of_ne _ _ hne]
  refine ⟨h.ends.of b (setParty_party_of_ne _ _ (Bool.not_ne_self b)) rfl ?_ ?_ ?_ ?_,
    ⟨h.book.client, h.book.server, h.book.handed, h.book.dialled, h.book.fresh, h.book.unhanded, fun hno ↦ ?_⟩,
    fun c k hk ↦ (h.ways.reads c k hk).mono (hgrows _) (hgrows _), fun k hk hor ↦
      (h.ways.stage k hk hor).mono (hgrows _) (hgrows _) (fun _ ↦ hout _) fun _ ↦ hout _⟩
  · rw [setParty_party_self]
    exact hline
  · rw [setParty_party_self]
    exact fun hno ↦ hidle (h.ends.idle b hno)
  · rw [setParty_party_self]
    exact hsend
  · rw [setParty_party_self]
    exact hreceive
  · rw [hsame]
    exact h.book.unregistered hno

theorem Inv.queue (h : s.Inv) {m : Message} (hseq : m.getSeq = 0) (hprio : m.getPriority ≤ prioHighest) :
    (s.setParty b { s.party b with q := (s.party b).q.push m }).Inv := by
  obtain ⟨requeued, fresh, hline⟩ := h.ends.line b
  have hsend := h.ends.flow b
  have hreceive := h.ends.receives b
  exact h.setParty (hline.push hseq hprio) ⟨List.prefix_rfl, le_rfl⟩ rfl id
    ⟨hsend.received, hsend.inSeq_le, hsend.trimmed⟩ ⟨hreceive.received, hreceive.inSeq_le, hreceive.trimmed⟩ rfl

theorem sock_of_openSock {x : Pos} (h : x.openSock = some k) : x = .opened k := by
  cases x <;> simp [Pos.openSock] at h
  rw [h]

theorem opened_of_sock {x : Pos} {j : ℕ} (h : x = .opened k) (hj : x.sock = some j) : j = k := by
  rw [h] at hj
  exact (Option.some_inj.mp hj).symm

theorem Book.setParty (h : s.Book) {p : Party}
    (hinSeq : b = false → s.registered = false → p.inSeq = 0) :
    (s.setParty b p).Book := by
  refine ⟨h.client, h.server, h.handed, h.dialled, h.fresh, h.unhanded, fun hno ↦ ?_⟩
  obtain ⟨hhanded, hzero, haway⟩ := h.unregistered hno
  refine ⟨hhanded, ?_, haway⟩
  cases b with
  | false =>
    rw [setParty_party_self]
    exact hinSeq rfl hno
  | true => exact hzero

theorem Book.setWire (h : s.Book) {ps : List Packet} (hk : k < s.count)
    (hunhanded : b = true → s.handed k = false → ps = [] ∨ ps = [.connect]) : (s.setWire b k ps).Book := by
  refine ⟨h.client, h.server, h.handed, h.dialled, fun j hj ↦ ⟨(h.fresh j hj).1, fun c ↦ ?_⟩, fun j hj ↦ ?_,
    h.unregistered⟩
  · rw [setWire_other _ _ _ _ (Nat.ne_of_gt (lt_of_lt_of_le hk hj))]
    exact (h.fresh j hj).2 c
  · rcases eq_or_ne j k with rfl | hne
    · cases b with
      | true =>
        rw [setWire_self]
        exact hunhanded rfl hj
      | false => exact h.unhanded j hj
    · rw [setWire_other _ _ _ _ hne]
      exact h.unhanded j hj

/-- The client goes to a socket that it has dialled, or away. -/
theorem Book.clientGoes (h : s.Book) {x : Pos} (hx : ∀ k, x ≠ .asked k ∧ x ≠ .resuming k)
    (hdialled : ∀ k, x.sock = some k → k < s.count) : (s.setPos true x).Book :=
  ⟨hx, h.server, h.handed, hdialled, h.fresh, h.unhanded, h.unregistered⟩

/-- The server goes to a socket that it has been given, or away. -/
theorem Book.serverGoes (h : s.Book) {x : Pos} (hx : ∀ k, x ≠ .asking k)
    (hhanded : ∀ k, x.sock = some k → s.handed k = true) (hregistered : s.registered = true) :
    (s.setPos false x).Book :=
  ⟨h.client, hx, hhanded, h.dialled, h.fresh, h.unhanded,
    fun hno ↦ absurd (hregistered.symm.trans hno) (by decide)⟩

theorem Book.lt_of_handed (h : s.Book) (hk : s.handed k = true) : k < s.count := by
  by_contra hge
  exact absurd ((h.fresh k (Nat.le_of_not_lt hge)).1.symm.trans hk) (by decide)

theorem Book.lt_of_wire (h : s.Book) (hk : s.wire b k ≠ []) : k < s.count := by
  by_contra hge
  exact hk ((h.fresh k (Nat.le_of_not_lt hge)).2 b)

/-- An open session is one that the server has accepted. -/
theorem Inv.handed_of_opened (h : s.Inv) (hopen : s.pos b = .opened k) : s.handed k = true := by
  cases b with
  | false => exact h.book.handed k (hopen ▸ rfl)
  | true =>
    by_contra hno
    have hunhanded : s.handed k = false := Bool.not_eq_true _ ▸ hno
    have hnot : (s.pos false).sock ≠ some k := fun hsock ↦ hno (h.book.handed k hsock)
    have hstage := h.ways.stage k (hopen ▸ rfl) (Or.inr hunhanded)
    rw [hopen] at hstage
    exact hnot hstage.sock_of_opened

theorem write_self (s : Session) (b : Bool) (k : ℕ) (x : Packet) :
    (s.write b k x).wire b k = s.wire b k ++ [x] := setWire_self _ _ _ _

theorem write_of_ne (s : Session) {b c : Bool} (k j : ℕ) (x : Packet) (h : c ≠ b) :
    (s.write b k x).wire c j = s.wire c j := setWire_of_ne _ _ _ _ h

theorem write_other (s : Session) (b c : Bool) {k j : ℕ} (x : Packet) (h : j ≠ k) :
    (s.write b k x).wire c j = s.wire c j := setWire_other _ _ _ _ h

/-- A side writes a packet in an open session. -/
theorem Inv.write (h : s.Inv) {p : Party} {x : Packet} (hopen : s.pos b = .opened k) (hline : p.q.InLine)
    (hle : (s.party b).Le p) (hsend : Party.Flow p (s.party !b)) (hreceive : Party.Flow (s.party !b) p)
    (hinSeq : p.inSeq = (s.party b).inSeq)
    (hx : ∀ ps, (s.party b).Stream (s.party !b) (s.party b).q.outSeq ps →
      p.Stream (s.party !b) p.q.outSeq (ps ++ [x])) :
    ((s.setParty b p).write b k x).Inv := by
  have hself : ((s.setParty b p).write b k x).party b = p := setParty_party_self s b p
  have hother : ((s.setParty b p).write b k x).party (!b) = s.party (!b) :=
    setParty_party_of_ne _ _ (Bool.not_ne_self b)
  have hgrows (c : Bool) : (s.party c).Le (((s.setParty b p).write b k x).party c) := by
    rcases Bool.eq_or_eq_not c b with rfl | rfl
    · exact hself.symm ▸ hle
    · exact hother.symm ▸ .refl _
  have hhanded := h.handed_of_opened hopen
  have hbook : ((s.setParty b p).write b k x).Book := by
    refine (h.book.setParty fun hb hno ↦ ?_).setWire (h.book.lt_of_handed hhanded) fun _ hno ↦
      absurd (hhanded.symm.trans hno) (by decide)
    rw [hinSeq, hb]
    exact (h.book.unregistered hno).2.1
  have hloc : Local s ((s.setParty b p).write b k x) k := by
    refine ⟨hgrows, fun c j hne hj ↦ ?_, fun _ _ _ _ ↦ rfl, fun c j hne ↦ write_other _ _ _ _ hne, fun _ _ ↦ rfl⟩
    rcases Bool.eq_or_eq_not c b with rfl | rfl
    · exact absurd (opened_of_sock hopen hj) hne
    · rw [hother]
  refine ⟨h.ends.of b hother rfl (hself.symm ▸ hline) (fun hno ↦ ?_) (hself.symm ▸ hsend)
    (hself.symm ▸ hreceive), hbook, h.ways.of_local h.book hloc ?_ ?_ ?_⟩
  · rw [show ((s.setParty b p).write b k x).pos b = s.pos b from rfl, hopen] at hno
    cases hno
  · intro hk hor
    have hstage := h.ways.stage k hk hor
    cases b with
    | true =>
      change Stage _ (s.party false) k (s.pos true) (s.pos false) _ (s.wire false k)
      rw [hself, write_self, hopen]
      rw [hopen] at hstage
      exact hstage.clientWrites hle hx
    | false =>
      change Stage (s.party true) _ k (s.pos true) (s.pos false) (s.wire true k) _
      rw [hself, write_self, hopen]
      rw [hopen] at hstage
      exact hstage.serverWrites hle hx
  · intro hk hnot _
    cases b with
    | true =>
      -- the other side has given the socket up, and the packet goes nowhere
      exact (h.ways.reads true k hk).mono (hgrows _) (hgrows _)
    | false => exact absurd (hopen ▸ rfl) hnot
  · intro hk hnot
    cases b with
    | true => exact absurd (hopen ▸ rfl) hnot
    | false => exact (h.ways.reads false k hk).mono (hgrows _) (hgrows _)

/-! ## The server answers

A connect message comes alone. The server takes its place at the socket, whatever it answers, and
reads nothing more from the one it was on before. -/

theorem asks_eq {rest : List Packet} (h : s.asks k = some rest) : s.wire true k = .connect :: rest := by
  rw [asks] at h
  split at h
  · rename_i heq
    rw [heq, Option.some_inj.mp h]
  · cases h

theorem answer_true (s : Session) (k : ℕ) (rest : List Packet) (p : Packet) :
    (s.answer k rest p).wire true k = rest := by
  rw [answer, write_of_ne _ _ _ _ (by decide), setWire_self]

theorem answer_false (s : Session) (k : ℕ) (rest : List Packet) (p : Packet) :
    (s.answer k rest p).wire false k = s.wire false k ++ [p] := by
  rw [answer, write_self, setWire_of_ne _ _ _ _ (by decide)]

theorem answer_other (s : Session) (b : Bool) {k j : ℕ} (rest : List Packet) (p : Packet) (h : j ≠ k) :
    (s.answer k rest p).wire b j = s.wire b j := by
  rw [answer, write_other _ _ _ _ h, setWire_other _ _ _ _ h]

/-- A connect message comes alone, and the client has no answer yet. -/
theorem Inv.asked {rest : List Packet} (h : s.Inv) (hasks : s.asks k = some rest)
    (hor : s.handed k = false ∨ s.pos false = .asked k) :
    rest = [] ∧ ((s.pos true).sock = some k → s.pos true = .asking k ∧ s.wire false k = []) := by
  have hwire := asks_eq hasks
  constructor
  · rcases hor with hno | hasked
    · rcases h.book.unhanded k hno with hnil | hone
      · rw [hnil] at hwire
        cases hwire
      · rw [hone, List.cons.injEq] at hwire
        exact hwire.2.symm
    · have hreads := h.ways.reads false k (hasked ▸ rfl)
      rw [hasked, Bool.not_false, hwire] at hreads
      cases hreads
      rfl
  · intro hk
    have hy : s.pos false = .asked k ∨ (s.pos false).sock ≠ some k := by
      rcases hor with hno | hasked
      · exact Or.inr fun hsock ↦ absurd ((h.book.handed k hsock).symm.trans hno) (by decide)
      · exact Or.inl hasked
    have hstage := h.ways.stage k hk (hor.symm.imp (fun hasked ↦ by rw [hasked]; rfl) id)
    rw [hwire] at hstage
    exact hstage.of_connect hy

theorem Book.answer (h : s.Book) {p : Packet} (hk : k < s.count) : (s.answer k [] p).Book :=
  (h.setWire hk fun _ _ ↦ Or.inl rfl).setWire hk fun hb ↦ absurd hb (by decide)

theorem Inv.refuse (h : s.Inv) {rest : List Packet} (hasks : s.asks k = some rest)
    (hor : s.handed k = false ∨ s.pos false = .asked k) : (s.answer k rest .retry).Inv := by
  obtain ⟨rfl, hclient⟩ := h.asked hasks hor
  have hk : k < s.count := h.book.lt_of_wire (b := true) (asks_eq hasks ▸ List.cons_ne_nil _ _)
  have hy : s.pos false = .asked k ∨ (s.pos false).sock ≠ some k := by
    rcases hor with hno | hasked
    · exact Or.inr fun hsock ↦ absurd ((h.book.handed k hsock).symm.trans hno) (by decide)
    · exact Or.inl hasked
  have hloc : Local s (s.answer k [] .retry) k :=
    ⟨fun _ ↦ .refl _, fun _ _ _ _ ↦ rfl, fun _ _ _ _ ↦ rfl, fun b j hne ↦ answer_other _ _ _ _ hne,
      fun _ _ ↦ rfl⟩
  refine ⟨⟨h.ends.line, h.ends.idle, h.ends.flow⟩, h.book.answer hk, h.ways.of_local h.book hloc ?_ ?_ ?_⟩
  · intro htrue _
    obtain ⟨hasking, hnil⟩ := hclient htrue
    rw [answer_true, answer_false, hnil]
    change Stage _ _ k (s.pos true) (s.pos false) [] [.retry]
    rw [hasking]
    exact .answer hy
  · intro htrue hnot hhanded
    -- a socket that the server has been given and does not have
    rcases hor with hno | hasked
    · exact absurd (hhanded.symm.trans hno) (by decide)
    · exact absurd (hasked ▸ rfl) hnot
  · intro hfalse _
    rw [answer_true]
    change Expects _ _ k (s.pos false) []
    obtain hasked := hy.resolve_right fun hne ↦ hne hfalse
    rw [hasked]
    exact .nothing nofun

/-- The server answers a connect message, and takes its place at the socket. -/
theorem Inv.serve (h : s.Inv) {P : Party} {p : Packet} {x : Pos}
    (hclient : (s.pos true).sock = some k → s.pos true = .asking k ∧ s.wire false k = []) (hbook : s'.Book)
    (hparty : s'.party = Function.update s.party false P) (hpos : s'.pos = Function.update s.pos false x)
    (hwire : s'.wire = (s.answer k [] p).wire) (hhanded : ∀ j, j ≠ k → s'.handed j = s.handed j)
    (hx : x.sock = some k) (hline : P.q.InLine) (hle : (s.party false).Le P) (hsent : P.q.sent = [])
    (hsend : Party.Flow P (s.party true)) (hreceive : Party.Flow (s.party true) P)
    (hstage : Stage (s.party true) P k (.asking k) x [] [p]) : s'.Inv := by
  have hself : s'.party false = P := by rw [hparty, Function.update_self]
  have htrue : s'.party true = s.party true := by rw [hparty, Function.update_of_ne (by decide)]
  have hplace : s'.pos false = x := by rw [hpos, Function.update_self]
  have hstays : s'.pos true = s.pos true := by rw [hpos, Function.update_of_ne (by decide)]
  have hgrows (b : Bool) : (s.party b).Le (s'.party b) := by
    cases b with
    | true => exact htrue.symm ▸ .refl _
    | false => exact hself.symm ▸ hle
  have hloc : Local s s' k := by
    refine ⟨hgrows, fun b j hne hj ↦ ?_, fun b j hne hj ↦ ?_, fun b j hne ↦ ?_, hhanded⟩
    · cases b with
      | true => rw [htrue]
      | false =>
        rw [hplace, hx] at hj
        exact absurd (Option.some_inj.mp hj).symm hne
    · cases b with
      | true => exact hstays
      | false =>
        rw [hplace, hx] at hj
        exact absurd (Option.some_inj.mp hj).symm hne
    · rw [hwire, answer_other _ _ _ _ hne]
  refine ⟨h.ends.of false htrue hstays (hself.symm ▸ hline) (fun _ ↦ hself.symm ▸ hsent) (hself.symm ▸ hsend)
    (hself.symm ▸ hreceive), hbook, h.ways.of_local h.book hloc ?_ ?_ ?_⟩
  · intro hk _
    rw [hstays] at hk
    obtain ⟨hasking, hnil⟩ := hclient hk
    rw [htrue, hself, hplace, hstays, hasking, hwire, answer_true, answer_false, hnil]
    exact hstage
  · intro _ hnot _
    exact absurd (hplace.symm ▸ hx) hnot
  · intro _ _
    rw [htrue, hself, hplace, hwire, answer_true]
    exact hstage.server hx

theorem Inv.resume (h : s.Inv) {rest : List Packet} (hasked : s.pos false = .asked k)
    (hasks : s.asks k = some rest) :
    ((s.answer k rest (.seq (s.party false).inSeq)).setPos false (.resuming k)).Inv := by
  obtain ⟨rfl, hclient⟩ := h.asked hasks (Or.inr hasked)
  have hhanded := h.book.handed k (by rw [hasked]; rfl)
  have hbook : ((s.answer k [] (.seq (s.party false).inSeq)).setPos false (.resuming k)).Book := by
    refine (h.book.answer (h.book.lt_of_handed hhanded)).serverGoes nofun (fun j hj ↦ ?_) ?_
    · rw [← Option.some_inj.mp hj]
      exact hhanded
    · by_contra hno
      have haway := (h.book.unregistered (Bool.not_eq_true _ ▸ hno)).2.2
      rw [hasked] at haway
      cases haway
  exact h.serve hclient hbook (Function.update_eq_self false s.party).symm rfl rfl (fun _ _ ↦ rfl) rfl
    (h.ends.line false) (.refl _) (h.ends.idle false (by rw [hasked]; rfl)) (h.ends.flow false)
    (h.ends.receives false) (.offered le_rfl)

theorem Book.hand (h : s.Book) (hk : k < s.count) (hregistered : s.registered = true) :
    (s.hand k).Book := by
  have hself : (s.hand k).handed k = true := Function.update_self _ _ _
  have hother {j : ℕ} (hne : j ≠ k) : (s.hand k).handed j = s.handed j := Function.update_of_ne hne _ _
  refine ⟨h.client, h.server, fun j hj ↦ ?_, h.dialled, fun j hj ↦ ?_, fun j hj ↦ ?_, fun hno ↦
    absurd (hregistered.symm.trans hno) (by decide)⟩
  · rcases eq_or_ne j k with rfl | hne
    · exact hself
    · rw [hother hne]
      exact h.handed j hj
  · rw [hother (Nat.ne_of_gt (lt_of_lt_of_le hk hj))]
    exact h.fresh j hj
  · rcases eq_or_ne j k with rfl | hne
    · exact absurd (hself.symm.trans hj) (by decide)
    · rw [hother hne] at hj
      exact h.unhanded j hj

theorem Inv.takeOver (h : s.Inv) {rest : List Packet} (hasks : s.asks k = some rest)
    (hno : s.handed k = false)
    (hregistered : s.registered = true) :
    ((((s.answer k rest .retry).hand k).setParty false (s.party false).requeue).setPos false (.asked k)).Inv := by
  obtain ⟨rfl, hclient⟩ := h.asked hasks (Or.inl hno)
  have hk : k < s.count := h.book.lt_of_wire (b := true) (asks_eq hasks ▸ List.cons_ne_nil _ _)
  obtain ⟨hline, hsent, hreleased, hle⟩ := Party.requeue_spec (h.ends.line false)
  have hbook : ((((s.answer k [] .retry).hand k).setParty false (s.party false).requeue).setPos false
      (.asked k)).Book := by
    refine ((((h.book.answer hk).hand hk hregistered).setParty fun _ hno' ↦ ?_).serverGoes nofun
      (fun j hj ↦ ?_) hregistered)
    · exact absurd (hregistered.symm.trans hno') (by decide)
    · rw [← Option.some_inj.mp hj]
      exact Function.update_self _ _ _
  exact h.serve hclient hbook rfl rfl rfl (fun j hne ↦ Function.update_of_ne hne _ _) rfl hline hle hsent
    ((h.ends.flow false).mono hle (hreleased.symm ▸ (h.ends.flow false).trimmed))
    ((h.ends.receives false).queue _) (.answer (Or.inl rfl))

theorem Inv.accept (h : s.Inv) {rest : List Packet} (hasks : s.asks k = some rest)
    (hno : s.handed k = false)
    (hregistered : s.registered = false) :
    (({ (s.answer k rest .ready).hand k with registered := true }.setParty false
      (s.party false).begin).setPos false (.opened k)).Inv := by
  obtain ⟨rfl, hclient⟩ := h.asked hasks (Or.inl hno)
  obtain ⟨-, hzero, haway⟩ := h.book.unregistered hregistered
  have hk : k < s.count := h.book.lt_of_wire (b := true) (asks_eq hasks ▸ List.cons_ne_nil _ _)
  obtain ⟨hline, hsent, hreleased, hle⟩ :=
    Party.resume_spec (h.ends.line false) (h.ends.idle false (haway ▸ rfl)) 0
  have hreceives := h.ends.receives false
  -- the connection has received nothing yet
  have hle' : (s.party false).Le (s.party false).begin := ⟨hle.numbered, hzero.le⟩
  have hsend : Party.Flow (s.party false).begin (s.party true) := by
    refine (h.ends.flow false).mono hle' ?_
    rw [Nat.max_zero] at hreleased
    exact hreleased.trans (h.ends.flow false).trimmed
  have hreceive : Party.Flow (s.party true) (s.party false).begin := by
    have hreceived := hreceives.received
    have htrimmed := hreceives.trimmed
    rw [hzero] at hreceived htrimmed
    exact ⟨hreceived, Nat.zero_le _, htrimmed⟩
  have hbook : (({ (s.answer k [] .ready).hand k with registered := true }.setParty false
      (s.party false).begin).setPos false (.opened k)).Book := by
    have hanswer := h.book.answer (p := .ready) hk
    have hmarked : ({ s.answer k [] .ready with registered := true } : Session).Book :=
      ⟨hanswer.client, hanswer.server, hanswer.handed, hanswer.dialled, hanswer.fresh, hanswer.unhanded,
        fun hfalse ↦ (nomatch hfalse)⟩
    refine (((hmarked.hand hk rfl).setParty fun _ hno' ↦ (nomatch hno')).serverGoes nofun (fun j hj ↦ ?_) rfl)
    rw [← Option.some_inj.mp hj]
    exact Function.update_self _ _ _
  exact h.serve hclient hbook rfl rfl rfl (fun j hne ↦ Function.update_of_ne hne _ _) rfl hline hle' hsent hsend
    hreceive (.readied (hsend.stream_nil hline hsent))

/-! ## The client dials, and a side gives up

A side that faults puts back what it has sent, with `out_seq` where it was before, and what it has
written stays on its socket for the other. -/

theorem Inv.dial (h : s.Inv) (haway : s.pos true = .away) :
    (({ s with count := s.count + 1 }.write true s.count .connect).setPos true (.asking s.count)).Inv := by
  obtain ⟨hunhanded, hnone⟩ := h.book.fresh s.count le_rfl
  generalize hs' : ({ s with count := s.count + 1 }.write true s.count .connect).setPos true (.asking s.count) = s'
  have hother {b : Bool} {j : ℕ} (hne : j ≠ s.count) : s'.wire b j = s.wire b j := by
    rw [← hs']
    exact setWire_other _ _ _ _ hne
  have hwrote : s'.wire true s.count = [.connect] := by
    rw [← hs']
    refine (write_self { s with count := s.count + 1 } true s.count .connect).trans ?_
    rw [hnone true, List.nil_append]
  have hquiet : s'.wire false s.count = [] := by
    rw [← hs']
    have hne : false ≠ true := by decide
    exact (write_of_ne { s with count := s.count + 1 } s.count s.count .connect hne).trans (hnone false)
  have hpos : s'.pos true = .asking s.count := by
    rw [← hs', setPos_pos_self]
  have hstays : s'.pos false = s.pos false := by
    rw [← hs', setPos_pos_of_ne _ _ (by decide)]
    rfl
  have hparty : s'.party = s.party := by rw [← hs']; rfl
  have hhanded : s'.handed = s.handed := by rw [← hs']; rfl
  have hcount : s'.count = s.count + 1 := by rw [← hs']; rfl
  have hregistered : s'.registered = s.registered := by rw [← hs']; rfl
  -- nobody has the new socket, and nothing is on the way there
  have hnot : (s.pos false).sock ≠ some s.count := fun hsock ↦
    absurd ((h.book.handed s.count hsock).symm.trans hunhanded) (by decide)
  have hbook : s'.Book := by
    refine ⟨fun k ↦ ?_, fun k ↦ hstays ▸ h.book.server k, fun k hk ↦ ?_, fun k hk ↦ ?_, fun k hk ↦ ?_, fun k hk ↦ ?_,
      fun hno ↦ ?_⟩
    · rw [hpos]
      exact ⟨nofun, nofun⟩
    · rw [hhanded]
      exact h.book.handed k (hstays ▸ hk)
    · rw [hpos] at hk
      rw [hcount, ← Option.some_inj.mp hk]
      exact Nat.lt_succ_self _
    · rw [hcount] at hk
      rw [hhanded]
      refine ⟨(h.book.fresh k (Nat.le_of_succ_le hk)).1, fun b ↦ ?_⟩
      rw [hother (Nat.ne_of_gt hk)]
      exact (h.book.fresh k (Nat.le_of_succ_le hk)).2 b
    · rcases eq_or_ne k s.count with rfl | hne
      · exact Or.inr hwrote
      · rw [hother hne]
        exact h.book.unhanded k (hhanded ▸ hk)
    · rw [hhanded, hparty, hstays]
      exact h.book.unregistered (hregistered ▸ hno)
  have hloc : Local s s' s.count := by
    refine ⟨fun b ↦ hparty ▸ .refl _, fun b j _ _ ↦ by rw [hparty], fun b j hne hj ↦ ?_, fun _ _ hne ↦ hother hne,
      fun j _ ↦ by rw [hhanded]⟩
    cases b with
    | true =>
      rw [hpos] at hj
      exact absurd (Option.some_inj.mp hj).symm hne
    | false => exact hstays
  refine ⟨⟨fun b ↦ hparty ▸ h.ends.line b, fun b hb ↦ ?_, fun b ↦ hparty ▸ h.ends.flow b⟩, hbook,
    h.ways.of_local h.book hloc ?_ ?_ ?_⟩
  · rw [hparty]
    cases b with
    | true => exact h.ends.idle true (by rw [haway]; rfl)
    | false => exact h.ends.idle false (hstays ▸ hb)
  · intro _ _
    rw [hpos, hwrote, hquiet, hstays]
    exact .request (Or.inr hnot)
  · intro _ _ hfalse
    rw [hhanded, hunhanded] at hfalse
    cases hfalse
  · intro hk _
    exact absurd (hstays ▸ hk) hnot

theorem Inv.fault (h : s.Inv) (hne : s.pos b ≠ .away) :
    ((s.setParty b (s.party b).requeue).setPos b .away).Inv := by
  generalize hs' : (s.setParty b (s.party b).requeue).setPos b .away = s'
  obtain ⟨hline, hsent, hreleased, hle⟩ := Party.requeue_spec (h.ends.line b)
  have hself : s'.party b = (s.party b).requeue := by
    rw [← hs']
    exact setParty_party_self _ _ _
  have hother : s'.party (!b) = s.party (!b) := by
    rw [← hs']
    exact setParty_party_of_ne _ _ (Bool.not_ne_self b)
  have hpos : s'.pos b = .away := by rw [← hs', setPos_pos_self]
  have hstays : s'.pos (!b) = s.pos (!b) := by
    rw [← hs', setPos_pos_of_ne _ _ (Bool.not_ne_self b)]
    rfl
  have hsend := (h.ends.flow b).mono hle (hreleased.symm ▸ (h.ends.flow b).trimmed)
  have hreceive := (h.ends.receives b).queue (s.party b).requeue.q
  have hgrows (c : Bool) : (s.party c).Le (s'.party c) := by
    rcases Bool.eq_or_eq_not c b with rfl | rfl
    · exact hself.symm ▸ hle
    · exact hother.symm ▸ .refl _
  have hbook : s'.Book := by
    rw [← hs']
    cases b with
    | true =>
      refine (h.book.setParty fun hfalse ↦ ?_).clientGoes (fun k ↦ ⟨?_, ?_⟩) fun k hk ↦ ?_
      · cases hfalse
      · exact nofun
      · exact nofun
      · cases hk
    | false =>
      have hparty : (s.setParty false (s.party false).requeue).Book :=
        h.book.setParty fun _ hno ↦ (h.book.unregistered hno).2.1
      refine hparty.serverGoes (fun k ↦ ?_) (fun k hk ↦ ?_) ?_
      · exact nofun
      · cases hk
      · -- a connection that has a socket has been accepted
        by_contra hno
        exact hne (h.book.unregistered (Bool.not_eq_true _ ▸ hno)).2.2
  refine ⟨h.ends.of b hother hstays (hself.symm ▸ hline) (fun _ ↦ hself.symm ▸ hsent) (hself.symm ▸ hsend)
    (hself.symm ▸ hreceive), hbook, ⟨fun c k hk ↦ ?_, fun k hk hor ↦ ?_⟩⟩
  · rcases Bool.eq_or_eq_not c b with rfl | rfl
    · rw [hpos] at hk
      cases hk
    · rw [hstays, show s'.wire = s.wire by rw [← hs']; rfl]
      exact (h.ways.reads (!b) k (hstays ▸ hk)).mono (hgrows _) (hgrows _)
  · cases b with
    | true =>
      rw [hpos] at hk
      cases hk
    | false =>
      -- the server has not been given the socket
      rw [hpos] at hor
      have hhanded : s.handed k = false := by
        rw [show s'.handed = s.handed by rw [← hs']; rfl] at hor
        exact hor.resolve_left nofun
      have hnot : (s.pos false).sock ≠ some k := fun hsock ↦
        absurd ((h.book.handed k hsock).symm.trans hhanded) (by decide)
      have haway : Pos.away.sock ≠ some k := nofun
      have hstage := (h.ways.stage k (hstays ▸ hk) (Or.inr hhanded)).elsewhere hnot haway
      rw [hpos, show s'.pos true = s.pos true from hstays, show s'.wire = s.wire by rw [← hs']; rfl]
      exact hstage.mono (hgrows _) (hgrows _) (fun _ ↦ congrArg (fun p : Party ↦ p.q.outSeq) hother) nofun

/-! ## Reading

Each packet has a lemma. Only `readMsg` is about the line; a message that has been seen before is
dropped by its number, and the one after the last seen is the next of the line, since the stretch
begins no later. -/

/-- A side reads at its socket `k`, and stays at this socket. -/
theorem Inv.takes (h : s.Inv) {P : Party} {x : Pos} (hparty : s'.party = Function.update s.party b P)
    (hpos : s'.pos = Function.update s.pos b x) (hx : x.sock = some k)
    (hwire : ∀ c j, j ≠ k → s'.wire c j = s.wire c j) (hhanded : s'.handed = s.handed) (hbook : s'.Book)
    (hline : P.q.InLine) (hle : (s.party b).Le P) (hidle : x.openSock = none → P.q.sent = [])
    (hsend : Party.Flow P (s.party !b)) (hreceive : Party.Flow (s.party !b) P)
    (hreads : Expects (s.party !b) P k x (s'.wire (!b) k))
    (hstage : (s'.pos true).sock = some k → ((s'.pos false).sock = some k ∨ s.handed k = false) →
      Stage (s'.party true) (s'.party false) k (s'.pos true) (s'.pos false) (s'.wire true k)
        (s'.wire false k)) : s'.Inv := by
  have hself : s'.party b = P := by rw [hparty, Function.update_self]
  have hother : s'.party (!b) = s.party (!b) := by rw [hparty, Function.update_of_ne (Bool.not_ne_self b)]
  have hplace : s'.pos b = x := by rw [hpos, Function.update_self]
  have hstays : s'.pos (!b) = s.pos (!b) := by rw [hpos, Function.update_of_ne (Bool.not_ne_self b)]
  have hloc : Local s s' k := by
    refine ⟨fun c ↦ ?_, fun c j hne hj ↦ ?_, fun c j hne hj ↦ ?_, hwire, fun _ _ ↦ by rw [hhanded]⟩ <;>
      rcases Bool.eq_or_eq_not c b with rfl | rfl
    · exact hself.symm ▸ hle
    · exact hother.symm ▸ .refl _
    · rw [hplace, hx] at hj
      exact absurd (Option.some_inj.mp hj).symm hne
    · rw [hother]
    · rw [hplace, hx] at hj
      exact absurd (Option.some_inj.mp hj).symm hne
    · exact hstays
  refine ⟨h.ends.of b hother hstays (hself.symm ▸ hline) (fun hno ↦ ?_) (hself.symm ▸ hsend)
    (hself.symm ▸ hreceive), hbook, h.ways.of_local h.book hloc ?_ ?_ ?_⟩
  · rw [hself]
    exact hidle (hplace ▸ hno)
  · rw [hhanded]
    exact hstage
  · intro htrue hfalse _
    cases b with
    | true => exact hself.symm ▸ hother.symm ▸ hplace.symm ▸ hreads
    | false => exact absurd (hplace.symm ▸ hx) hfalse
  · intro hfalse htrue
    cases b with
    | true => exact absurd (hplace.symm ▸ hx) htrue
    | false => exact hself.symm ▸ hother.symm ▸ hplace.symm ▸ hreads

/-- A side reads a packet of an open session. -/
theorem Inv.readOpen (h : s.Inv) {P : Party} {p : Packet} {rest : List Packet}
    (hopen : s.pos b = .opened k)
    (hp : s.wire (!b) k = p :: rest) (hline : P.q.InLine) (hle : (s.party b).Le P)
    (hout : P.q.outSeq = (s.party b).q.outSeq) (hsend : Party.Flow P (s.party !b))
    (hreceive : Party.Flow (s.party !b) P)
    (hrest : ∀ stop, (s.party !b).Stream (s.party b) stop (p :: rest) → (s.party !b).Stream P stop rest) :
    ((s.setWire (!b) k rest).setParty b P).Inv := by
  have hhanded := h.handed_of_opened hopen
  have hbook : ((s.setWire (!b) k rest).setParty b P).Book := by
    refine (h.book.setWire (h.book.lt_of_handed hhanded) fun _ hno ↦
      absurd (hhanded.symm.trans hno) (by decide)).setParty fun hb hno ↦ ?_
    -- the server has a socket, so it is registered
    have haway := (h.book.unregistered hno).2.2
    rw [← hb, hopen] at haway
    cases haway
  have hreads := h.ways.reads b k (by rw [hopen]; rfl)
  rw [hopen, hp] at hreads
  have hread : ((s.setWire (!b) k rest).setParty b P).wire (!b) k = rest := setWire_self _ _ _ _
  have hkept : ((s.setWire (!b) k rest).setParty b P).wire b k = s.wire b k :=
    setWire_of_ne _ _ _ _ (Bool.self_ne_not b)
  refine h.takes (b := b) (x := .opened k) rfl (hopen ▸ (Function.update_eq_self b s.pos).symm) rfl
    (fun c j hne ↦ setWire_other _ _ _ _ hne) rfl hbook hline hle nofun hsend hreceive ?_ fun hk hor ↦ ?_
  · rw [hread]
    cases hreads with
    | stream hstream => exact .stream (hrest _ hstream)
  · have hstage := h.ways.stage k hk hor
    cases b with
    | true =>
      rw [hopen] at hstage
      rw [show s.wire false k = p :: rest from hp] at hstage
      change Stage _ (s.party false) k (s.pos true) (s.pos false) _ _
      rw [show ((s.setWire (!true) k rest).setParty true P).wire false k = rest from hread, hkept,
        setParty_party_self, hopen]
      exact hstage.clientReads hle hout hrest
    | false =>
      rw [hopen] at hstage
      rw [show s.wire true k = p :: rest from hp] at hstage
      change Stage (s.party true) _ k (s.pos true) (s.pos false) _ _
      rw [show ((s.setWire (!false) k rest).setParty false P).wire true k = rest from hread, hkept,
        setParty_party_self, hopen]
      exact hstage.serverReads hle hout hrest

/-- A message is dispatched, or dropped as an old one. -/
theorem Inv.readMsg (h : s.Inv) {m : Message} {rest : List Packet} (hopen : s.pos b = .opened k)
    (hp : s.wire (!b) k = .msg m :: rest) :
    ((s.setWire (!b) k rest).setParty b ((s.party b).receive m)).Inv := by
  obtain ⟨requeued, fresh, hline⟩ := h.ends.line (!b)
  have hreads := h.ways.reads b k (by rw [hopen]; rfl)
  rw [hopen, hp] at hreads
  obtain ⟨stop, hstream⟩ : ∃ stop, (s.party !b).Stream (s.party b) stop (.msg m :: rest) := by
    cases hreads with
    | stream hstream => exact ⟨_, hstream⟩
  have hflow := h.ends.receives b
  obtain ⟨-, hflow', hle⟩ := hstream.read_msg hflow hline.counts
  have hq : ((s.party b).receive m).q = (s.party b).q := by
    rw [Party.receive]
    split_ifs <;> rfl
  refine h.readOpen hopen hp (hq ▸ h.ends.line b) hle (by rw [hq]) ?_ hflow' fun stop hstream ↦
    (hstream.read_msg hflow hline.counts).1
  have hsend := h.ends.flow b
  refine ⟨?_, ?_, ?_⟩
  · rw [hq]
    exact hsend.received
  · rw [hq]
    exact hsend.inSeq_le
  · rw [hq]
    exact hsend.trimmed

theorem Inv.readAck (h : s.Inv) {n : ℕ} {rest : List Packet} (hopen : s.pos b = .opened k)
    (hp : s.wire (!b) k = .ack n :: rest) :
    ((s.setWire (!b) k rest).setParty b ((s.party b).handleAck n)).Inv := by
  obtain ⟨requeued, fresh, hline⟩ := h.ends.line b
  have hreads := h.ways.reads b k (by rw [hopen]; rfl)
  rw [hopen, hp] at hreads
  -- the other side has received what it acknowledges
  have hn : n ≤ (s.party !b).inSeq := by
    cases hreads with
    | stream hstream => exact hstream.read_ack.1
  obtain ⟨hline', hreleased⟩ := hline.handleAck n
  have hle : (s.party b).Le ((s.party b).handleAck n) := ⟨List.prefix_rfl, le_rfl⟩
  refine h.readOpen hopen hp ⟨_, _, hline'⟩ hle rfl ((h.ends.flow b).mono hle ?_) ((h.ends.receives b).queue _)
    fun stop hstream ↦ (hstream.read_ack.2).mono (.refl _) hle
  exact hreleased.trans (max_le (h.ends.flow b).trimmed hn)

theorem Inv.readRetry (h : s.Inv) {rest : List Packet} (hasking : s.pos true = .asking k)
    (hp : s.wire false k = .retry :: rest) : ((s.setWire false k rest).write true k .connect).Inv := by
  have hreads := h.ways.reads true k (by rw [hasking]; rfl)
  rw [hasking, Bool.not_true, hp] at hreads
  have hrest : rest = [] := by
    cases hreads
    rfl
  have hanswered (hor : (s.pos false).sock = some k ∨ s.handed k = false) :
      s.wire true k = [] ∧ Stage (s.party true) (s.party false) k (.asking k) (s.pos false) [.connect] rest := by
    have hstage := h.ways.stage k (by rw [hasking]; rfl) hor
    rw [hasking, hp] at hstage
    exact hstage.retried
  have hread : ((s.setWire false k rest).write true k .connect).wire false k = rest := by
    rw [write_of_ne _ _ _ _ (by decide), setWire_self]
  have hwrote : ((s.setWire false k rest).write true k .connect).wire true k = s.wire true k ++ [.connect] := by
    rw [write_self, setWire_of_ne _ _ _ _ (by decide)]
  have hk : k < s.count := h.book.dialled k (by rw [hasking]; rfl)
  have hbook : ((s.setWire false k rest).write true k .connect).Book := by
    refine (h.book.setWire hk fun hb ↦ absurd hb (by decide)).setWire hk fun _ hno ↦ Or.inr ?_
    rw [setWire_of_ne _ _ _ _ (by decide), (hanswered (Or.inr hno)).1]
    rfl
  refine h.takes (b := true) (x := .asking k) (Function.update_eq_self true s.party).symm
    (hasking ▸ (Function.update_eq_self true s.pos).symm) rfl (fun c j hne ↦ ?_) rfl hbook (h.ends.line true)
    (.refl _) (fun _ ↦ h.ends.idle true (by rw [hasking]; rfl)) (h.ends.flow true) (h.ends.receives true) ?_
    fun hk hor ↦ ?_
  · rw [write_other _ _ _ _ hne, setWire_other _ _ _ _ hne]
  · rw [Bool.not_true, hread, hrest]
    exact .nothing nofun
  · obtain ⟨hnil, hstage⟩ := hanswered hor
    rw [hread, hwrote, hnil]
    change Stage (s.party true) (s.party false) k (s.pos true) (s.pos false) [.connect] rest
    rw [hasking]
    exact hstage

theorem Inv.readReady (h : s.Inv) {rest : List Packet} (hasking : s.pos true = .asking k)
    (hp : s.wire false k = .ready :: rest) : ((s.setWire false k rest).setPos true (.opened k)).Inv := by
  have hidle := h.ends.idle true (by rw [hasking]; rfl)
  have hreads := h.ways.reads true k (by rw [hasking]; rfl)
  rw [hasking, Bool.not_true, hp] at hreads
  have hread : ((s.setWire false k rest).setPos true (.opened k)).wire false k = rest := by
    rw [setPos_wire, setWire_self]
  have hkept : ((s.setWire false k rest).setPos true (.opened k)).wire true k = s.wire true k := by
    rw [setPos_wire, setWire_of_ne _ _ _ _ (by decide)]
  have hk : k < s.count := h.book.dialled k (by rw [hasking]; rfl)
  have hbook : ((s.setWire false k rest).setPos true (.opened k)).Book := by
    refine (h.book.setWire hk fun hb ↦ absurd hb (by decide)).clientGoes (fun _ ↦ ⟨nofun, nofun⟩) fun j hj ↦ ?_
    rw [← Option.some_inj.mp hj]
    exact hk
  refine h.takes (b := true) (x := .opened k) (Function.update_eq_self true s.party).symm rfl rfl
    (fun c j hne ↦ setWire_other _ _ _ _ hne) rfl hbook (h.ends.line true) (.refl _) nofun (h.ends.flow true)
    (h.ends.receives true) ?_ fun _ hor ↦ ?_
  · rw [Bool.not_true, hread]
    cases hreads with
    | ready hstream => exact .stream hstream
  · have hstage := h.ways.stage k (by rw [hasking]; rfl) hor
    rw [hasking, hp] at hstage
    rw [hread, hkept]
    exact hstage.ready ((h.ends.flow true).stream_nil (h.ends.line true) hidle)

/-- What the server has received is dropped, and the client says what it has received. -/
theorem Inv.readOffer (h : s.Inv) {n : ℕ} {rest : List Packet} (hasking : s.pos true = .asking k)
    (hp : s.wire false k = .seq n :: rest) :
    ((((s.setWire false k rest).setParty true ((s.party true).resume n)).write true k
      (.seq (s.party true).inSeq)).setPos true (.opened k)).Inv := by
  generalize hs' : (((s.setWire false k rest).setParty true ((s.party true).resume n)).write true k
    (.seq (s.party true).inSeq)).setPos true (.opened k) = s'
  have hreads := h.ways.reads true k (by rw [hasking]; rfl)
  rw [hasking, Bool.not_true, hp] at hreads
  obtain ⟨hn, hrest⟩ : n ≤ (s.party false).inSeq ∧ rest = [] := by
    cases hreads with
    | seq hn => exact ⟨hn, rfl⟩
  obtain ⟨hline, hsent, hreleased, hle⟩ :=
    Party.resume_spec (h.ends.line true) (h.ends.idle true (by rw [hasking]; rfl)) n
  have hsend : Party.Flow ((s.party true).resume n) (s.party false) :=
    (h.ends.flow true).mono hle (hreleased.trans (max_le (h.ends.flow true).trimmed hn))
  have hread : s'.wire false k = rest := by
    rw [← hs', setPos_wire, write_of_ne _ _ _ _ (by decide), setParty_wire, setWire_self]
  have hwrote : s'.wire true k = s.wire true k ++ [.seq (s.party true).inSeq] := by
    rw [← hs', setPos_wire, write_self, setParty_wire, setWire_of_ne _ _ _ _ (by decide)]
  have hk : k < s.count := h.book.dialled k (by rw [hasking]; rfl)
  have hbook : s'.Book := by
    rw [← hs']
    have hwire : (s.setWire false k rest).Book := h.book.setWire hk fun hb ↦ absurd hb (by decide)
    have hparty : ((s.setWire false k rest).setParty true ((s.party true).resume n)).Book :=
      hwire.setParty fun hb ↦ absurd hb (by decide)
    refine (hparty.setWire hk fun _ hno ↦ ?_).clientGoes (fun _ ↦ ⟨nofun, nofun⟩) fun j hj ↦ ?_
    · -- the socket has been accepted, or the offer would not be there
      have hstage := h.ways.stage k (by rw [hasking]; rfl) (Or.inr hno)
      rw [hasking, hp] at hstage
      have hsock := hstage.sock_of_offer
      exact absurd ((h.book.handed k hsock).symm.trans hno) (by decide)
    · rw [← Option.some_inj.mp hj]
      exact hk
  refine h.takes (b := true) (P := (s.party true).resume n) (x := .opened k) (by rw [← hs']; rfl) (by rw [← hs']; rfl)
    rfl (fun c j hne ↦ ?_) (by rw [← hs']; rfl) hbook hline hle nofun hsend ((h.ends.receives true).queue _) ?_
    fun _ hor ↦ ?_
  · rw [← hs', setPos_wire, write_other _ _ _ _ hne, setParty_wire, setWire_other _ _ _ _ hne]
  · rw [Bool.not_true, hread, hrest]
    exact .stream (Party.stream_nil (Nat.zero_le _) (Nat.zero_le _))
  · have hfalse : s'.pos false = s.pos false := by rw [← hs']; rfl
    have hstage := h.ways.stage k (by rw [hasking]; rfl) (hfalse ▸ hor)
    rw [hasking, hp] at hstage
    have hself : s'.party true = (s.party true).resume n := by
      rw [← hs', setPos_party, write_party, setParty_party_self]
    have hplace : s'.pos true = .opened k := by rw [← hs', setPos_pos_self]
    rw [hself, hplace, hread, hwrote, show s'.party false = s.party false by rw [← hs']; rfl,
      hfalse]
    exact hstage.offer hle (hsend.stream_nil hline hsent)

/-- The server hears what the client has received. -/
theorem Inv.readAnswer (h : s.Inv) {n : ℕ} {rest : List Packet} (hresuming : s.pos false = .resuming k)
    (hp : s.wire true k = .seq n :: rest) :
    (((s.setWire true k rest).setParty false ((s.party false).resume n)).setPos false (.opened k)).Inv := by
  generalize hs' : ((s.setWire true k rest).setParty false ((s.party false).resume n)).setPos false
    (.opened k) = s'
  have hreads := h.ways.reads false k (by rw [hresuming]; rfl)
  rw [hresuming, Bool.not_false, hp] at hreads
  obtain ⟨hn, stop, hstream⟩ : n ≤ (s.party true).inSeq ∧
      ∃ stop, (s.party true).Stream (s.party false) stop rest := by
    cases hreads with
    | resume hn hstream => exact ⟨hn, _, hstream⟩
  obtain ⟨hline, hsent, hreleased, hle⟩ :=
    Party.resume_spec (h.ends.line false) (h.ends.idle false (by rw [hresuming]; rfl)) n
  have hsend : Party.Flow ((s.party false).resume n) (s.party true) :=
    (h.ends.flow false).mono hle (hreleased.trans (max_le (h.ends.flow false).trimmed hn))
  have hhanded : s.handed k = true := h.book.handed k (by rw [hresuming]; rfl)
  have hread : s'.wire true k = rest := by
    rw [← hs', setPos_wire, setParty_wire, setWire_self]
  have hkept : s'.wire false k = s.wire false k := by
    rw [← hs', setPos_wire, setParty_wire, setWire_of_ne _ _ _ _ (by decide)]
  have hregistered : s.registered = true := by
    by_contra hno
    have haway := (h.book.unregistered (Bool.not_eq_true _ ▸ hno)).2.2
    rw [hresuming] at haway
    cases haway
  have hbook : s'.Book := by
    rw [← hs']
    have hwire : (s.setWire true k rest).Book := h.book.setWire (h.book.lt_of_handed hhanded) fun _ hno ↦
      absurd (hhanded.symm.trans hno) (by decide)
    have hparty : ((s.setWire true k rest).setParty false ((s.party false).resume n)).Book :=
      hwire.setParty fun _ hno ↦ absurd (hregistered.symm.trans hno) (by decide)
    refine hparty.serverGoes (fun _ ↦ nofun) (fun j hj ↦ ?_) hregistered
    rw [← Option.some_inj.mp hj]
    exact hhanded
  refine h.takes (b := false) (P := (s.party false).resume n) (x := .opened k) (by rw [← hs']; rfl)
    (by rw [← hs']; rfl) rfl (fun c j hne ↦ ?_) (by rw [← hs']; rfl) hbook hline hle nofun hsend
    ((h.ends.receives false).queue _) ?_ fun hk hor ↦ ?_
  · rw [← hs', setPos_wire, setParty_wire, setWire_other _ _ _ _ hne]
  · rw [Bool.not_false, hread]
    exact .stream (hstream.mono (.refl _) hle)
  · have hself : s'.party false = (s.party false).resume n := by
      rw [← hs', setPos_party, setParty_party_self]
    have hplace : s'.pos false = .opened k := by rw [← hs', setPos_pos_self]
    have hstays : s'.pos true = s.pos true := by rw [← hs']; rfl
    have hstage := h.ways.stage k (hstays ▸ hk) (Or.inl (by rw [hresuming]; rfl))
    rw [hresuming, hp] at hstage
    rw [hself, hplace, hread, hkept, hstays, show s'.party true = s.party true by rw [← hs']; rfl]
    exact hstage.resumed hle (hsend.stream_nil hline hsent)

/-- What can be read where. -/
theorem Inv.read (h : s.Inv) (hread : s.read b = some s') : s'.Inv := by
  rw [Session.read, Option.bind_eq_some_iff] at hread
  obtain ⟨k, hk, hread⟩ := hread
  split at hread <;> rename_i hp
  · cases hread
  · rename_i p rest
    cases hx : s.pos b with
    | away =>
      rw [hx] at hk
      cases hk
    | asked j =>
      rw [hx] at hread
      cases hread
    | asking j =>
      rw [hx] at hk hread
      obtain rfl := Option.some_inj.mp hk
      -- a server never asks
      have hb : b = true := by
        by_contra hno
        rw [Bool.not_eq_true] at hno
        exact h.book.server j (hno ▸ hx)
      subst hb
      cases p with
      | retry =>
        obtain rfl := Option.some_inj.mp hread
        exact h.readRetry hx hp
      | ready =>
        obtain rfl := Option.some_inj.mp hread
        exact h.readReady hx hp
      | seq n =>
        obtain rfl := Option.some_inj.mp hread
        exact h.readOffer hx hp
      | connect => cases hread
      | msg m => cases hread
      | ack n => cases hread
    | resuming j =>
      rw [hx] at hk hread
      obtain rfl := Option.some_inj.mp hk
      -- a client never resumes
      have hb : b = false := by
        by_contra hno
        rw [Bool.not_eq_false] at hno
        exact (h.book.client j).2 (hno ▸ hx)
      subst hb
      cases p with
      | seq n =>
        obtain rfl := Option.some_inj.mp hread
        exact h.readAnswer hx hp
      | connect => cases hread
      | retry => cases hread
      | ready => cases hread
      | msg m => cases hread
      | ack n => cases hread
    | opened j =>
      rw [hx] at hk hread
      obtain rfl := Option.some_inj.mp hk
      cases p with
      | msg m =>
        obtain rfl := Option.some_inj.mp hread
        exact h.readMsg hx hp
      | ack n =>
        obtain rfl := Option.some_inj.mp hread
        exact h.readAck hx hp
      | connect => cases hread
      | retry => cases hread
      | ready => cases hread
      | seq n => cases hread

/-! ## Every run

`InTurn` is what the callers promise about a message they hand over and how many there are. Without
it messages can change places in `out_q`, or get a number a second time. -/

/-- The promises of the callers: a message is new and not above the highest priority, and fewer than
`2 ^ 32` messages are sent. -/
def InTurn (s : Session) : Event → Prop
  | .queue _ m => m.getSeq = 0 ∧ m.getPriority ≤ prioHighest
  | .send b => (s.party b).q.outSeq + 1 < 2 ^ 32
  | _ => True

theorem Inv.send (h : s.Inv) {m : Message} {p : Party} (hopen : s.pos b = .opened k)
    (hwrap : (s.party b).q.outSeq + 1 < 2 ^ 32) (hsend : (s.party b).send = some (m, p)) :
    ((s.setParty b p).write b k (.msg m)).Inv := by
  rw [Party.send, Option.map_eq_some_iff] at hsend
  obtain ⟨⟨m', q⟩, htransmit, heq⟩ := hsend
  rw [Prod.mk.injEq] at heq
  obtain ⟨rfl, rfl⟩ := heq
  obtain ⟨requeued, fresh, hline⟩ := h.ends.line b
  obtain ⟨hline', hnumbered, hat, houtSeq, hreleased⟩ := hline.transmit hwrap htransmit
  have hle : (s.party b).Le { s.party b with q } := ⟨hnumbered, le_rfl⟩
  refine h.write hopen hline' hle ((h.ends.flow b).mono hle ?_) ((h.ends.receives b).queue q) rfl
    fun ps hstream ↦ ?_
  · rw [show ({ s.party b with q } : Party).q.released = (s.party b).q.released from hreleased]
    exact (h.ends.flow b).trimmed
  · rw [show ({ s.party b with q } : Party).q.outSeq = (s.party b).q.outSeq + 1 from houtSeq]
    exact (hstream.mono hle (.refl _)).snoc_msg hat

theorem Inv.ack (h : s.Inv) (hopen : s.pos b = .opened k) :
    ((s.setParty b { s.party b with inSeqAcked := (s.party b).inSeq }).write b k
      (.ack (s.party b).inSeq)).Inv := by
  have hle : (s.party b).Le { s.party b with inSeqAcked := (s.party b).inSeq } := ⟨List.prefix_rfl, le_rfl⟩
  have hreceive := h.ends.receives b
  refine h.write hopen (h.ends.line b) hle ((h.ends.flow b).mono hle (h.ends.flow b).trimmed)
    ⟨hreceive.received, hreceive.inSeq_le, hreceive.trimmed⟩ rfl fun ps hstream ↦ ?_
  exact (hstream.mono hle (.refl _)).snoc_ack le_rfl

theorem inv_start : ({} : Session).Inv := by
  refine ⟨⟨fun _ ↦ SendQueue.inLine_start, fun _ _ ↦ rfl, fun _ ↦ ⟨rfl, le_rfl, le_rfl⟩⟩,
    ⟨fun _ ↦ ⟨nofun, nofun⟩, fun _ ↦ nofun, fun _ hk ↦ (nomatch hk), fun _ hk ↦ (nomatch hk), fun _ _ ↦ ⟨rfl, fun _ ↦ rfl⟩,
      fun _ _ ↦ Or.inl rfl, fun _ ↦ ⟨fun _ ↦ rfl, rfl, rfl⟩⟩,
    ⟨fun _ _ hk ↦ (nomatch hk), fun _ hk ↦ (nomatch hk)⟩⟩

theorem inv_step {e : Event} (h : s.Inv) (hturn : s.InTurn e) (hstep : s.step e = some s') : s'.Inv := by
  cases e with
  | queue b m =>
    rw [step] at hstep
    split_ifs at hstep
    obtain rfl := Option.some_inj.mp hstep
    exact h.queue hturn.1 hturn.2
  | send b =>
    rw [step, Option.bind_eq_some_iff] at hstep
    obtain ⟨k, hk, hstep⟩ := hstep
    rw [Option.map_eq_some_iff] at hstep
    obtain ⟨⟨m, p⟩, hsend, rfl⟩ := hstep
    exact h.send (sock_of_openSock hk) hturn hsend
  | ack b =>
    rw [step, Option.bind_eq_some_iff] at hstep
    obtain ⟨k, hk, hstep⟩ := hstep
    split_ifs at hstep
    obtain rfl := Option.some_inj.mp hstep
    exact h.ack (sock_of_openSock hk)
  | dial =>
    rw [step] at hstep
    split_ifs at hstep with haway
    obtain rfl := Option.some_inj.mp hstep
    exact h.dial haway
  | refuse k =>
    rw [step, Option.bind_eq_some_iff] at hstep
    obtain ⟨rest, hasks, hstep⟩ := hstep
    split_ifs at hstep with hor
    obtain rfl := Option.some_inj.mp hstep
    exact h.refuse hasks hor
  | accept k =>
    rw [step, Option.bind_eq_some_iff] at hstep
    obtain ⟨rest, hasks, hstep⟩ := hstep
    split_ifs at hstep with hand
    obtain rfl := Option.some_inj.mp hstep
    exact h.accept hasks hand.1 hand.2
  | takeOver k =>
    rw [step, Option.bind_eq_some_iff] at hstep
    obtain ⟨rest, hasks, hstep⟩ := hstep
    split_ifs at hstep with hand
    obtain rfl := Option.some_inj.mp hstep
    exact h.takeOver hasks hand.1 hand.2
  | resume =>
    rw [step] at hstep
    split at hstep <;> rename_i hasked
    · rw [Option.map_eq_some_iff] at hstep
      obtain ⟨rest, hasks, rfl⟩ := hstep
      exact h.resume hasked hasks
    · cases hstep
  | read b => exact h.read hstep
  | fault b =>
    rw [step] at hstep
    split_ifs at hstep with haway
    obtain rfl := Option.some_inj.mp hstep
    exact h.fault haway

/-- On a socket that both have open, with nothing on the way, all that was sent has been seen. -/
theorem Inv.outSeq_le (h : s.Inv) (hopen : s.pos b = .opened k) (hopen' : s.pos (!b) = .opened k)
    (hnil : s.wire b k = []) : (s.party b).q.outSeq ≤ (s.party !b).inSeq := by
  cases b with
  | true =>
    have hstage := h.ways.stage k (by rw [hopen]; rfl) (Or.inl (by rw [show s.pos false = _ from hopen']; rfl))
    rw [hopen, show s.pos false = _ from hopen', hnil] at hstage
    generalize s.wire false k = ss at hstage
    cases hstage with
    | both hc _ => exact hc.stop_le_of_nil
  | false =>
    have hstage := h.ways.stage k (by rw [show s.pos true = _ from hopen']; rfl) (Or.inl (by rw [hopen]; rfl))
    rw [hopen, show s.pos true = _ from hopen', hnil] at hstage
    generalize s.wire true k = cs at hstage
    cases hstage with
    | both _ hs => exact hs.stop_le_of_nil

/-- **Every message is delivered once, and in turn**, over any number of sockets that fail at any
time. What a side has dispatched is a first part of what the other has numbered; what has been
released has been dispatched; what has not been released is still kept, to be sent again; and when
both have a socket open with nothing on the way, all that was sent has been dispatched. -/
theorem exactly_once {es : List Event} (hturn : Run.Meets step InTurn ({} : Session) es)
    (hrun : Run.exec step ({} : Session) es = some s) (b : Bool) :
    SendQueue.Counts 0 (s.party b).q.numbered ∧
      (s.party !b).delivered <+: (s.party b).q.numbered ∧
      (s.party b).q.released <+: (s.party !b).delivered ∧
      (∀ m ∈ (s.party b).q.numbered, m ∈ (s.party b).q.released ∨ m ∈ (s.party b).q.sent ∨
        m ∈ (s.party b).q.outQ.queueAt prioHighest) ∧
      ∀ k, s.pos b = .opened k → s.pos (!b) = .opened k → s.wire b k = [] →
        ∀ m ∈ (s.party b).q.sent, m ∈ (s.party !b).delivered := by
  have h : s.Inv := Run.invariant_of_meets (fun _ _ _ ↦ inv_step) inv_start hturn hrun
  obtain ⟨requeued, fresh, hline⟩ := h.ends.line b
  have hflow := h.ends.flow b
  have hprefix : (s.party b).q.released <+: (s.party b).q.numbered := hline.line ▸ List.prefix_append _ _
  have hdelivered : (s.party !b).delivered <+: (s.party b).q.numbered :=
    hflow.received ▸ List.take_prefix _ _
  refine ⟨hline.counts, hdelivered, ?_, fun m hm ↦ ?_, fun k hopen hopen' hnil m hm ↦ ?_⟩
  · apply List.prefix_of_prefix_length_le hprefix hdelivered
    rw [hflow.received, List.length_take, min_eq_left hflow.inSeq_le]
    exact hflow.trimmed
  · rw [hline.line, List.mem_append, List.mem_append] at hm
    rw [hline.queue]
    exact hm.imp_right (Or.imp_right (List.mem_append_left _))
  · -- what has been sent lies before the second mark
    have hsent : (s.party b).q.numbered.take (s.party b).q.outSeq =
        (s.party b).q.released ++ (s.party b).q.sent := by
      rw [hline.line, hline.outSeq, ← List.append_assoc, ← List.length_append, List.take_left']
      rfl
    rw [hflow.received]
    have hle := h.outSeq_le hopen hopen' hnil
    have hmem : m ∈ (s.party b).q.numbered.take (s.party b).q.outSeq := by
      rw [hsent]
      exact List.mem_append_right _ hm
    exact (List.take_subset_take_left _ hle) hmem

def inTurnTest (s : Session) : Event → Bool
  | .queue _ m => m.getSeq == 0 && decide (m.getPriority ≤ prioHighest)
  | .send b => decide ((s.party b).q.outSeq + 1 < 2 ^ 32)
  | _ => true

theorem inTurn_of_test {e : Event} (h : s.inTurnTest e = true) : s.InTurn e := by
  cases e with
  | queue b m =>
    rw [inTurnTest, Bool.and_eq_true, beq_iff_eq, decide_eq_true_iff] at h
    exact h
  | send b =>
    rw [inTurnTest, decide_eq_true_iff] at h
    exact h
  | _ => trivial

/-- A message arrives, and the client gives the socket up before it hears of it; on the next socket
the server's `in_seq` spares the message a second journey. -/
def lostAck : List Event :=
  [.queue true {}, .dial, .accept 0, .read true, .send true, .read false, .fault true, .dial, .takeOver 1,
    .read true, .resume, .read true, .read false]

theorem exactly_once_lost_ack :
    ∃ s, Run.exec step ({} : Session) lostAck = some s ∧
      (s.party false).delivered <+: (s.party true).q.numbered ∧
      (s.party true).q.released <+: (s.party false).delivered ∧ (s.party true).q.released.length = 1 := by
  have hend : ((Run.exec step ({} : Session) lostAck).any fun s ↦
      decide ((s.party true).q.released.length = 1)) = true := by decide +kernel
  obtain ⟨s, hrun, hs⟩ := (Option.any_eq_true _ _).mp hend
  obtain ⟨-, hdelivered, hreleased, -⟩ :=
    exactly_once (Run.Meets.of_check (fun _ _ ↦ inTurn_of_test) (by decide +kernel)) hrun true
  exact ⟨s, hrun, hdelivered, hreleased, of_decide_eq_true hs⟩

end Session

end AsyncMessenger
