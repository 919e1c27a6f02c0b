import AsyncMessenger.Lib.PrioMap
import AsyncMessenger.Message

/-!
# The send side of a connection

`out_q`, `sent` and `out_seq`, with the operations that move messages between them: queueing,
`_get_next_outgoing`, the numbering done by `_send`, `handle_ack`, `requeue_sent`,
`discard_requeued_up_to` and `discard_out_queue`. `out_q` is a `PrioMap`, as the source has it, and
`sent` a list.

Two history variables, `numbered` and `released`, record what the code itself forgets: the messages
in the order in which they were first numbered, and those that `handle_ack` and
`discard_requeued_up_to` have dropped. No operation reads them.

Loops of the source are recursions on the list they walk through. They return what they have dropped
as well, which is what the history variables record.
-/

namespace AsyncMessenger

/-- The queues of outgoing messages. -/
structure SendQueue where
  outSeq : ℕ := 0
  outQ : PrioMap Message := []
  sent : List Message := []
  /-- History: every message `_send` has numbered for the first time, in that order. -/
  numbered : List Message := []
  /-- History: what `handle_ack` and `discard_requeued_up_to` have dropped, in that order. -/
  released : List Message := []

namespace SendQueue

/-- `out_q[m->get_priority()].push_back(m)`. -/
def push (q : SendQueue) (m : Message) : SendQueue :=
  { q with outQ := q.outQ.pushBack m.getPriority m }

/-- `_get_next_outgoing`. -/
def getNextOutgoing (q : SendQueue) : Option (Message × SendQueue) :=
  q.outQ.popMax.map fun r ↦ (r.1, { q with outQ := r.2 })

/-- The bookkeeping at the start of `_send`: `m->set_seq(++out_seq)`, and the message joins `sent`
unless the channel is lossy. A message that still has the number 0 is numbered for the first
time. -/
def number (q : SendQueue) (lossy : Bool) (m : Message) : Message × SendQueue :=
  let m' := m.setSeq (q.outSeq + 1)
  (m', { q with
    outSeq := q.outSeq + 1
    sent := if lossy then q.sent else q.sent ++ [m']
    numbered := if m.getSeq = 0 then q.numbered ++ [m'] else q.numbered })

/-- The loop of `handle_ack`: the front of `sent` that `seq` acknowledges, and the rest. -/
def ackLoop (seq : ℕ) : List Message → List Message × List Message
  | [] => ([], [])
  | m :: sent =>
    if m.getSeq ≤ seq then
      let (gone, rest) := ackLoop seq sent
      (m :: gone, rest)
    else ([], m :: sent)

/-- `handle_ack`. -/
def handleAck (q : SendQueue) (seq : ℕ) : SendQueue :=
  { q with
    sent := (ackLoop seq q.sent).2
    released := q.released ++ (ackLoop seq q.sent).1 }

/-- The loop of `requeue_sent`, on `sent` read from its back: each message goes to the front of the
highest-priority queue and `out_seq` goes down by one. -/
def requeueLoop : List Message → List Message → ℕ → List Message × ℕ
  | [], rq, outSeq => (rq, outSeq)
  | m :: back, rq, outSeq => requeueLoop back (m :: rq) (outSeq - 1)

/-- `requeue_sent`. -/
def requeueSent (q : SendQueue) : SendQueue :=
  if q.sent = [] then q
  else
    let r := requeueLoop q.sent.reverse (q.outQ.queueAt prioHighest) q.outSeq
    { q with sent := [], outQ := q.outQ.modify (fun _ ↦ r.1) prioHighest, outSeq := r.2 }

/-- The loop of `discard_requeued_up_to`: what it drops from the front, what it leaves, and the new
`out_seq`. It stops at a message that has no number yet or one above `seq`. -/
def discardLoop (seq : ℕ) : List Message → ℕ → List Message × List Message × ℕ
  | [], outSeq => ([], [], outSeq)
  | m :: rq, outSeq =>
    if m.getSeq = 0 ∨ seq < m.getSeq then ([], m :: rq, outSeq)
    else
      let (gone, rest, outSeq') := discardLoop seq rq (outSeq + 1)
      (m :: gone, rest, outSeq')

/-- `discard_requeued_up_to`. -/
def discardRequeuedUpTo (q : SendQueue) (seq : ℕ) : SendQueue :=
  match q.outQ.find? prioHighest with
  | none => q
  | some rq =>
    let r := discardLoop seq rq q.outSeq
    { q with
      outQ := if r.2.1 = [] then q.outQ.eraseKey prioHighest
        else q.outQ.modify (fun _ ↦ r.2.1) prioHighest
      outSeq := r.2.2
      released := q.released ++ r.1 }

/-- `discard_out_queue`, without its `outcoming_bl.clear()`. -/
def discardOutQueue (q : SendQueue) : SendQueue := { q with sent := [], outQ := [] }

end SendQueue

end AsyncMessenger
