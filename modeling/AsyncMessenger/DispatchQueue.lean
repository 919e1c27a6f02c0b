import AsyncMessenger.Lib.PrioMap
import AsyncMessenger.Lib.Run
import AsyncMessenger.Protocol

/-!
# The dispatch queue

`DispatchQueue` over a `FIFOQueue`, with its two threads, the remote connections that put messages
into it and the local connection of the messenger. Entries are queued under a class; stopping a
connection removes the entries of its own class and queues a `D_BAD_RESET`. A remote connection
queues its messages under its `conn_id`. Local messages are queued under class 0, like the codes, so
that stopping the local connection removes nothing.

## Eras

A connection is known here by its `conn_id`. Messages and reset entries carry how often their
connection has been stopped before, which the source does not record; no step reads it. `Clean`
says, in these terms, that no message of an era is dispatched after the reset that ended the era.
The invariant is that what is under way belongs to the current era of its connection, in the queue,
in the hands of a thread or on the list of local messages. A remote connection cannot be stopped
without its class being removed, so it enters its next era with nothing under way. For the local
connection that has to be asked for (`Quiet`).
-/

namespace AsyncMessenger

/-! ## `FIFOQueue`

The queue looks at neither priority nor cost, except that the strict ones come first; all that
matters here is which entries it has. -/

/-- `FIFOQueue`: strict queues by priority, and one for the rest. Every entry has a class. -/
structure FifoQueue (α : Type) where
  high : PrioMap (ℕ × α) := []
  low : List (ℕ × α) := []

namespace FifoQueue

variable {α : Type}

/-- `enqueue_strict`. -/
def enqueueStrict (q : FifoQueue α) (cl priority : ℕ) (item : α) : FifoQueue α :=
  { q with high := q.high.pushBack priority (cl, item) }

/-- `enqueue`: neither the priority nor the cost is looked at. -/
def enqueue (q : FifoQueue α) (cl : ℕ) (item : α) : FifoQueue α := { q with low := q.low ++ [(cl, item)] }

/-- The entries. -/
def entries (q : FifoQueue α) : List (ℕ × α) := q.high.elements ++ q.low

/-- `remove_by_class`: what is left. Queues that become empty are erased. -/
def removeByClass (q : FifoQueue α) (cl : ℕ) : FifoQueue α where
  high := (q.high.map fun x ↦ (x.1, x.2.filter fun e ↦ e.1 ≠ cl)).filter fun x ↦ x.2 ≠ []
  low := q.low.filter fun e ↦ e.1 ≠ cl

/-- `remove_by_class`: the entries it removes. -/
def removed (q : FifoQueue α) (cl : ℕ) : List (ℕ × α) := q.entries.filter fun e ↦ e.1 = cl

/-- `dequeue`; `none` if the queue is empty. -/
def dequeue (q : FifoQueue α) : Option (α × FifoQueue α) :=
  match q.high.popMax with
  | some (e, high) => some (e.2, { q with high })
  | none => match q.low with
    | [] => none
    | e :: low => some (e.2, { high := [], low })

theorem mem_entries_enqueueStrict {q : FifoQueue α} {cl priority : ℕ} {item : α} {e : ℕ × α}
    (h : e ∈ (q.enqueueStrict cl priority item).entries) : e = (cl, item) ∨ e ∈ q.entries := by
  rw [entries, List.mem_append] at h ⊢
  rcases h with h | h
  · exact (PrioMap.mem_elements_pushBack h).imp_right Or.inl
  · exact Or.inr (Or.inr h)

theorem mem_entries_enqueue {q : FifoQueue α} {cl : ℕ} {item : α} {e : ℕ × α}
    (h : e ∈ (q.enqueue cl item).entries) : e = (cl, item) ∨ e ∈ q.entries := by
  rw [entries, enqueue, ← List.append_assoc] at h
  exact (List.mem_append.mp h).elim Or.inr fun h ↦ Or.inl (List.mem_singleton.mp h)

theorem mem_entries_removeByClass {q : FifoQueue α} {cl : ℕ} {e : ℕ × α}
    (h : e ∈ (q.removeByClass cl).entries) : e ∈ q.entries ∧ e.1 ≠ cl := by
  rw [entries, List.mem_append] at h ⊢
  rcases h with h | h
  · obtain ⟨x, hx, he⟩ := List.mem_flatMap.mp h
    obtain ⟨y, hy, rfl⟩ := List.mem_map.mp (List.mem_of_mem_filter hx)
    obtain ⟨he, hne⟩ := List.mem_filter.mp he
    exact ⟨Or.inl (List.mem_flatMap.mpr ⟨y, hy, he⟩), of_decide_eq_true hne⟩
  · obtain ⟨he, hne⟩ := List.mem_filter.mp h
    exact ⟨Or.inr he, of_decide_eq_true hne⟩

theorem mem_entries_dequeue {q q' : FifoQueue α} {item : α} (h : q.dequeue = some (item, q')) :
    (∃ cl, (cl, item) ∈ q.entries) ∧ ∀ e ∈ q'.entries, e ∈ q.entries := by
  rw [dequeue] at h
  split at h
  · rename_i e high hpop
    rw [Option.some_inj, Prod.mk.injEq] at h
    obtain ⟨rfl, rfl⟩ := h
    obtain ⟨hmem, hsub⟩ := PrioMap.mem_elements_popMax hpop
    refine ⟨⟨e.1, List.mem_append_left _ hmem⟩, fun f hf ↦ ?_⟩
    exact List.mem_append.mpr ((List.mem_append.mp hf).imp_left (hsub f))
  · split at h
    · exact absurd h (by simp)
    · rename_i e low hlow
      rw [Option.some_inj, Prod.mk.injEq] at h
      obtain ⟨rfl, rfl⟩ := h
      have hsub : ∀ f ∈ e :: low, f ∈ q.entries := fun f hf ↦
        List.mem_append_right _ (hlow ▸ hf)
      exact ⟨⟨e.1, hsub e List.mem_cons_self⟩, fun f hf ↦ hsub f (List.mem_cons_of_mem e hf)⟩

end FifoQueue

/-! ## `DispatchQueue`

The functions of the queue, the connections that call them, and the two threads that serve it. -/

/-- A message, with the connection it belongs to and how often that had been stopped when the message was
sent or received. -/
structure QueuedMsg where
  conn : ℕ
  era : ℕ
  deriving DecidableEq, Repr

/-- The codes of the queue. -/
inductive DispatchCode
  | connect
  | accept
  | badRemoteReset
  | badReset
  deriving DecidableEq, Repr

/-- `QueueItem`. A code carries how often its connection has been stopped, the stop that queued it
included. -/
inductive QueueItem
  | message (m : QueuedMsg)
  | code (c : DispatchCode) (conn era : ℕ)
  deriving DecidableEq, Repr

/-- `MSGR_MSG_PRIO_LOW`. -/
def prioLow : ℕ := 64

/-- The `conn_id` of the local connection, the first one that `get_id` returns. -/
def localConn : ℕ := 1

/-- What has come out of the queue. -/
inductive Dispatched
  /-- A `D_BAD_RESET` was taken from the queue. -/
  | reset (conn era : ℕ)
  /-- A message from the queue was dispatched. -/
  | message (m : QueuedMsg)
  deriving DecidableEq, Repr

/-- The dispatch queue of a messenger, the connections that use it and what it has dispatched. -/
structure Dispatcher where
  mqueue : FifoQueue QueueItem := {}
  /-- `next_pipe_id`. -/
  nextPipeId : ℕ := 2
  /-- The remote connections that are closed. -/
  closed : ℕ → Bool := fun _ ↦ false
  /-- `shutdown` of the local connection. -/
  shutdown : Bool := false
  /-- `local_messages_`, with the priorities. -/
  localMessages : List (QueuedMsg × ℕ) := []
  /-- What the local delivery thread has taken from it and not passed on yet. -/
  delivering : Option (QueuedMsg × ℕ) := none
  /-- What the dispatch thread has taken from the queue and not handled yet. -/
  inHand : Option QueueItem := none
  /-- `stop_`. -/
  stop : Bool := false
  /-- How often each connection has been stopped. -/
  eras : ℕ → ℕ := fun _ ↦ 0
  log : List Dispatched := []

/-- What the threads do. -/
inductive DispatchEvent
  /-- A remote connection is made. -/
  | newConn
  /-- A remote connection has read a message and queues it. -/
  | arrive (conn priority : ℕ)
  /-- A remote connection queues a code: a handshake is complete. -/
  | queueCode (c : DispatchCode) (conn : ℕ)
  /-- `was_session_reset` of a remote connection. -/
  | sessionReset (conn : ℕ)
  /-- `_stop` of a remote connection, and whether it is to queue a reset. -/
  | stopConn (conn : ℕ) (queueReset : Bool)
  /-- `send_message` of the local connection. -/
  | sendLocal (priority : ℕ)
  /-- The local delivery thread takes a message. -/
  | takeLocal
  /-- It passes the message on, or dispatches it fast. -/
  | deliverLocal (fast : Bool)
  /-- `stop` of the local connection. -/
  | stopLocal
  /-- `init_local_connection`. -/
  | initLocal
  /-- The dispatch thread takes an entry from the queue. -/
  | take
  /-- It handles the entry. -/
  | handle
  /-- `shutdown`, once the local delivery thread has ended. -/
  | shutdown
  /-- `wait`, once the dispatch thread has ended. -/
  | wait

namespace Dispatcher

/-- `enqueue`. -/
def enqueue (s : Dispatcher) (m : QueuedMsg) (priority id : ℕ) : Dispatcher :=
  { s with
    mqueue := if prioLow ≤ priority then s.mqueue.enqueueStrict id priority (.message m)
      else s.mqueue.enqueue id (.message m) }

/-- `queue_connect`, `queue_accept`, `queue_remote_reset` and `queue_reset`. -/
def queueCode (s : Dispatcher) (c : DispatchCode) (conn : ℕ) : Dispatcher :=
  if s.stop then s
  else { s with mqueue := s.mqueue.enqueueStrict 0 prioHighest (.code c conn (s.eras conn)) }

/-- `discard_queue`; `none` is the failed assertion that no code is discarded. -/
def discardQueue (s : Dispatcher) (id : ℕ) : Option Dispatcher :=
  if (s.mqueue.removed id).all fun e ↦ e.2 matches .message _ then
    some { s with mqueue := s.mqueue.removeByClass id }
  else none

/-- The connection has been stopped once more. -/
def nextEra (s : Dispatcher) (conn : ℕ) : Dispatcher :=
  { s with eras := Function.update s.eras conn (s.eras conn + 1) }

/-- A remote connection that can still act. -/
def live (s : Dispatcher) (conn : ℕ) : Bool :=
  localConn < conn && conn < s.nextPipeId && !s.closed conn

/-- One step. -/
def step (s : Dispatcher) : DispatchEvent → Option Dispatcher
  | .newConn => some { s with nextPipeId := s.nextPipeId + 1 }
  | .arrive conn priority =>
    if s.live conn then some (s.enqueue ⟨conn, s.eras conn⟩ priority conn) else none
  | .queueCode c conn =>
    if s.live conn ∧ c ≠ .badReset then some (s.queueCode c conn) else none
  | .sessionReset conn =>
    if s.live conn then (s.discardQueue conn).map fun s ↦ s.queueCode .badRemoteReset conn else none
  | .stopConn conn queueReset =>
    if s.live conn then
      (s.discardQueue conn).map fun s ↦
        let s := { s.nextEra conn with closed := Function.update s.closed conn true }
        if queueReset then s.queueCode .badReset conn else s
    else none
  | .sendLocal priority =>
    if s.shutdown then some s
    else some { s with localMessages := s.localMessages ++ [(⟨localConn, s.eras localConn⟩, priority)] }
  | .takeLocal => match s.delivering, s.localMessages with
    | none, x :: xs => some { s with localMessages := xs, delivering := some x }
    | _, _ => none
  | .deliverLocal fast => match s.delivering with
    | none => none
    | some x =>
      some (if fast then { s with delivering := none }
        else { s with delivering := none }.enqueue x.1 x.2 0)
  | .stopLocal =>
    if s.shutdown then some s
    else (({ s with shutdown := true } : Dispatcher).discardQueue localConn).map fun s ↦
      (s.nextEra localConn).queueCode .badReset localConn
  | .initLocal => some { s with shutdown := false }
  | .take => match s.inHand with
    | some _ => none
    | none => s.mqueue.dequeue.map fun x ↦
      { s with
        mqueue := x.2
        inHand := some x.1
        log := match x.1 with
          | .code .badReset conn era => s.log ++ [.reset conn era]
          | _ => s.log }
  | .handle => s.inHand.map fun item ↦
      { s with
        inHand := none
        log := match item with
          | .message m => if s.stop then s.log else s.log ++ [.message m]
          | .code .. => s.log }
  | .shutdown =>
    if s.localMessages = [] ∧ s.delivering = none then some { s with stop := true } else none
  | .wait =>
    if s.stop = true ∧ s.inHand = none ∧ s.mqueue.entries = [] then some { s with stop := false }
    else none

/-- After the reset that a stop has queued was taken, no message from before the stop is dispatched. -/
def Clean (log : List Dispatched) : Prop :=
  log.Pairwise fun a b ↦ match a, b with
    | .reset conn era, .message m => m.conn = conn → era ≤ m.era
    | _, _ => True

/-- The messages that may still reach the dispatch thread. -/
def Waiting (s : Dispatcher) (m : QueuedMsg) : Prop :=
  (∃ id, (id, QueueItem.message m) ∈ s.mqueue.entries) ∨ (∃ priority, (m, priority) ∈ s.localMessages) ∨
    ∃ priority, s.delivering = some (m, priority)

/-- The local connection is stopped only when none of its messages is under way. -/
def Quiet (s : Dispatcher) : DispatchEvent → Prop
  | .stopLocal => s.shutdown = true ∨ ∀ m, s.Waiting m → m.conn ≠ localConn
  | _ => True

/-! ## The invariant

One lemma for each thing that may happen to the messages under way: one more, of the current era;
some less; all of a class gone; one taken, and one handled. -/

/-- What is under way belongs to the current era of its connection. -/
structure Inv (s : Dispatcher) : Prop where
  /-- Remote messages are queued under the `conn_id` of their connection. -/
  keyed : ∀ id m, (id, QueueItem.message m) ∈ s.mqueue.entries → m.conn = localConn ∨ id = m.conn
  locals : ∀ x ∈ s.localMessages, x.1.conn = localConn
  delivering : ∀ x, s.delivering = some x → x.1.conn = localConn
  waiting : ∀ m, s.Waiting m → m.era = s.eras m.conn
  code : ∀ id c conn era, (id, QueueItem.code c conn era) ∈ s.mqueue.entries → era ≤ s.eras conn
  logged : ∀ conn era, Dispatched.reset conn era ∈ s.log → era ≤ s.eras conn
  /-- The message in hand is not behind any reset that was taken before it. -/
  inHand : ∀ m, s.inHand = some (.message m) → ∀ era, Dispatched.reset m.conn era ∈ s.log → era ≤ m.era
  clean : Clean s.log

variable {s s' : Dispatcher}

theorem inv_init : Inv {} where
  keyed _ _ h := absurd h List.not_mem_nil
  locals _ h := absurd h List.not_mem_nil
  delivering _ h := absurd h (by simp)
  waiting m h := by
    rcases h with ⟨_, h⟩ | ⟨_, h⟩ | ⟨_, h⟩
    · exact absurd h List.not_mem_nil
    · exact absurd h List.not_mem_nil
    · exact absurd h (by simp)
  code _ _ _ _ h := absurd h List.not_mem_nil
  logged _ _ h := absurd h List.not_mem_nil
  inHand _ h := absurd h (by simp)
  clean := List.Pairwise.nil

/-- Less may be under way. -/
theorem Inv.shrink (h : s.Inv) (hentries : ∀ e ∈ s'.mqueue.entries, e ∈ s.mqueue.entries)
    (hlocal : ∀ x ∈ s'.localMessages, x ∈ s.localMessages)
    (hdelivering : ∀ x, s'.delivering = some x → x.1.conn = localConn ∧ s.Waiting x.1)
    (heras : s'.eras = s.eras) (hlog : s'.log = s.log) (hhand : s'.inHand = s.inHand) : s'.Inv where
  keyed id m he := h.keyed id m (hentries _ he)
  locals x hx := h.locals x (hlocal x hx)
  delivering x hx := (hdelivering x hx).1
  waiting m hm := by
    rw [heras]
    apply h.waiting m
    rcases hm with ⟨id, he⟩ | ⟨p, hp⟩ | ⟨p, hp⟩
    · exact Or.inl ⟨id, hentries _ he⟩
    · exact Or.inr (Or.inl ⟨p, hlocal _ hp⟩)
    · exact (hdelivering _ hp).2
  code id c conn era he := by
    rw [heras]
    exact h.code id c conn era (hentries _ he)
  logged conn era hmem := by
    rw [heras]
    exact h.logged conn era (hlog ▸ hmem)
  inHand m hm era hmem := h.inHand m (hhand ▸ hm) era (hlog ▸ hmem)
  clean := hlog ▸ h.clean

/-- A message of the current era is queued, under the right class. -/
theorem Inv.enqueue (h : s.Inv) {m : QueuedMsg} {priority id : ℕ} (hera : m.era = s.eras m.conn)
    (hid : m.conn = localConn ∨ id = m.conn) : (s.enqueue m priority id).Inv := by
  have hentries : ∀ e ∈ (s.enqueue m priority id).mqueue.entries,
      e = (id, .message m) ∨ e ∈ s.mqueue.entries := by
    intro e he
    simp only [Dispatcher.enqueue] at he
    split_ifs at he
    · exact FifoQueue.mem_entries_enqueueStrict he
    · exact FifoQueue.mem_entries_enqueue he
  refine ⟨fun id' m' he ↦ ?_, h.locals, h.delivering, fun m' hm' ↦ ?_, fun id' c conn era he ↦ ?_,
    h.logged, h.inHand, h.clean⟩
  · rcases hentries _ he with heq | he
    · simp only [Prod.mk.injEq, QueueItem.message.injEq] at heq
      rw [heq.1, heq.2]
      exact hid
    · exact h.keyed id' m' he
  · rcases hm' with ⟨id', he⟩ | hm'
    · rcases hentries _ he with heq | he
      · simp only [Prod.mk.injEq, QueueItem.message.injEq] at heq
        rw [heq.2]
        exact hera
      · exact h.waiting m' (Or.inl ⟨id', he⟩)
    · exact h.waiting m' (Or.inr hm')
  · rcases hentries _ he with heq | he
    · exact absurd heq (by simp)
    · exact h.code id' c conn era he

theorem Inv.queueCode (h : s.Inv) (c : DispatchCode) (conn : ℕ) : (s.queueCode c conn).Inv := by
  rw [Dispatcher.queueCode]
  split_ifs
  · exact h
  refine ⟨fun id m he ↦ ?_, h.locals, h.delivering, fun m hm ↦ ?_, fun id c' conn' era he ↦ ?_,
    h.logged, h.inHand, h.clean⟩
  · rcases FifoQueue.mem_entries_enqueueStrict he with heq | he
    · exact absurd heq (by simp)
    · exact h.keyed id m he
  · rcases hm with ⟨id, he⟩ | hm
    · rcases FifoQueue.mem_entries_enqueueStrict he with heq | he
      · exact absurd heq (by simp)
      · exact h.waiting m (Or.inl ⟨id, he⟩)
    · exact h.waiting m (Or.inr hm)
  · rcases FifoQueue.mem_entries_enqueueStrict he with heq | he
    · simp only [Prod.mk.injEq, QueueItem.code.injEq] at heq
      obtain ⟨-, -, rfl, rfl⟩ := heq
      exact Nat.le_refl _
    · exact h.code id c' conn' era he

/-- The entries of a class are gone. -/
theorem Inv.discardQueue {id : ℕ} (h : s.Inv) (hs' : s.discardQueue id = some s') :
    s'.Inv ∧ s'.eras = s.eras ∧ ∀ m, s'.Waiting m → s.Waiting m ∧
      ((∃ id', id' ≠ id ∧ (id', QueueItem.message m) ∈ s.mqueue.entries) ∨ m.conn = localConn) := by
  rw [Dispatcher.discardQueue, Option.ite_none_right_eq_some, Option.some_inj] at hs'
  obtain ⟨-, rfl⟩ := hs'
  refine ⟨h.shrink (fun e he ↦ (FifoQueue.mem_entries_removeByClass he).1) (fun _ hx ↦ hx)
    (fun x hx ↦ ⟨h.delivering x hx, Or.inr (Or.inr ⟨x.2, hx⟩)⟩) rfl rfl rfl, rfl, fun m hm ↦ ?_⟩
  rcases hm with ⟨id', he⟩ | ⟨p, hp⟩ | ⟨p, hp⟩
  · obtain ⟨he, hne⟩ := FifoQueue.mem_entries_removeByClass he
    exact ⟨Or.inl ⟨id', he⟩, Or.inl ⟨id', hne, he⟩⟩
  · exact ⟨Or.inr (Or.inl ⟨p, hp⟩), Or.inr (h.locals _ hp)⟩
  · exact ⟨Or.inr (Or.inr ⟨p, hp⟩), Or.inr (h.delivering _ hp)⟩

/-- A connection enters its next era when none of its messages is under way. -/
theorem Inv.nextEra {conn : ℕ} (h : s.Inv) (hnone : ∀ m, s.Waiting m → m.conn ≠ conn) :
    (s.nextEra conn).Inv := by
  have hle (k : ℕ) : s.eras k ≤ (s.nextEra conn).eras k := by
    simp only [Dispatcher.nextEra, Function.update_apply]
    split_ifs with hk
    · rw [hk]
      exact Nat.le_succ _
    · exact Nat.le_refl _
  refine ⟨h.keyed, h.locals, h.delivering, fun m hm ↦ ?_, fun id c k era he ↦
    Nat.le_trans (h.code id c k era he) (hle k), fun k era hmem ↦
    Nat.le_trans (h.logged k era hmem) (hle k), h.inHand, h.clean⟩
  rw [h.waiting m hm]
  exact (Function.update_of_ne (hnone m hm) _ _).symm

/-- The dispatch thread takes an entry. -/
theorem Inv.take (h : s.Inv) (hs' : s.step .take = some s') : s'.Inv := by
  rw [step] at hs'
  split at hs'
  · exact absurd hs' (by simp)
  rw [Option.map_eq_some_iff] at hs'
  obtain ⟨⟨item, q⟩, hq, rfl⟩ := hs'
  obtain ⟨⟨cl, hmem⟩, hsub⟩ := FifoQueue.mem_entries_dequeue hq
  have hwaiting {m : QueuedMsg} (hm : (∃ id, (id, QueueItem.message m) ∈ q.entries) ∨
      (∃ p, (m, p) ∈ s.localMessages) ∨ ∃ p, s.delivering = some (m, p)) : m.era = s.eras m.conn :=
    h.waiting m (hm.imp_left fun ⟨id, he⟩ ↦ ⟨id, hsub _ he⟩)
  cases item with
  | message m =>
    refine ⟨fun id m' he ↦ h.keyed id m' (hsub _ he), h.locals, h.delivering, fun _ ↦ hwaiting,
      fun id c conn era he ↦ h.code id c conn era (hsub _ he), h.logged, fun m' hm' era hera ↦ ?_,
      h.clean⟩
    -- a reset taken before is of the current era at most
    have heq : m = m' := by simpa using hm'
    rw [← heq] at hera ⊢
    rw [h.waiting m (Or.inl ⟨cl, hmem⟩)]
    exact h.logged m.conn era hera
  | code c conn era =>
    have hhand : ∀ m, some (QueueItem.code c conn era) = some (.message m) → False := by simp
    cases c with
    | badReset =>
      refine ⟨fun id m' he ↦ h.keyed id m' (hsub _ he), h.locals, h.delivering, fun _ ↦ hwaiting,
        fun id c conn era he ↦ h.code id c conn era (hsub _ he), fun conn' era' hera ↦ ?_,
        fun m hm ↦ (hhand m hm).elim, ?_⟩
      · rcases List.mem_append.mp hera with hera | hera
        · exact h.logged conn' era' hera
        · have heq := List.mem_singleton.mp hera
          simp only [Dispatched.reset.injEq] at heq
          rw [heq.1, heq.2]
          exact h.code cl .badReset conn era hmem
      · refine List.pairwise_append.mpr ⟨h.clean, List.pairwise_singleton _ _, fun a _ b hb ↦ ?_⟩
        rw [List.mem_singleton.mp hb]
        cases a <;> trivial
    | _ =>
      exact ⟨fun id m' he ↦ h.keyed id m' (hsub _ he), h.locals, h.delivering, fun _ ↦ hwaiting,
        fun id c conn era he ↦ h.code id c conn era (hsub _ he), h.logged,
        fun m hm ↦ (hhand m hm).elim, h.clean⟩

/-- The dispatch thread handles the entry. -/
theorem Inv.handle (h : s.Inv) (hs' : s.step .handle = some s') : s'.Inv := by
  rw [step, Option.map_eq_some_iff] at hs'
  obtain ⟨item, hitem, rfl⟩ := hs'
  have hquiet : Inv { s with inHand := none } :=
    ⟨h.keyed, h.locals, h.delivering, h.waiting, h.code, h.logged, fun _ hm ↦ absurd hm (by simp),
      h.clean⟩
  cases item with
  | code c conn era => exact hquiet
  | message m =>
    dsimp only
    split_ifs
    · exact hquiet
    refine ⟨h.keyed, h.locals, h.delivering, h.waiting, h.code, fun conn era hmem ↦ ?_,
      fun _ hm ↦ absurd hm (by simp), ?_⟩
    · rcases List.mem_append.mp hmem with hmem | hmem
      · exact h.logged conn era hmem
      · exact absurd (List.mem_singleton.mp hmem) (by simp)
    · refine List.pairwise_append.mpr ⟨h.clean, List.pairwise_singleton _ _, fun a ha b hb ↦ ?_⟩
      rw [List.mem_singleton.mp hb]
      cases a with
      | message _ => trivial
      | reset conn era =>
        intro hconn
        exact h.inHand m hitem era (hconn ▸ ha)

/-- Nothing changes that the invariant speaks of. -/
theorem Inv.same (h : s.Inv) (hentries : s'.mqueue = s.mqueue)
    (hlocal : s'.localMessages = s.localMessages) (hdelivering : s'.delivering = s.delivering)
    (heras : s'.eras = s.eras) (hlog : s'.log = s.log) (hhand : s'.inHand = s.inHand) : s'.Inv :=
  h.shrink (fun _ he ↦ hentries ▸ he) (fun _ hx ↦ hlocal ▸ hx)
    (fun x hx ↦ ⟨h.delivering x (hdelivering ▸ hx), Or.inr (Or.inr ⟨x.2, hdelivering ▸ hx⟩)⟩)
    heras hlog hhand

/-- A remote connection is stopped: with its class none of its messages is under way any more. -/
theorem Inv.stopConn {conn : ℕ} {queueReset : Bool} (h : s.Inv)
    (hs' : s.step (.stopConn conn queueReset) = some s') : s'.Inv := by
  rw [Dispatcher.step, Option.ite_none_right_eq_some, Option.map_eq_some_iff] at hs'
  obtain ⟨hlive, t, ht, rfl⟩ := hs'
  simp only [live, Bool.and_eq_true, decide_eq_true_eq] at hlive
  obtain ⟨hinv, -, hwaiting⟩ := h.discardQueue ht
  -- the connection has queued its messages under its own class only
  have hnone : ∀ m, t.Waiting m → m.conn ≠ conn := by
    intro m hm heq
    obtain ⟨-, ⟨id', hne, he⟩ | hlocal⟩ := hwaiting m hm
    · rcases h.keyed id' m he with hlocal | hid
      · exact absurd (hlocal.symm.trans heq) (Nat.ne_of_lt hlive.1.1)
      · exact hne (hid.trans heq)
    · exact absurd (hlocal.symm.trans heq) (Nat.ne_of_lt hlive.1.1)
  have hnext := hinv.nextEra hnone
  have hclosed : Inv { t.nextEra conn with closed := Function.update t.closed conn true } :=
    ⟨hnext.keyed, hnext.locals, hnext.delivering, hnext.waiting, hnext.code, hnext.logged,
      hnext.inHand, hnext.clean⟩
  dsimp only
  split_ifs
  · exact hclosed.queueCode _ conn
  · exact hclosed

/-- A local message waits behind the others. -/
theorem Inv.sendLocal {priority : ℕ} (h : s.Inv) (hs' : s.step (.sendLocal priority) = some s') :
    s'.Inv := by
  rw [Dispatcher.step] at hs'
  split_ifs at hs'
  · rw [Option.some_inj] at hs'
    exact hs' ▸ h
  · rw [Option.some_inj] at hs'
    subst hs'
    refine ⟨h.keyed, fun x hx ↦ ?_, h.delivering, fun m hm ↦ ?_, h.code, h.logged, h.inHand, h.clean⟩
    · rcases List.mem_append.mp hx with hx | hx
      · exact h.locals x hx
      · rw [List.mem_singleton.mp hx]
    · rcases hm with hm | ⟨p, hp⟩ | hm
      · exact h.waiting m (Or.inl hm)
      · rcases List.mem_append.mp hp with hp | hp
        · exact h.waiting m (Or.inr (Or.inl ⟨p, hp⟩))
        · -- the new message is of the current era
          have heq := List.mem_singleton.mp hp
          rw [Prod.mk.injEq] at heq
          rw [heq.1]
      · exact h.waiting m (Or.inr (Or.inr hm))

theorem Inv.takeLocal (h : s.Inv) (hs' : s.step .takeLocal = some s') : s'.Inv := by
  rw [Dispatcher.step] at hs'
  split at hs'
  · rename_i x xs _ hx
    rw [Option.some_inj] at hs'
    subst hs'
    have hmem : x ∈ s.localMessages := by simp [hx]
    refine h.shrink (fun _ he ↦ he) (fun y hy ↦ ?_) (fun y hy ↦ ?_) rfl rfl rfl
    · rw [hx]
      exact List.mem_cons_of_mem x hy
    · rw [← Option.some_inj.mp hy]
      exact ⟨h.locals x hmem, Or.inr (Or.inl ⟨x.2, hmem⟩)⟩
  · exact absurd hs' (by simp)

/-- The local delivery thread dispatches a message, or puts it into the queue under class 0. -/
theorem Inv.deliverLocal {fast : Bool} (h : s.Inv) (hs' : s.step (.deliverLocal fast) = some s') :
    s'.Inv := by
  rw [Dispatcher.step] at hs'
  split at hs'
  · exact absurd hs' (by simp)
  · rename_i x hx
    rw [Option.some_inj] at hs'
    have hdone : Inv { s with delivering := none } :=
      h.shrink (fun _ he ↦ he) (fun _ hy ↦ hy) (fun _ hy ↦ absurd hy (by simp)) rfl rfl rfl
    cases fast with
    | true => exact hs' ▸ hdone
    | false =>
      rw [← hs']
      exact hdone.enqueue (h.waiting x.1 (Or.inr (Or.inr ⟨x.2, hx⟩))) (Or.inl (h.delivering x hx))

/-- The local connection is stopped: its class has none of its messages, so none may be under way. -/
theorem Inv.stopLocal (h : s.Inv) (hquiet : s.Quiet .stopLocal) (hs' : s.step .stopLocal = some s') :
    s'.Inv := by
  rw [Dispatcher.step] at hs'
  split_ifs at hs' with hshut
  · rw [Option.some_inj] at hs'
    exact hs' ▸ h
  · rw [Option.map_eq_some_iff] at hs'
    obtain ⟨t, ht, rfl⟩ := hs'
    have hstart : Inv { s with shutdown := true } := h.same rfl rfl rfl rfl rfl rfl
    obtain ⟨hinv, -, hwaiting⟩ := hstart.discardQueue ht
    refine (hinv.nextEra fun m hm ↦ ?_).queueCode _ _
    exact (hquiet.resolve_left hshut) m (hwaiting m hm).1

theorem Inv.step {e : DispatchEvent} (h : s.Inv) (hquiet : s.Quiet e) (hs' : s.step e = some s') :
    s'.Inv := by
  cases e with
  | newConn =>
    rw [Dispatcher.step, Option.some_inj] at hs'
    subst hs'
    exact h.same rfl rfl rfl rfl rfl rfl
  | arrive conn priority =>
    rw [Dispatcher.step, Option.ite_none_right_eq_some, Option.some_inj] at hs'
    exact hs'.2 ▸ h.enqueue rfl (Or.inr rfl)
  | queueCode c conn =>
    rw [Dispatcher.step, Option.ite_none_right_eq_some, Option.some_inj] at hs'
    exact hs'.2 ▸ h.queueCode c conn
  | sessionReset conn =>
    rw [Dispatcher.step, Option.ite_none_right_eq_some, Option.map_eq_some_iff] at hs'
    obtain ⟨-, t, ht, rfl⟩ := hs'
    exact (h.discardQueue ht).1.queueCode _ conn
  | stopConn conn queueReset => exact h.stopConn hs'
  | sendLocal priority => exact h.sendLocal hs'
  | takeLocal => exact h.takeLocal hs'
  | deliverLocal fast => exact h.deliverLocal hs'
  | stopLocal => exact h.stopLocal hquiet hs'
  | initLocal =>
    rw [Dispatcher.step, Option.some_inj] at hs'
    subst hs'
    exact h.same rfl rfl rfl rfl rfl rfl
  | take => exact h.take hs'
  | handle => exact h.handle hs'
  | shutdown =>
    rw [Dispatcher.step, Option.ite_none_right_eq_some, Option.some_inj] at hs'
    obtain ⟨-, rfl⟩ := hs'
    exact h.same rfl rfl rfl rfl rfl rfl
  | wait =>
    rw [Dispatcher.step, Option.ite_none_right_eq_some, Option.some_inj] at hs'
    obtain ⟨-, rfl⟩ := hs'
    exact h.same rfl rfl rfl rfl rfl rfl

/-- **Nothing is dispatched after a reset**, in every state of every run in which the local connection is
stopped only when none of its messages is under way. -/
theorem clean_of_quiet {es : List DispatchEvent} (hquiet : Run.Meets step Quiet {} es)
    (hrun : Run.exec step {} es = some s) : Clean s.log :=
  (Run.invariant_of_meets (fun _ _ _ h hC hs ↦ Inv.step h hC hs) inv_init hquiet hrun).clean

/-- `Quiet` can be seen if nothing at all is under way. -/
def idle (s : Dispatcher) : DispatchEvent → Bool
  | .stopLocal => s.mqueue.entries.isEmpty && s.localMessages.isEmpty && s.delivering.isNone
  | _ => true

theorem quiet_of_idle (s : Dispatcher) (e : DispatchEvent) (h : s.idle e = true) : s.Quiet e := by
  cases e with
  | stopLocal =>
    simp only [idle, Bool.and_eq_true, List.isEmpty_iff, Option.isNone_iff_eq_none] at h
    refine Or.inr fun m hm ↦ ?_
    rcases hm with ⟨_, hm⟩ | ⟨_, hm⟩ | ⟨_, hm⟩
    · exact absurd (h.1.1 ▸ hm) List.not_mem_nil
    · exact absurd (h.1.2 ▸ hm) List.not_mem_nil
    · exact absurd (h.2.symm.trans hm) (by simp)
  | _ => trivial

/-- A remote connection is stopped with a message in the queue, and the local one after its message has
been dispatched. -/
theorem clean_of_quiet_both :
    ∃ s, Run.exec step {} [.newConn, .arrive 2 127, .sendLocal 127, .takeLocal, .deliverLocal false,
        .stopConn 2 true, .take, .handle, .take, .handle, .stopLocal, .take, .handle] = some s ∧
      s.log = [.reset 2 1, .message ⟨1, 0⟩, .reset 1 1] ∧ Clean s.log := by
  have hend : (Run.exec step {} [.newConn, .arrive 2 127, .sendLocal 127, .takeLocal,
      .deliverLocal false, .stopConn 2 true, .take, .handle, .take, .handle, .stopLocal, .take,
      .handle]).map Dispatcher.log = some [.reset 2 1, .message ⟨1, 0⟩, .reset 1 1] := by
    decide +kernel
  obtain ⟨s, hs, hlog⟩ := Option.map_eq_some_iff.mp hend
  exact ⟨s, hs, hlog, clean_of_quiet (Run.Meets.of_check quiet_of_idle (by decide +kernel)) hs⟩

/-- A local message is in the queue when the local connection is stopped. The reset is taken first, then
the message is dispatched. -/
theorem local_message_after_reset :
    ∃ s, Run.exec step {} [.sendLocal 127, .takeLocal, .deliverLocal false, .stopLocal, .take, .handle,
        .take, .handle] = some s ∧
      s.log = [.reset 1 1, .message ⟨1, 0⟩] ∧ ¬Clean s.log := by
  have hend : (Run.exec step {} [.sendLocal 127, .takeLocal, .deliverLocal false, .stopLocal, .take,
      .handle, .take, .handle]).map Dispatcher.log = some [.reset 1 1, .message ⟨1, 0⟩] := by
    decide +kernel
  obtain ⟨s, hs, hlog⟩ := Option.map_eq_some_iff.mp hend
  refine ⟨s, hs, hlog, fun hclean ↦ ?_⟩
  rw [hlog, Clean, List.pairwise_cons] at hclean
  have hera := hclean.1 (.message ⟨1, 0⟩) (List.mem_singleton.mpr rfl) rfl
  exact absurd hera (by decide)

end Dispatcher

end AsyncMessenger
