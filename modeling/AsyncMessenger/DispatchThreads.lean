import AsyncMessenger.ArrivalIndex
import AsyncMessenger.Lib.Progress

/-!
# The threads of the dispatch queue

Two threads serve a dispatch queue. The local delivery thread takes the messages that the messenger
sends to itself, and dispatches them fast or puts them into the queue; the dispatch thread empties
the queue. Each of them looks at its list under a lock, gives the lock up for what it has found, and
goes to sleep on a condition variable when it finds nothing. Whoever adds to a list wakes the
thread, but only if the list was empty before.

## Shutdown

`shutdown` ends the local delivery thread first, and joins it; then it sets `stop_`, after which the
dispatch thread still goes through the queue, without dispatching the messages. `wait` joins the
dispatch thread.

## Steps

A step is what a thread does while it holds a lock, or between two holds. A thread that sleeps may
wake up without a signal. The invariant has the place of each thread: it sleeps only while its list
is empty and it is not to end, and what it has in hand belongs to the books. Who empties a list does
not signal, and who fills one signals only if it was empty, so a signal might be lost; that none is
lost is the last section, where the threads are left to themselves.
-/

namespace AsyncMessenger

/-- Where the dispatch thread is. -/
inductive DispatchPos
  | unstarted
  /-- About to look at the queue. -/
  | looking
  | handling (item : IndexedItem)
  /-- In `cond_.Wait`; `woken` says that it has been signalled. -/
  | waiting (woken : Bool)
  | ended
  deriving DecidableEq

/-- Where the local delivery thread is. -/
inductive LocalPos
  | unstarted
  | looking
  | delivering (m : ℕ) (priority : ℤ)
  | waiting (woken : Bool)
  | ended
  deriving DecidableEq

namespace DispatchPos

/-- `cond_.Signal()`. -/
def signal : DispatchPos → DispatchPos
  | .waiting _ => .waiting true
  | p => p

/-- Where the thread goes if the queue is empty. -/
def rest (stop : Bool) : DispatchPos := if stop then .ended else .waiting false

/-- The item in hand. -/
def held : DispatchPos → List IndexedItem
  | .handling item => [item]
  | _ => []

end DispatchPos

namespace LocalPos

/-- `local_delivery_cond_.Signal()`. -/
def signal : LocalPos → LocalPos
  | .waiting _ => .waiting true
  | p => p

/-- Where the thread goes if the list is empty. -/
def rest (stop : Bool) : LocalPos := if stop then .ended else .waiting false

/-- The message in hand. -/
def held : LocalPos → List ℕ
  | .delivering m _ => [m]
  | _ => []

end LocalPos

/-- The dispatch queue with its threads. -/
structure DispatchThreads where
  mqueue : FifoQueue IndexedItem := {}
  /-- `stop_`. -/
  stop : Bool := false
  dispatch : DispatchPos := .unstarted
  /-- `local_messages_`. -/
  localMessages : List (ℕ × ℤ) := []
  /-- `stop_local_delivery_`, which is set as long as `shutdown` joins the thread. -/
  stopLocalDelivery : Bool := false
  localDelivery : LocalPos := .unstarted
  /-- History: what was put into the queue, -/
  came : List IndexedItem := []
  /-- what the dispatch thread has delivered, -/
  delivered : List IndexedItem := []
  /-- and the messages that were only released. -/
  dropped : List IndexedItem := []
  /-- History: the messages of `local_delivery`, -/
  sent : List ℕ := []
  /-- and those that the local delivery thread has passed on. -/
  passed : List ℕ := []

namespace DispatchThreads

/-- What happens. -/
inductive Event
  | enqueue (m : ℕ) (priority : ℤ) (id : ℕ)
  /-- `queue_connect`, `queue_accept`, `queue_remote_reset` and `queue_reset`. -/
  | queueCode (c : DispatchCode) (con : ℕ)
  | discardQueue (id : ℕ)
  | localDelivery (m : ℕ) (priority : ℤ)
  /-- The next move of the dispatch thread. -/
  | dispatch
  /-- The next move of the local delivery thread; `fast` is what `can_fast_dispatch` says. -/
  | deliver (fast : Bool)
  /-- A thread wakes up without a signal. -/
  | wakeDispatch
  | wakeLocal
  | start
  /-- `shutdown`, until it joins the local delivery thread. -/
  | shutdown
  /-- It has joined the thread. -/
  | joined
  | wait

variable (s : DispatchThreads)

/-- `enqueue`. -/
def enqueue (m : ℕ) (priority : ℤ) (id : ℕ) : DispatchThreads :=
  { s with
    dispatch := if s.mqueue.empty then s.dispatch.signal else s.dispatch
    mqueue := if prioLow ≤ priority then s.mqueue.enqueueStrict id priority.toNat (.message m)
      else s.mqueue.enqueue id (.message m)
    came := s.came ++ [.message m] }

/-- `queue_connect`, `queue_accept`, `queue_remote_reset` and `queue_reset`. -/
def queueCode (c : DispatchCode) (con : ℕ) : DispatchThreads :=
  if s.stop then s
  else { s with
    mqueue := s.mqueue.enqueueStrict 0 prioHighest (.code c con)
    dispatch := s.dispatch.signal
    came := s.came ++ [.code c con] }

/-- `discard_queue`; `none` is its failed assertion. -/
def discardQueue (id : ℕ) : Option DispatchThreads :=
  let (mqueue, removed) := s.mqueue.removeByClassOut id []
  if removed.all fun item ↦ item.message?.isSome then
    some { s with mqueue, dropped := s.dropped ++ removed }
  else none

/-- `local_delivery`. -/
def deliverLocally (m : ℕ) (priority : ℤ) : DispatchThreads :=
  { s with
    localDelivery := if s.localMessages = [] then s.localDelivery.signal else s.localDelivery
    localMessages := s.localMessages ++ [(m, priority)]
    sent := s.sent ++ [m] }

/-- The dispatch thread is done with what it has in hand. -/
def handle (item : IndexedItem) : DispatchThreads :=
  if s.stop && item.message?.isSome then { s with dispatch := .looking, dropped := s.dropped ++ [item] }
  else { s with dispatch := .looking, delivered := s.delivered ++ [item] }

/-- `entry`; `none` if the thread is not there, or sleeps. -/
def entry : Option DispatchThreads :=
  match s.dispatch with
  | .looking =>
    if s.mqueue.empty then some { s with dispatch := .rest s.stop }
    else s.mqueue.dequeueAssert.map fun r ↦ { s with mqueue := r.2, dispatch := .handling r.1 }
  | .handling item => some (s.handle item)
  | .waiting true => some { s with dispatch := .looking }
  | _ => none

/-- `run_local_delivery`. -/
def runLocalDelivery (fast : Bool) : Option DispatchThreads :=
  match s.localDelivery with
  | .looking => match s.localMessages with
    | [] => some { s with localDelivery := .rest s.stopLocalDelivery }
    | (m, priority) :: rest => some { s with localMessages := rest, localDelivery := .delivering m priority }
  | .delivering m priority =>
    let s : DispatchThreads := { s with localDelivery := .looking, passed := s.passed ++ [m] }
    some (if fast then s else s.enqueue m priority 0)
  | .waiting true => some { s with localDelivery := .looking }
  | _ => none

/-- One step; `none` if it is not possible, or an assertion fails. -/
def step : Event → Option DispatchThreads
  | .enqueue m priority id => some (s.enqueue m priority id)
  | .queueCode c con => some (s.queueCode c con)
  | .discardQueue id => s.discardQueue id
  | .localDelivery m priority => some (s.deliverLocally m priority)
  | .dispatch => s.entry
  | .deliver fast => s.runLocalDelivery fast
  | .wakeDispatch => some { s with dispatch := s.dispatch.signal }
  | .wakeLocal => some { s with localDelivery := s.localDelivery.signal }
  | .start =>
    if s.stop = false ∧ s.dispatch = .unstarted ∧ s.localDelivery = .unstarted then
      some { s with dispatch := .looking, localDelivery := .looking }
    else none
  | .shutdown =>
    if s.stopLocalDelivery = false ∧ s.localDelivery ≠ .unstarted then
      some { s with stopLocalDelivery := true, localDelivery := s.localDelivery.signal }
    else none
  | .joined =>
    if s.stopLocalDelivery = true ∧ s.localDelivery = .ended then
      some { s with
        localDelivery := .unstarted
        stopLocalDelivery := false
        stop := true
        dispatch := s.dispatch.signal }
    else none
  | .wait =>
    if s.dispatch = .ended then some { s with dispatch := .unstarted, stop := false } else none

/-- What stands in the queue. -/
def queued : List IndexedItem := s.mqueue.entries.map Prod.snd

/-- A thread sleeps only while its list is empty and it is not to end; nothing is lost; and the
threads are started and ended together. -/
structure Inv : Prop where
  holds : ∃ l, s.mqueue.Holds l
  accounts : s.came.Perm (s.delivered ++ s.dropped ++ (s.dispatch.held ++ s.queued))
  locals : s.sent = s.passed ++ (s.localDelivery.held ++ s.localMessages.map Prod.fst)
  awake : s.dispatch = .waiting false → s.mqueue.empty = true ∧ s.stop = false
  awakeLocal : s.localDelivery = .waiting false → s.localMessages = [] ∧ s.stopLocalDelivery = false
  stopped : s.dispatch = .ended → s.stop = true
  alive : s.localDelivery ≠ .unstarted → s.stop = false ∧ s.dispatch ≠ .unstarted
  begun : s.stopLocalDelivery = true → s.localDelivery ≠ .unstarted

variable {s} {s' : DispatchThreads}

theorem held_signal (p : DispatchPos) : p.signal.held = p.held := by
  cases p <;> rfl

theorem signal_ne_waiting (p : DispatchPos) : p.signal ≠ .waiting false := by
  cases p <;> simp [DispatchPos.signal]

theorem signal_eq_ended {p : DispatchPos} : p.signal = .ended ↔ p = .ended := by
  cases p <;> simp [DispatchPos.signal]

theorem signal_eq_unstarted {p : DispatchPos} : p.signal = .unstarted ↔ p = .unstarted := by
  cases p <;> simp [DispatchPos.signal]

theorem localHeld_signal (p : LocalPos) : p.signal.held = p.held := by
  cases p <;> rfl

theorem localSignal_ne_waiting (p : LocalPos) : p.signal ≠ .waiting false := by
  cases p <;> simp [LocalPos.signal]

theorem localSignal_eq_unstarted {p : LocalPos} : p.signal = .unstarted ↔ p = .unstarted := by
  cases p <;> simp [LocalPos.signal]

theorem inv_start : ({} : DispatchThreads).Inv where
  holds := ⟨[], FifoQueue.holds_nil⟩
  accounts := .refl _
  locals := rfl
  awake := nofun
  awakeLocal := nofun
  stopped := nofun
  alive h := absurd rfl h
  begun := nofun

/-- Something is put into the queue, and the dispatch thread is signalled if it might sleep. -/
theorem Inv.put (h : s.Inv) {a : Arrival (ℕ × IndexedItem)} {q : FifoQueue IndexedItem} {p : DispatchPos}
    (hq : ∀ l, s.mqueue.Holds l → q.Holds (l ++ [a]))
    (hp : p = s.dispatch.signal ∨ p = s.dispatch ∧ s.mqueue.empty = false) :
    ({ s with dispatch := p, mqueue := q, came := s.came ++ [a.entry.2] } : DispatchThreads).Inv := by
  obtain ⟨l, hl⟩ := h.holds
  have hheld : p.held = s.dispatch.held := by
    rcases hp with rfl | ⟨rfl, -⟩
    · exact held_signal _
    · rfl
  refine ⟨⟨_, hq l hl⟩, ?_, h.locals, fun hw ↦ ?_, h.awakeLocal, fun he ↦ ?_, fun hs ↦ ?_, h.begun⟩
  · -- what came is in the queue, wherever its priority has put it
    have hqueued : (q.entries.map Prod.snd).Perm (s.queued ++ [a.entry.2]) := by
      have hperm := (hl.perm_append (hq l hl)).map Prod.snd
      rw [List.map_append] at hperm
      exact hperm
    change (s.came ++ [a.entry.2]).Perm (s.delivered ++ s.dropped ++ (p.held ++ q.entries.map Prod.snd))
    rw [hheld]
    refine (h.accounts.append_right _).trans ?_
    rw [List.append_assoc (s.delivered ++ s.dropped), List.append_assoc s.dispatch.held]
    exact (hqueued.symm.append_left _).append_left _
  · -- without a signal the queue was not empty, so the thread did not sleep
    rcases hp with rfl | ⟨rfl, hne⟩
    · exact absurd hw (signal_ne_waiting _)
    · exact absurd ((h.awake hw).1.symm.trans hne) (by decide)
  · apply h.stopped
    rcases hp with rfl | ⟨rfl, -⟩
    · exact signal_eq_ended.mp he
    · exact he
  · refine ⟨(h.alive hs).1, fun hu ↦ (h.alive hs).2 ?_⟩
    rcases hp with rfl | ⟨rfl, -⟩
    · exact signal_eq_unstarted.mp hu
    · exact hu

theorem Inv.enqueue (h : s.Inv) (m : ℕ) (priority : ℤ) (id : ℕ) : (s.enqueue m priority id).Inv := by
  have hp : (if s.mqueue.empty then s.dispatch.signal else s.dispatch) = s.dispatch.signal ∨
      (if s.mqueue.empty then s.dispatch.signal else s.dispatch) = s.dispatch ∧ s.mqueue.empty = false := by
    cases hempty : s.mqueue.empty
    · exact Or.inr ⟨rfl, rfl⟩
    · exact Or.inl rfl
  by_cases hprio : (prioLow : ℤ) ≤ priority
  · rw [DispatchThreads.enqueue, if_pos hprio]
    exact h.put (a := ⟨some priority.toNat, (id, .message m)⟩) (fun l hl ↦ hl.enqueueStrict id _ _) hp
  · rw [DispatchThreads.enqueue, if_neg hprio]
    exact h.put (a := ⟨none, (id, .message m)⟩) (fun l hl ↦ hl.enqueue id _) hp

theorem Inv.queueCode (h : s.Inv) (c : DispatchCode) (con : ℕ) : (s.queueCode c con).Inv := by
  rw [DispatchThreads.queueCode]
  split_ifs
  · exact h
  · exact h.put (a := ⟨some prioHighest, (0, .code c con)⟩) (fun l hl ↦ hl.enqueueStrict 0 _ _) (Or.inl rfl)

theorem Inv.discardQueue {id : ℕ} (h : s.Inv) (hstep : s.discardQueue id = some s') : s'.Inv := by
  obtain ⟨l, hl⟩ := h.holds
  rw [DispatchThreads.discardQueue, FifoQueue.removeByClassOut_eq] at hstep
  dsimp only at hstep
  split_ifs at hstep
  obtain rfl := Option.some_inj.mp hstep
  have hl' := hl.removeByClass id
  refine ⟨⟨_, hl'⟩, ?_, h.locals, fun hw ↦ ⟨?_, (h.awake hw).2⟩, h.awakeLocal, h.stopped, h.alive, h.begun⟩
  · have hsplit : (((s.mqueue.removed id).map Prod.snd) ++ (s.mqueue.removeByClass id).entries.map Prod.snd).Perm
        s.queued := by
      rw [← List.map_append, FifoQueue.entries_removeByClass, FifoQueue.removed]
      apply List.Perm.map _
      have hnot : (fun e : ℕ × IndexedItem ↦ decide (e.1 ≠ id)) = fun e ↦ !decide (e.1 = id) := by
        funext e
        exact decide_not
      rw [hnot]
      exact List.filter_append_perm _ _
    refine h.accounts.trans (List.perm_iff_count.mpr fun x ↦ ?_)
    have hcount := hsplit.count_eq x
    simp only [List.count_append] at hcount
    change _ = List.count x (s.delivered ++ (s.dropped ++ ((s.mqueue.removed id).map Prod.snd ++ [])) ++
      (s.dispatch.held ++ (s.mqueue.removeByClass id).entries.map Prod.snd))
    simp only [List.count_append, List.count_nil]
    omega
  · have hnil := hl.empty_eq.mp (h.awake hw).1
    rw [hnil] at hl'
    exact hl'.empty_eq.mpr rfl

theorem Inv.deliverLocally (h : s.Inv) (m : ℕ) (priority : ℤ) : (s.deliverLocally m priority).Inv := by
  have hheld : (if s.localMessages = [] then s.localDelivery.signal else s.localDelivery).held =
      s.localDelivery.held := by
    split_ifs
    · exact localHeld_signal _
    · rfl
  have hunstarted (hu : (if s.localMessages = [] then s.localDelivery.signal else s.localDelivery) ≠ .unstarted) :
      s.localDelivery ≠ .unstarted := fun heq ↦ hu (by split_ifs <;> simp [heq, LocalPos.signal])
  refine ⟨h.holds, h.accounts, ?_, h.awake, fun hw ↦ ?_, h.stopped, fun hs ↦ h.alive (hunstarted hs), ?_⟩
  · change s.sent ++ [m] = s.passed ++ ((if s.localMessages = [] then s.localDelivery.signal else
      s.localDelivery).held ++ (s.localMessages ++ [(m, priority)]).map Prod.fst)
    rw [hheld, h.locals, List.map_append, List.append_assoc, List.append_assoc]
    rfl
  · change (if s.localMessages = [] then s.localDelivery.signal else s.localDelivery) = .waiting false at hw
    split_ifs at hw with hnil
    · exact absurd hw (localSignal_ne_waiting _)
    · exact absurd (h.awakeLocal hw).1 hnil
  · intro hb heq
    change (if s.localMessages = [] then s.localDelivery.signal else s.localDelivery) = .unstarted at heq
    apply h.begun hb
    split_ifs at heq
    · exact localSignal_eq_unstarted.mp heq
    · exact heq

theorem held_rest (stop : Bool) : (DispatchPos.rest stop).held = [] := by
  cases stop <;> rfl

theorem rest_ne_unstarted (stop : Bool) : DispatchPos.rest stop ≠ .unstarted := by
  cases stop <;> nofun

theorem rest_eq_waiting {stop : Bool} : DispatchPos.rest stop = .waiting false ↔ stop = false := by
  cases stop <;> simp [DispatchPos.rest]

theorem rest_eq_ended {stop : Bool} : DispatchPos.rest stop = .ended ↔ stop = true := by
  cases stop <;> simp [DispatchPos.rest]

theorem localHeld_rest (stop : Bool) : (LocalPos.rest stop).held = [] := by
  cases stop <;> rfl

theorem localRest_ne_unstarted (stop : Bool) : LocalPos.rest stop ≠ .unstarted := by
  cases stop <;> nofun

theorem localRest_eq_waiting {stop : Bool} : LocalPos.rest stop = .waiting false ↔ stop = false := by
  cases stop <;> simp [LocalPos.rest]

/-- What the dispatch thread can do next. -/
theorem entry_cases (h : s.Inv) (hstep : s.entry = some s') :
    (s.dispatch = .looking ∧ s.mqueue.empty = true ∧
      s' = { s with dispatch := .rest s.stop }) ∨
    (∃ e q, s.dispatch = .looking ∧ s.mqueue.entries = e :: q.entries ∧ (∃ l, q.Holds l) ∧
      s' = { s with mqueue := q, dispatch := .handling e.2 }) ∨
    (∃ item, s.dispatch = .handling item ∧ s' = s.handle item) ∨
    s.dispatch = .waiting true ∧ s' = { s with dispatch := .looking } := by
  rw [entry] at hstep
  split at hstep <;> rename_i hpos
  · by_cases hempty : s.mqueue.empty = true
    · rw [if_pos hempty] at hstep
      exact Or.inl ⟨hpos, hempty, (Option.some_inj.mp hstep).symm⟩
    · rw [if_neg hempty] at hstep
      obtain ⟨l, hl⟩ := h.holds
      obtain ⟨a, l', q, -, hdequeue, hentries, hl'⟩ := hl.dequeue fun hnil ↦ hempty (hl.empty_eq.mpr hnil)
      rw [hdequeue] at hstep
      exact Or.inr (Or.inl ⟨a.entry, q, hpos, hentries, ⟨l', hl'⟩, (Option.some_inj.mp hstep).symm⟩)
  · exact Or.inr (Or.inr (Or.inl ⟨_, hpos, (Option.some_inj.mp hstep).symm⟩))
  · exact Or.inr (Or.inr (Or.inr ⟨hpos, (Option.some_inj.mp hstep).symm⟩))
  · cases hstep

/-- The dispatch thread moves, and nothing else changes. -/
theorem Inv.move (h : s.Inv) {p : DispatchPos} (hheld : p.held = s.dispatch.held) (hp : p ≠ .unstarted)
    (hawake : p = .waiting false → s.mqueue.empty = true ∧ s.stop = false) (hended : p = .ended → s.stop = true) :
    ({ s with dispatch := p } : DispatchThreads).Inv := by
  have haccounts := h.accounts
  rw [← hheld] at haccounts
  exact ⟨h.holds, haccounts, h.locals, hawake, h.awakeLocal, hended, fun hs ↦ ⟨(h.alive hs).1, hp⟩, h.begun⟩

theorem Inv.handle (h : s.Inv) {item : IndexedItem} (hpos : s.dispatch = .handling item) :
    (s.handle item).Inv := by
  have haccounts := h.accounts
  rw [hpos] at haccounts
  rw [DispatchThreads.handle]
  split_ifs
  · -- after `stop_` the item is released
    refine ⟨h.holds, haccounts.trans (List.perm_iff_count.mpr fun x ↦ ?_), h.locals, nofun, h.awakeLocal, nofun,
      fun hs ↦ ⟨(h.alive hs).1, nofun⟩, h.begun⟩
    change List.count x (s.delivered ++ s.dropped ++ ([item] ++ s.queued)) =
      List.count x (s.delivered ++ (s.dropped ++ [item]) ++ ([] ++ s.queued))
    simp only [List.count_append, List.count_nil]
    omega
  · refine ⟨h.holds, haccounts.trans (List.perm_iff_count.mpr fun x ↦ ?_), h.locals, nofun, h.awakeLocal, nofun,
      fun hs ↦ ⟨(h.alive hs).1, nofun⟩, h.begun⟩
    change List.count x (s.delivered ++ s.dropped ++ ([item] ++ s.queued)) =
      List.count x (s.delivered ++ [item] ++ s.dropped ++ ([] ++ s.queued))
    simp only [List.count_append, List.count_nil]
    omega

theorem Inv.entry (h : s.Inv) (hstep : s.entry = some s') : s'.Inv := by
  rcases entry_cases h hstep with ⟨hpos, hempty, rfl⟩ | ⟨e, q, hpos, hentries, hq, rfl⟩ | ⟨item, hpos, rfl⟩ |
    ⟨hpos, rfl⟩
  · -- the queue is empty: the thread goes to sleep, or it ends
    have hheld : (DispatchPos.rest s.stop).held = s.dispatch.held := by
      rw [hpos]
      exact held_rest s.stop
    exact h.move hheld (rest_ne_unstarted _) (fun hw ↦ ⟨hempty, rest_eq_waiting.mp hw⟩) rest_eq_ended.mp
  · -- the oldest item is in hand
    have haccounts := h.accounts
    rw [hpos, queued, hentries, List.map_cons] at haccounts
    exact ⟨hq, haccounts, h.locals, nofun, h.awakeLocal, nofun, fun hs ↦ ⟨(h.alive hs).1, nofun⟩, h.begun⟩
  · exact h.handle hpos
  · exact h.move (p := .looking) (by rw [hpos]; rfl) nofun nofun nofun

/-- What the local delivery thread can do next. -/
theorem runLocalDelivery_cases {fast : Bool} (hstep : s.runLocalDelivery fast = some s') :
    (s.localDelivery = .looking ∧ s.localMessages = [] ∧
      s' = { s with localDelivery := .rest s.stopLocalDelivery }) ∨
    (∃ m priority rest, s.localDelivery = .looking ∧ s.localMessages = (m, priority) :: rest ∧
      s' = { s with localMessages := rest, localDelivery := .delivering m priority }) ∨
    (∃ m priority, s.localDelivery = .delivering m priority ∧
      s' = if fast then { s with localDelivery := .looking, passed := s.passed ++ [m] }
        else ({ s with localDelivery := .looking, passed := s.passed ++ [m] } : DispatchThreads).enqueue m
          priority 0) ∨
    s.localDelivery = .waiting true ∧ s' = { s with localDelivery := .looking } := by
  rw [runLocalDelivery] at hstep
  split at hstep <;> rename_i hpos
  · split at hstep <;> rename_i hmessages
    · exact Or.inl ⟨hpos, hmessages, (Option.some_inj.mp hstep).symm⟩
    · exact Or.inr (Or.inl ⟨_, _, _, hpos, hmessages, (Option.some_inj.mp hstep).symm⟩)
  · exact Or.inr (Or.inr (Or.inl ⟨_, _, hpos, (Option.some_inj.mp hstep).symm⟩))
  · exact Or.inr (Or.inr (Or.inr ⟨hpos, (Option.some_inj.mp hstep).symm⟩))
  · cases hstep

theorem Inv.runLocalDelivery (h : s.Inv) {fast : Bool} (hstep : s.runLocalDelivery fast = some s') :
    s'.Inv := by
  have hlocals := h.locals
  rcases runLocalDelivery_cases hstep with ⟨hpos, hmessages, rfl⟩ | ⟨m, priority, rest, hpos, hmessages, rfl⟩ |
    ⟨m, priority, hpos, rfl⟩ | ⟨hpos, rfl⟩
  · -- the list is empty: the thread goes to sleep, or it ends
    have halive := h.alive (hpos ▸ nofun)
    have hheld : LocalPos.looking.held = (LocalPos.rest s.stopLocalDelivery).held :=
      (localHeld_rest s.stopLocalDelivery).symm
    rw [hpos, hheld] at hlocals
    exact ⟨h.holds, h.accounts, hlocals, h.awake, fun hw ↦ ⟨hmessages, localRest_eq_waiting.mp hw⟩, h.stopped,
      fun _ ↦ halive, fun _ ↦ localRest_ne_unstarted _⟩
  · rw [hpos, hmessages] at hlocals
    exact ⟨h.holds, h.accounts, hlocals, h.awake, nofun, h.stopped, fun _ ↦ h.alive (hpos ▸ nofun), fun _ ↦ nofun⟩
  · -- the message has been passed on, to the dispatcher or to the queue
    have hpassed : ({ s with localDelivery := .looking, passed := s.passed ++ [m] } : DispatchThreads).Inv := by
      rw [hpos] at hlocals
      refine ⟨h.holds, h.accounts, ?_, h.awake, nofun, h.stopped, fun _ ↦ h.alive (hpos ▸ nofun), fun _ ↦ nofun⟩
      rw [hlocals]
      simp [LocalPos.held]
    cases fast with
    | true => exact hpassed
    | false => exact hpassed.enqueue m priority 0
  · rw [hpos] at hlocals
    exact ⟨h.holds, h.accounts, hlocals, h.awake, nofun, h.stopped, fun _ ↦ h.alive (hpos ▸ nofun), fun _ ↦ nofun⟩

/-- `shutdown` and `wait`, and the threads that wake up for nothing. -/
theorem Inv.signal (h : s.Inv) : ({ s with dispatch := s.dispatch.signal } : DispatchThreads).Inv := by
  have haccounts := h.accounts
  rw [← held_signal] at haccounts
  exact ⟨h.holds, haccounts, h.locals, fun hw ↦ absurd hw (signal_ne_waiting _), h.awakeLocal,
    fun he ↦ h.stopped (signal_eq_ended.mp he),
    fun hs ↦ ⟨(h.alive hs).1, fun hu ↦ (h.alive hs).2 (signal_eq_unstarted.mp hu)⟩, h.begun⟩

theorem Inv.localSignal (h : s.Inv) (stopLocalDelivery : Bool)
    (hstop : stopLocalDelivery = true → s.localDelivery ≠ .unstarted) :
    ({ s with stopLocalDelivery, localDelivery := s.localDelivery.signal } : DispatchThreads).Inv := by
  have hlocals := h.locals
  rw [← localHeld_signal] at hlocals
  exact ⟨h.holds, h.accounts, hlocals, h.awake, fun hw ↦ absurd hw (localSignal_ne_waiting _), h.stopped,
    fun hs ↦ h.alive fun hu ↦ hs (localSignal_eq_unstarted.mpr hu),
    fun hb hu ↦ hstop hb (localSignal_eq_unstarted.mp hu)⟩

theorem Inv.joined (h : s.Inv) (hended : s.localDelivery = .ended) :
    ({ s with
      localDelivery := .unstarted
      stopLocalDelivery := false
      stop := true
      dispatch := s.dispatch.signal } : DispatchThreads).Inv := by
  have haccounts := h.accounts
  have hlocals := h.locals
  rw [← held_signal] at haccounts
  rw [hended] at hlocals
  exact ⟨h.holds, haccounts, hlocals, fun hw ↦ absurd hw (signal_ne_waiting _), nofun, fun _ ↦ rfl,
    fun hs ↦ absurd rfl hs, nofun⟩

theorem inv_step {e : Event} (h : s.Inv) (hstep : s.step e = some s') : s'.Inv := by
  cases e with
  | enqueue m priority id =>
    obtain rfl := Option.some_inj.mp hstep
    exact h.enqueue m priority id
  | queueCode c con =>
    obtain rfl := Option.some_inj.mp hstep
    exact h.queueCode c con
  | discardQueue id => exact h.discardQueue hstep
  | localDelivery m priority =>
    obtain rfl := Option.some_inj.mp hstep
    exact h.deliverLocally m priority
  | dispatch => exact h.entry hstep
  | deliver fast => exact h.runLocalDelivery hstep
  | wakeDispatch =>
    obtain rfl := Option.some_inj.mp hstep
    exact h.signal
  | wakeLocal =>
    obtain rfl := Option.some_inj.mp hstep
    exact h.localSignal s.stopLocalDelivery h.begun
  | start =>
    rw [step] at hstep
    split_ifs at hstep with hfree
    obtain rfl := Option.some_inj.mp hstep
    obtain ⟨hstop, hdispatch, hlocal⟩ := hfree
    have haccounts := h.accounts
    have hlocals := h.locals
    rw [hdispatch] at haccounts
    rw [hlocal] at hlocals
    exact ⟨h.holds, haccounts, hlocals, nofun, nofun, nofun, fun _ ↦ ⟨hstop, nofun⟩, fun _ ↦ nofun⟩
  | shutdown =>
    rw [step] at hstep
    split_ifs at hstep with hstarted
    obtain rfl := Option.some_inj.mp hstep
    exact h.localSignal true fun _ ↦ hstarted.2
  | joined =>
    rw [step] at hstep
    split_ifs at hstep with hended
    obtain rfl := Option.some_inj.mp hstep
    exact h.joined hended.2
  | wait =>
    rw [step] at hstep
    split_ifs at hstep with hended
    obtain rfl := Option.some_inj.mp hstep
    have haccounts := h.accounts
    rw [hended] at haccounts
    refine ⟨h.holds, haccounts, h.locals, nofun, h.awakeLocal, nofun, fun hs ↦ ?_, h.begun⟩
    -- the local delivery thread has been joined
    exact absurd ((h.stopped hended).symm.trans (h.alive hs).1) (by decide)

/-! ## The threads by themselves

Each of the two loops has a measure: the moves until the thread has looked at its list once more,
and two moves for each item of it. Left to itself a thread comes to the end of its list, and ends if
it is to. -/

theorem Inv.queued_eq_nil (h : s.Inv) (hempty : s.mqueue.empty = true) : s.queued = [] := by
  obtain ⟨l, hl⟩ := h.holds
  have hperm := hl.perm
  rw [hl.empty_eq.mp hempty, List.map_nil] at hperm
  rw [queued, hperm.eq_nil, List.map_nil]

/-- The moves of the dispatch thread until it has looked at the queue once more. -/
def movesLeft : DispatchPos → ℕ
  | .looking => 1
  | .handling _ => 2
  | .waiting true => 2
  | _ => 0

theorem movesLeft_rest (stop : Bool) : movesLeft (.rest stop) = 0 := by
  cases stop <;> rfl

/-- What the dispatch thread has before it: an item takes two moves. -/
def dispatchWork (s : DispatchThreads) : ℕ := 2 * s.queued.length + movesLeft s.dispatch

/-- On the way of the dispatch thread: it leaves alone what belongs to the others. -/
structure Draining (s t : DispatchThreads) : Prop where
  inv : t.Inv
  stop : t.stop = s.stop
  came : t.came = s.came
  locals : t.localDelivery = s.localDelivery ∧ t.localMessages = s.localMessages ∧ t.passed = s.passed
  started : t.dispatch ≠ .unstarted
  ended : t.dispatch = .ended → t.queued = []

theorem Draining.move {t : DispatchThreads} (h : s.Draining t) (hpos : t.dispatch ≠ .rest t.stop) :
    ∃ t', t.entry = some t' ∧ s.Draining t' ∧ t'.dispatchWork < t.dispatchWork := by
  rw [DispatchThreads.entry]
  match hdispatch : t.dispatch with
  | .unstarted => exact absurd hdispatch h.started
  | .ended => exact absurd (hdispatch.trans (rest_eq_ended.mpr (h.inv.stopped hdispatch)).symm) hpos
  | .waiting false => exact absurd (hdispatch.trans (rest_eq_waiting.mpr (h.inv.awake hdispatch).2).symm) hpos
  | .waiting true =>
    have hentry : t.entry = some { t with dispatch := .looking } := by rw [DispatchThreads.entry, hdispatch]
    refine ⟨_, rfl, ⟨h.inv.entry hentry, h.stop, h.came, h.locals, nofun, nofun⟩, ?_⟩
    simp [dispatchWork, movesLeft, hdispatch, queued]
  | .handling item =>
    have hentry : t.entry = some (t.handle item) := by rw [DispatchThreads.entry, hdispatch]
    have hinv := h.inv.entry hentry
    refine ⟨_, rfl, ?_, ?_⟩
    · rw [DispatchThreads.handle] at hinv ⊢
      split_ifs at hinv ⊢
      · exact ⟨hinv, h.stop, h.came, h.locals, nofun, nofun⟩
      · exact ⟨hinv, h.stop, h.came, h.locals, nofun, nofun⟩
    · rw [DispatchThreads.handle]
      split_ifs <;> simp [dispatchWork, movesLeft, hdispatch, queued]
  | .looking =>
    dsimp only
    by_cases hempty : t.mqueue.empty = true
    · have hnil := h.inv.queued_eq_nil hempty
      rw [if_pos hempty]
      have hentry : t.entry = some { t with dispatch := .rest t.stop } := by
        rw [DispatchThreads.entry, hdispatch]
        exact if_pos hempty
      refine ⟨_, rfl, ⟨h.inv.entry hentry, h.stop, h.came, h.locals, rest_ne_unstarted _, fun _ ↦ hnil⟩, ?_⟩
      have hnil' : ({ t with dispatch := .rest t.stop } : DispatchThreads).queued = [] := hnil
      rw [dispatchWork, dispatchWork, hnil', hnil, hdispatch, movesLeft_rest]
      decide
    · obtain ⟨l, hl⟩ := h.inv.holds
      obtain ⟨a, l', q, -, hdequeue, hentries, hl'⟩ := hl.dequeue fun hnil ↦ hempty (hl.empty_eq.mpr hnil)
      rw [if_neg hempty, hdequeue]
      have hentry : t.entry = some { t with mqueue := q, dispatch := .handling a.entry.2 } := by
        rw [DispatchThreads.entry, hdispatch]
        dsimp only
        rw [if_neg hempty, hdequeue]
        rfl
      refine ⟨_, rfl, ⟨h.inv.entry hentry, h.stop, h.came, h.locals, nofun, nofun⟩, ?_⟩
      simp [dispatchWork, movesLeft, hdispatch, queued, hentries]
      omega

/-- **No signal is lost**: the dispatch thread by itself comes to the end of the queue, and ends if
it is to. -/
theorem Inv.exists_drained (h : s.Inv) (hstarted : s.dispatch ≠ .unstarted)
    (hrunning : s.dispatch ≠ .ended) :
    ∃ fs s', (∀ f ∈ fs, f = Event.dispatch) ∧ Run.exec step s fs = some s' ∧ s.Draining s' ∧
      s'.dispatch = .rest s.stop ∧ s'.came.Perm (s'.delivered ++ s'.dropped) := by
  have hmove (t : DispatchThreads) (ht : s.Draining t) (hpos : ¬ t.dispatch = .rest t.stop) :
      ∃ e t', e = Event.dispatch ∧ step t e = some t' ∧ s.Draining t' ∧ dispatchWork t' < dispatchWork t := by
    obtain ⟨t', hmove, ht', hlt⟩ := ht.move hpos
    exact ⟨.dispatch, t', rfl, hmove, ht', hlt⟩
  obtain ⟨fs, s', hfs, hrun, hdraining, hgoal⟩ := Run.exists_of_measure dispatchWork hmove
    ⟨h, rfl, rfl, ⟨rfl, rfl, rfl⟩, hstarted, fun hended ↦ absurd hended hrunning⟩
  refine ⟨fs, s', hfs, hrun, hdraining, hdraining.stop ▸ hgoal, ?_⟩
  have hnil : s'.queued = [] := by
    cases hstop : s'.stop with
    | true => exact hdraining.ended (hgoal.trans (rest_eq_ended.mpr hstop))
    | false => exact hdraining.inv.queued_eq_nil (hdraining.inv.awake (hgoal.trans (rest_eq_waiting.mpr hstop))).1
  have haccounts := hdraining.inv.accounts
  rwa [hgoal, held_rest, hnil, List.append_nil, List.append_nil] at haccounts

/-- The moves of the local delivery thread until it has looked at its list once more. -/
def localMovesLeft : LocalPos → ℕ
  | .looking => 1
  | .delivering .. => 2
  | .waiting true => 2
  | _ => 0

theorem localMovesLeft_rest (stop : Bool) : localMovesLeft (.rest stop) = 0 := by
  cases stop <;> rfl

/-- What the local delivery thread has before it. -/
def localWork (s : DispatchThreads) : ℕ := 2 * s.localMessages.length + localMovesLeft s.localDelivery

/-- On the way of the local delivery thread. -/
structure Delivering (s t : DispatchThreads) : Prop where
  inv : t.Inv
  stopLocalDelivery : t.stopLocalDelivery = s.stopLocalDelivery
  sent : t.sent = s.sent
  started : t.localDelivery ≠ .unstarted
  ended : t.localDelivery = .ended → s.stopLocalDelivery = true ∧ t.localMessages = []

theorem Delivering.move {t : DispatchThreads} (h : s.Delivering t)
    (hpos : t.localDelivery ≠ .rest t.stopLocalDelivery) :
    ∃ t', t.runLocalDelivery false = some t' ∧ s.Delivering t' ∧ t'.localWork < t.localWork := by
  match hlocal : t.localDelivery with
  | .unstarted => exact absurd hlocal h.started
  | .ended =>
    exact absurd (hlocal.trans (by rw [h.stopLocalDelivery, (h.ended hlocal).1]; rfl)) hpos
  | .waiting false =>
    exact absurd (hlocal.trans (localRest_eq_waiting.mpr (h.inv.awakeLocal hlocal).2).symm) hpos
  | .waiting true =>
    have hmove : t.runLocalDelivery false = some { t with localDelivery := .looking } := by
      rw [DispatchThreads.runLocalDelivery, hlocal]
    refine ⟨_, hmove, ⟨h.inv.runLocalDelivery hmove, h.stopLocalDelivery, h.sent, nofun, nofun⟩, ?_⟩
    simp [localWork, localMovesLeft, hlocal]
  | .delivering m priority =>
    have hmove : t.runLocalDelivery false = some
        (({ t with localDelivery := .looking, passed := t.passed ++ [m] } : DispatchThreads).enqueue m
          priority 0) := by
      rw [DispatchThreads.runLocalDelivery, hlocal]
      rfl
    refine ⟨_, hmove, ⟨h.inv.runLocalDelivery hmove, h.stopLocalDelivery, h.sent, nofun, nofun⟩, ?_⟩
    simp [localWork, localMovesLeft, hlocal, DispatchThreads.enqueue]
  | .looking =>
    match hmessages : t.localMessages with
    | [] =>
      have hmove : t.runLocalDelivery false = some { t with localDelivery := .rest t.stopLocalDelivery } := by
        rw [DispatchThreads.runLocalDelivery, hlocal, hmessages]
      refine ⟨_, hmove, ⟨h.inv.runLocalDelivery hmove, h.stopLocalDelivery, h.sent, localRest_ne_unstarted _,
        fun hended ↦ ⟨?_, hmessages⟩⟩, ?_⟩
      · rw [← h.stopLocalDelivery]
        cases hstop : t.stopLocalDelivery with
        | true => rfl
        | false =>
          rw [hstop] at hended
          cases hended
      · rw [localWork, localWork, hmessages, hlocal, localMovesLeft_rest]
        decide
    | (m, priority) :: rest =>
      have hmove : t.runLocalDelivery false = some
          { t with localMessages := rest, localDelivery := .delivering m priority } := by
        rw [DispatchThreads.runLocalDelivery, hlocal, hmessages]
      refine ⟨_, hmove, ⟨h.inv.runLocalDelivery hmove, h.stopLocalDelivery, h.sent, nofun, nofun⟩, ?_⟩
      simp [localWork, localMovesLeft, hlocal, hmessages]
      omega

/-- The same for the local delivery thread. -/
theorem Inv.exists_delivered (h : s.Inv) (hstarted : s.localDelivery ≠ .unstarted)
    (hrunning : s.localDelivery ≠ .ended) :
    ∃ fs s', (∀ f ∈ fs, f = Event.deliver false) ∧ Run.exec step s fs = some s' ∧ s.Delivering s' ∧
      s'.localDelivery = .rest s.stopLocalDelivery ∧ s'.passed = s.sent := by
  have hmove (t : DispatchThreads) (ht : s.Delivering t) (hpos : ¬ t.localDelivery = .rest t.stopLocalDelivery) :
      ∃ e t', e = Event.deliver false ∧ step t e = some t' ∧ s.Delivering t' ∧ localWork t' < localWork t := by
    obtain ⟨t', hmove, ht', hlt⟩ := ht.move hpos
    exact ⟨.deliver false, t', rfl, hmove, ht', hlt⟩
  obtain ⟨fs, s', hfs, hrun, hdelivering, hgoal⟩ := Run.exists_of_measure localWork hmove
    ⟨h, rfl, rfl, hstarted, fun hended ↦ absurd hended hrunning⟩
  refine ⟨fs, s', hfs, hrun, hdelivering, hdelivering.stopLocalDelivery ▸ hgoal, ?_⟩
  have hnil : s'.localMessages = [] := by
    cases hstop : s'.stopLocalDelivery with
    | true => exact (hdelivering.ended (by rw [hgoal, hstop]; rfl)).2
    | false => exact (hdelivering.inv.awakeLocal (hgoal.trans (localRest_eq_waiting.mpr hstop))).1
  have hlocals := hdelivering.inv.locals
  rw [hgoal, localHeld_rest, hnil, hdelivering.sent, List.map_nil, List.append_nil, List.append_nil] at hlocals
  exact hlocals.symm

/-- **What the queue promises**, in every run. Whatever was put into the queue is there, in hand,
delivered or released, and once. Messages to itself are passed on in the order in which they were
sent. The dispatch thread by itself comes to the end of the queue. And `shutdown` and `wait` return:
once the one has been called, the threads by themselves pass on what was sent before, go through the
queue, and end. -/
theorem shuts_down {es : List Event} (hrun : Run.exec step ({} : DispatchThreads) es = some s) :
    s.came.Perm (s.delivered ++ s.dropped ++ (s.dispatch.held ++ s.queued)) ∧ s.passed <+: s.sent ∧
      (s.dispatch ≠ .unstarted → s.dispatch ≠ .ended → ∃ fs s', (∀ f ∈ fs, f = Event.dispatch) ∧
        Run.exec step s fs = some s' ∧ s'.came = s.came ∧ s'.came.Perm (s'.delivered ++ s'.dropped)) ∧
      (s.stopLocalDelivery = true → ∃ fs gs s', (∀ f ∈ fs, f = Event.deliver false) ∧
        (∀ g ∈ gs, g = Event.dispatch) ∧ Run.exec step s (fs ++ .joined :: (gs ++ [.wait])) = some s' ∧
        (s.localDelivery ≠ .ended → s'.passed = s.sent) ∧ s'.came.Perm (s'.delivered ++ s'.dropped)) := by
  have h : s.Inv := Run.invariant (fun _ _ _ ↦ inv_step) inv_start hrun
  refine ⟨h.accounts, ⟨_, h.locals.symm⟩, fun hstarted hrunning ↦ ?_, fun hstop ↦ ?_⟩
  · obtain ⟨fs, s', hfs, hexec, hdraining, -, hperm⟩ := h.exists_drained hstarted hrunning
    exact ⟨fs, s', hfs, hexec, hdraining.came, hperm⟩
  · -- the local delivery thread ends
    obtain ⟨fs, t, hfs, hexec, ht, hended, hjoin, hpassed⟩ : ∃ fs t, (∀ f ∈ fs, f = Event.deliver false) ∧
        Run.exec step s fs = some t ∧ t.Inv ∧ t.localDelivery = .ended ∧ t.stopLocalDelivery = true ∧
        (s.localDelivery ≠ .ended → t.passed = s.sent) := by
      by_cases hended : s.localDelivery = .ended
      · exact ⟨[], s, fun f hf ↦ absurd hf List.not_mem_nil, rfl, h, hended, hstop, fun hne ↦ absurd hended hne⟩
      · obtain ⟨fs, t, hfs, hexec, hdelivering, hrest, hpassed⟩ := h.exists_delivered (h.begun hstop) hended
        exact ⟨fs, t, hfs, hexec, hdelivering.inv, hrest.trans (by rw [hstop]; rfl),
          hdelivering.stopLocalDelivery.trans hstop, fun _ ↦ hpassed⟩
    -- it is joined, and the dispatch thread goes through the queue
    obtain ⟨u, hu⟩ : ∃ u, u = ({ t with
        localDelivery := .unstarted
        stopLocalDelivery := false
        stop := true
        dispatch := t.dispatch.signal } : DispatchThreads) := ⟨_, rfl⟩
    have hjoined : t.step .joined = some u := by
      rw [step, if_pos ⟨hjoin, hended⟩, hu]
    obtain ⟨hstop', halive⟩ := ht.alive (hended ▸ nofun)
    have hstarted : u.dispatch ≠ .unstarted := by
      rw [hu]
      exact fun heq ↦ halive (signal_eq_unstarted.mp heq)
    have hrunning : u.dispatch ≠ .ended := by
      rw [hu]
      exact fun heq ↦ absurd ((ht.stopped (signal_eq_ended.mp heq)).symm.trans hstop') (by decide)
    obtain ⟨gs, v, hgs, hexec', hdraining, hrest, hperm⟩ := (inv_step ht hjoined).exists_drained hstarted hrunning
    have hwait : v.step .wait = some { v with dispatch := .unstarted, stop := false } := by
      rw [step, if_pos (hrest.trans (by rw [hu]; rfl))]
    refine ⟨fs, gs, { v with dispatch := .unstarted, stop := false }, hfs, hgs, ?_, fun hne ↦ ?_, hperm⟩
    · rw [Run.exec_append, hexec, Option.bind_some, Run.exec_cons, hjoined, Option.bind_some, Run.exec_append,
        hexec', Option.bind_some, Run.exec_cons, hwait, Option.bind_some]
      rfl
    · have hkept : v.passed = t.passed := hdraining.locals.2.2.trans (by rw [hu])
      exact hkept.trans (hpassed hne)

/-- Both threads sleep, and `shutdown` is called with a message on its way. -/
def sleepyRun : List Event :=
  [.start, .dispatch, .deliver false, .localDelivery 7 127, .shutdown]

theorem shuts_down_sleepy :
    ∃ s, Run.exec step ({} : DispatchThreads) sleepyRun = some s ∧ s.localDelivery = .waiting true ∧
      ∃ fs gs s', (∀ f ∈ fs, f = Event.deliver false) ∧ (∀ g ∈ gs, g = Event.dispatch) ∧
        Run.exec step s (fs ++ .joined :: (gs ++ [.wait])) = some s' ∧ s'.passed = [7] ∧
        s'.came.Perm (s'.delivered ++ s'.dropped) := by
  have hend : ((Run.exec step ({} : DispatchThreads) sleepyRun).any fun s ↦
      s.localDelivery = .waiting true ∧ s.stopLocalDelivery = true ∧ s.sent = [7]) = true := by decide
  obtain ⟨s, hrun, hs⟩ := (Option.any_eq_true _ _).mp hend
  obtain ⟨hlocal, hstop, hsent⟩ := of_decide_eq_true hs
  obtain ⟨-, -, -, hdown⟩ := shuts_down hrun
  obtain ⟨fs, gs, s', hfs, hgs, hexec, hpassed, hperm⟩ := hdown hstop
  exact ⟨s, hrun, hlocal, fs, gs, s', hfs, hgs, hexec, (hpassed (hlocal ▸ nofun)).trans hsent, hperm⟩

end DispatchThreads

end AsyncMessenger
