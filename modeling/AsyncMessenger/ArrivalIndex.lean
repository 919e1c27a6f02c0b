import AsyncMessenger.QueueOrder

/-!
# The arrival index

Beside its queue, `DispatchQueue` keeps the messages in it by the time they came: a set of pairs of a time stamp
and a message, and a map from the messages to their places in the set. Codes are in the queue only. Whoever puts a
message into the queue or takes one out of it has to keep all three in step, or the assertion in `remove_arrival`
ends the process at some later time.

The messages are known by their addresses. Nothing is asked of the time stamps: two messages may have the same one.

## Three containers in step

`Exact` says what the three have to do with each other: the map has the messages of the queue, each
once, and leads each to its pair in the set, and the set has no others. A message is taken from the
queue and from the index in one hold of the lock. The invariant is kept by every step of the queue,
and the assertion of `remove_arrival` follows from it, as it looks for a message that is there.

A message object is not put into the queue while it is there (`Legal`).
-/

namespace AsyncMessenger

/-- A `QueueItem`: a message or a code for a connection. -/
inductive IndexedItem
  | message (m : ℕ)
  | code (c : DispatchCode) (con : ℕ)
  deriving DecidableEq, Repr

/-- The message, if it is one. -/
def IndexedItem.message? : IndexedItem → Option ℕ
  | .message m => some m
  | .code .. => none

/-- The queue with its index, and what has become of the messages. -/
structure IndexedQueue (τ : Type) where
  mqueue : FifoQueue IndexedItem := {}
  /-- `marrival_`. -/
  marrival : List (τ × ℕ) := []
  /-- `marrival_map_`; a place in the set is the pair that stands there. -/
  marrivalMap : List (ℕ × (τ × ℕ)) := []
  /-- `stop_`. -/
  stop : Bool := false
  /-- What the dispatch thread has taken and not handled yet. -/
  inHand : Option IndexedItem := none
  /-- The messages that were put into the queue, -/
  came : List ℕ := []
  /-- handed to `ms_deliver_dispatch`, -/
  dispatched : List ℕ := []
  /-- and released by `put`. -/
  released : List ℕ := []

namespace IndexedQueue

/-- What the threads do: the first four hold `lock_` to the end, and `take` is what the dispatch thread does
between `dequeue` and giving up `lock_`. -/
inductive Event (τ : Type)
  | enqueue (m : ℕ) (stamp : τ) (priority : ℤ) (id : ℕ)
  /-- `queue_connect`, `queue_accept`, `queue_remote_reset` and `queue_reset`. -/
  | queueCode (c : DispatchCode) (con : ℕ)
  | discardQueue (id : ℕ)
  | take
  /-- The dispatch thread handles what it has taken, without `lock_`. -/
  | handle
  /-- `shutdown` and `wait` set `stop_`. -/
  | setStop (stop : Bool)

variable {τ : Type} [DecidableEq τ]

/-- `add_arrival`. Neither container takes what it has already. -/
def addArrival (s : IndexedQueue τ) (m : ℕ) (stamp : τ) : IndexedQueue τ :=
  { s with
    marrival := if (stamp, m) ∈ s.marrival then s.marrival else (stamp, m) :: s.marrival
    marrivalMap := if (s.marrivalMap.find? fun x ↦ x.1 = m).isSome then s.marrivalMap
      else (m, (stamp, m)) :: s.marrivalMap }

/-- `remove_arrival`; `none` is its failed assertion, and a place that is not in the set any more. -/
def removeArrival (s : IndexedQueue τ) (m : ℕ) : Option (IndexedQueue τ) :=
  match s.marrivalMap.find? fun x ↦ x.1 = m with
  | none => none
  | some i =>
    if i.2 ∈ s.marrival then
      some { s with
        marrival := s.marrival.erase i.2
        marrivalMap := s.marrivalMap.eraseP fun x ↦ x.1 = m }
    else none

/-- The loop of `discard_queue`; `none` is a failed assertion. -/
def discardLoop (s : IndexedQueue τ) : List IndexedItem → Option (IndexedQueue τ)
  | [] => some s
  | .code .. :: _ => none
  | .message m :: removed =>
    (s.removeArrival m).bind fun s ↦ discardLoop { s with released := s.released ++ [m] } removed

/-- One step; `none` is a failed assertion. The dispatch thread does nothing while it has nothing to do. -/
def step (s : IndexedQueue τ) : Event τ → Option (IndexedQueue τ)
  | .enqueue m stamp priority id =>
    let s := s.addArrival m stamp
    some { s with
      mqueue := if prioLow ≤ priority then s.mqueue.enqueueStrict id priority.toNat (.message m)
        else s.mqueue.enqueue id (.message m)
      came := s.came ++ [m] }
  | .queueCode c con =>
    if s.stop then some s
    else some { s with mqueue := s.mqueue.enqueueStrict 0 prioHighest (.code c con) }
  | .discardQueue id =>
    let (mqueue, removed) := s.mqueue.removeByClassOut id []
    discardLoop { s with mqueue } removed
  | .take =>
    if s.inHand.isSome ∨ s.mqueue.empty then some s
    else s.mqueue.dequeueAssert.bind fun (item, mqueue) ↦
      let s := { s with mqueue, inHand := some item }
      match item with
      | .code .. => some s
      | .message m => s.removeArrival m
  | .handle => match s.inHand with
    | none => some s
    | some (.code ..) => some { s with inHand := none }
    | some (.message m) =>
      some (if s.stop then { s with inHand := none, released := s.released ++ [m] }
        else { s with inHand := none, dispatched := s.dispatched ++ [m] })
  | .setStop stop => some { s with stop }

/-- The messages in a queue. -/
def queued (q : FifoQueue IndexedItem) : List ℕ := q.entries.filterMap fun e ↦ e.2.message?

/-- The messages in the queue. -/
def messages (s : IndexedQueue τ) : List ℕ := queued s.mqueue

/-- The message in hand. -/
def held (s : IndexedQueue τ) : List ℕ := (s.inHand.bind IndexedItem.message?).toList

/-- A message is not put into the queue while it is there, and class 0 is never discarded. -/
def Legal (s : IndexedQueue τ) : Event τ → Prop
  | .enqueue m .. => m ∉ s.messages
  | .discardQueue id => 1 ≤ id
  | _ => True

instance (s : IndexedQueue τ) : (e : Event τ) → Decidable (s.Legal e)
  | .enqueue m .. => inferInstanceAs (Decidable (m ∉ s.messages))
  | .discardQueue id => inferInstanceAs (Decidable (1 ≤ id))
  | .queueCode .. | .take | .handle | .setStop _ => .isTrue trivial

/-- The index has exactly the messages in the queue, each once. Every message that came is in the queue, in hand,
handed to dispatch or released, once. -/
structure Exact (s : IndexedQueue τ) : Prop where
  once : s.messages.Nodup
  keys : (s.marrivalMap.map Prod.fst).Perm s.messages
  places : (s.marrival.map Prod.snd).Perm s.messages
  left : s.came.Perm (s.messages ++ s.held ++ s.dispatched ++ s.released)

/-! ## The two containers

Both are lists here, and in which order their members stand does not matter. -/

/-- The map and the set have these messages, each once, and the map knows the places in the set. -/
structure Indexes (map : List (ℕ × (τ × ℕ))) (set : List (τ × ℕ)) (ms : List ℕ) : Prop where
  once : ms.Nodup
  keys : (map.map Prod.fst).Perm ms
  own : ∀ x ∈ map, x.2.2 = x.1
  set : set.Perm (map.map Prod.snd)

variable {s s' : IndexedQueue τ} {map : List (ℕ × (τ × ℕ))} {set : List (τ × ℕ)} {ms ms' : List ℕ} {m : ℕ}

omit [DecidableEq τ] in
theorem Indexes.of_perm (h : Indexes map set ms) (hperm : ms.Perm ms') : Indexes map set ms' :=
  ⟨hperm.nodup_iff.mp h.once, h.keys.trans hperm, h.own, h.set⟩

omit [DecidableEq τ] in
theorem Indexes.places (h : Indexes map set ms) : (set.map Prod.snd).Perm ms := by
  have hown : (map.map Prod.snd).map Prod.snd = map.map Prod.fst := by
    rw [List.map_map]
    exact List.map_congr_left h.own
  exact (h.set.map Prod.snd).trans (hown ▸ h.keys)

omit [DecidableEq τ] in
theorem Indexes.mem_of_mem (h : Indexes map set ms) {x : ℕ × (τ × ℕ)} (hx : x ∈ map) : x.1 ∈ ms :=
  h.keys.mem_iff.mp (List.mem_map_of_mem hx)

/-- A message that is not in the queue is new in both. -/
theorem Indexes.addArrival (h : Indexes s.marrivalMap s.marrival ms) (hm : m ∉ ms) (stamp : τ) :
    Indexes (s.addArrival m stamp).marrivalMap (s.addArrival m stamp).marrival (m :: ms) := by
  have hmap : s.marrivalMap.find? (fun x ↦ x.1 = m) = none := by
    rw [List.find?_eq_none]
    intro x hx heq
    exact hm (of_decide_eq_true heq ▸ h.mem_of_mem hx)
  have hset : (stamp, m) ∉ s.marrival := by
    intro hmem
    exact hm (h.places.mem_iff.mp (List.mem_map_of_mem hmem))
  have hadd : s.addArrival m stamp = { s with
      marrival := (stamp, m) :: s.marrival, marrivalMap := (m, (stamp, m)) :: s.marrivalMap } := by
    rw [IndexedQueue.addArrival, if_neg hset, hmap]
    rfl
  rw [hadd]
  refine ⟨List.nodup_cons.mpr ⟨hm, h.once⟩, h.keys.cons m, fun x hx ↦ ?_, h.set.cons _⟩
  rcases List.mem_cons.mp hx with rfl | hx
  · rfl
  · exact h.own x hx

/-- A message in the queue is found, and its place is in the set. -/
theorem Indexes.removeArrival (h : Indexes s.marrivalMap s.marrival (m :: ms)) :
    ∃ map set, s.removeArrival m = some { s with marrivalMap := map, marrival := set } ∧ Indexes map set ms := by
  obtain ⟨x, hx, hxm⟩ := List.mem_map.mp (h.keys.mem_iff.mpr List.mem_cons_self)
  cases hfind : s.marrivalMap.find? fun x ↦ x.1 = m with
  | none => exact absurd (decide_eq_true hxm) (List.find?_eq_none.mp hfind x hx)
  | some i =>
    have hi : i.1 = m := by simpa using List.find?_some hfind
    have hperm := Arrivals.perm_cons_eraseP hfind
    have hset : s.marrival.Perm (i.2 :: (s.marrivalMap.eraseP fun x ↦ x.1 = m).map Prod.snd) :=
      h.set.trans (hperm.map Prod.snd)
    refine ⟨s.marrivalMap.eraseP fun x ↦ x.1 = m, s.marrival.erase i.2, ?_, (List.nodup_cons.mp h.once).2, ?_,
      fun x hx ↦ ?_, ?_⟩
    · rw [IndexedQueue.removeArrival, hfind]
      exact if_pos (hset.mem_iff.mpr List.mem_cons_self)
    · have hkeys := (hperm.map Prod.fst).symm.trans h.keys
      rw [List.map_cons, hi] at hkeys
      exact hkeys.cons_inv
    · exact h.own x (List.mem_of_mem_eraseP hx)
    · have herase := hset.erase i.2
      rwa [List.erase_cons_head] at herase

/-- The loop of `discard_queue` removes the messages it is given. -/
theorem Indexes.discardLoop {removed : List ℕ} (h : Indexes s.marrivalMap s.marrival (removed ++ ms)) :
    ∃ map set, s.discardLoop (removed.map .message) =
      some { s with marrivalMap := map, marrival := set, released := s.released ++ removed } ∧
      Indexes map set ms := by
  induction removed generalizing s with
  | nil => exact ⟨_, _, by rw [List.append_nil]; rfl, h⟩
  | cons m removed ih =>
    obtain ⟨map, set, hremove, hrest⟩ := h.removeArrival
    obtain ⟨map', set', hloop, hms⟩ :=
      @ih { s with marrivalMap := map, marrival := set, released := s.released ++ [m] } hrest
    refine ⟨map', set', ?_, hms⟩
    rw [List.map_cons, IndexedQueue.discardLoop, hremove, Option.bind_some, hloop, List.append_assoc]
    rfl

/-! ## The invariant

What came is in one of four places. A step moves a message from one of them to the next, and adjusts
the index if the queue is one of the two. -/

/-- The queue is well formed, only class 0 has codes, and the index has the messages. -/
structure Inv (s : IndexedQueue τ) : Prop where
  holds : ∃ l, s.mqueue.Holds l
  codes : ∀ cl c con, (cl, IndexedItem.code c con) ∈ s.mqueue.entries → cl = 0
  indexes : Indexes s.marrivalMap s.marrival s.messages
  left : s.came.Perm (s.messages ++ s.held ++ s.dispatched ++ s.released)

omit [DecidableEq τ] in
theorem Inv.exact (h : s.Inv) : s.Exact := ⟨h.indexes.once, h.indexes.keys, h.indexes.places, h.left⟩

omit [DecidableEq τ] in
theorem inv_init : Inv ({} : IndexedQueue τ) where
  holds := ⟨[], FifoQueue.holds_nil⟩
  codes _ _ _ h := absurd h List.not_mem_nil
  indexes := ⟨.nil, .refl _, fun _ h ↦ absurd h List.not_mem_nil, .refl _⟩
  left := .refl _

/-- An entry is put into a queue. -/
theorem queued_put {q q' : FifoQueue IndexedItem} {l : List (Arrival (ℕ × IndexedItem))}
    {a : Arrival (ℕ × IndexedItem)} (h : q.Holds l) (h' : q'.Holds (l ++ [a])) :
    (queued q').Perm (queued q ++ a.entry.2.message?.toList) := by
  have hperm := (h.perm_append h').filterMap fun e ↦ e.2.message?
  rw [List.filterMap_append] at hperm
  refine hperm.trans (.of_eq ?_)
  cases hitem : a.entry.2.message? <;> simp [queued, hitem]

theorem codes_put {q q' : FifoQueue IndexedItem} {l : List (Arrival (ℕ × IndexedItem))}
    {a : Arrival (ℕ × IndexedItem)} (h : ∀ cl c con, (cl, IndexedItem.code c con) ∈ q.entries → cl = 0)
    (hl : q.Holds l) (hl' : q'.Holds (l ++ [a])) (ha : ∀ c con, a.entry.2 = .code c con → a.entry.1 = 0)
    (cl : ℕ) (c : DispatchCode) (con : ℕ) (hmem : (cl, IndexedItem.code c con) ∈ q'.entries) : cl = 0 := by
  rcases List.mem_append.mp ((hl.perm_append hl').mem_iff.mp hmem) with hold | hnew
  · exact h cl c con hold
  · have heq := List.mem_singleton.mp hnew
    have hzero := ha c con (by rw [← heq])
    rwa [← heq] at hzero

theorem Inv.enqueue (h : s.Inv) {m : ℕ} (hm : m ∉ s.messages) (stamp : τ) (priority : ℤ) (id : ℕ) :
    ∃ s', s.step (.enqueue m stamp priority id) = some s' ∧ s'.Inv := by
  obtain ⟨l, hl⟩ := h.holds
  obtain ⟨q, o, hq, hl'⟩ : ∃ q o, (if (prioLow : ℤ) ≤ priority then
      s.mqueue.enqueueStrict id priority.toNat (.message m) else s.mqueue.enqueue id (.message m)) = q ∧
      q.Holds (l ++ [⟨o, (id, .message m)⟩]) := by
    split_ifs
    · exact ⟨_, _, rfl, hl.enqueueStrict id _ _⟩
    · exact ⟨_, _, rfl, hl.enqueue id _⟩
  have hstep : s.step (.enqueue m stamp priority id) =
      some { s.addArrival m stamp with mqueue := q, came := s.came ++ [m] } := by
    rw [← hq]
    rfl
  have hqueued : (queued q).Perm (s.messages ++ [m]) := queued_put hl hl'
  refine ⟨_, hstep, ⟨_, hl'⟩, codes_put h.codes hl hl' (by rintro c con ⟨⟩), ?_, ?_⟩
  · exact (h.indexes.addArrival hm stamp).of_perm (hqueued.trans (List.perm_append_singleton m _)).symm
  · refine List.perm_iff_count.mpr fun x ↦ ?_
    have hcount := h.left.count_eq x
    have hcount' := hqueued.count_eq x
    simp only [List.count_append] at hcount hcount'
    change List.count x (s.came ++ [m]) = List.count x (queued q ++ s.held ++ s.dispatched ++ s.released)
    simp only [List.count_append]
    omega

theorem Inv.queueCode (h : s.Inv) (c : DispatchCode) (con : ℕ) :
    ∃ s', s.step (.queueCode c con) = some s' ∧ s'.Inv := by
  obtain ⟨l, hl⟩ := h.holds
  rw [IndexedQueue.step]
  by_cases hstop : s.stop = true
  · rw [if_pos hstop]
    exact ⟨s, rfl, h⟩
  · rw [if_neg hstop]
    have hl' := hl.enqueueStrict 0 prioHighest (.code c con)
    have hqueued := queued_put hl hl'
    rw [IndexedItem.message?, Option.toList_none, List.append_nil] at hqueued
    refine ⟨_, rfl, ⟨_, hl'⟩, codes_put h.codes hl hl' fun _ _ _ ↦ rfl, h.indexes.of_perm hqueued.symm, ?_⟩
    exact h.left.trans (((hqueued.symm.append_right _).append_right _).append_right _)

/-- Items without codes are messages. -/
theorem map_message {items : List IndexedItem} (h : ∀ c con, IndexedItem.code c con ∉ items) :
    items = (items.filterMap IndexedItem.message?).map .message := by
  induction items with
  | nil => rfl
  | cons item items ih =>
    cases item with
    | message m =>
      have hrest := ih fun c con hmem ↦ h c con (List.mem_cons_of_mem _ hmem)
      exact congrArg (IndexedItem.message m :: ·) hrest
    | code c con => exact absurd List.mem_cons_self (h c con)

theorem Inv.discardQueue (h : s.Inv) {id : ℕ} (hid : 1 ≤ id) :
    ∃ s', s.step (.discardQueue id) = some s' ∧ s'.Inv := by
  obtain ⟨l, hl⟩ := h.holds
  have hnocode : ∀ c con, IndexedItem.code c con ∉ (s.mqueue.removed id).map Prod.snd := by
    intro c con hmem
    obtain ⟨e, he, hcode⟩ := List.mem_map.mp hmem
    obtain ⟨hentry, hclass⟩ := List.mem_filter.mp he
    have hzero := h.codes e.1 c con (by rw [← hcode]; exact hentry)
    have hone : e.1 = id := of_decide_eq_true hclass
    omega
  obtain ⟨gone, hgone⟩ : ∃ gone, ((s.mqueue.removed id).map Prod.snd).filterMap IndexedItem.message? = gone :=
    ⟨_, rfl⟩
  have hitems := hgone ▸ map_message hnocode
  have hqueued : s.messages.Perm (gone ++ queued (s.mqueue.removeByClass id)) := by
    have hnot : (fun e : ℕ × IndexedItem ↦ decide (e.1 ≠ id)) = fun e ↦ !decide (e.1 = id) := by
      funext e
      exact decide_not
    have hsplit := (List.filter_append_perm (fun e : ℕ × IndexedItem ↦ decide (e.1 = id))
      s.mqueue.entries).symm.filterMap fun e ↦ e.2.message?
    rw [List.filterMap_append, ← hnot, ← FifoQueue.entries_removeByClass] at hsplit
    rw [← hgone, List.filterMap_map]
    exact hsplit
  obtain ⟨map, set, hloop, hindexes⟩ :=
    @Indexes.discardLoop _ _ { s with mqueue := s.mqueue.removeByClass id } _ _ (h.indexes.of_perm hqueued)
  refine ⟨{ s with
      mqueue := s.mqueue.removeByClass id
      marrivalMap := map
      marrival := set
      released := s.released ++ gone }, ?_, ⟨_, hl.removeByClass id⟩, fun cl c con hmem ↦ ?_, hindexes, ?_⟩
  · rw [IndexedQueue.step, FifoQueue.removeByClassOut_eq, List.append_nil, hitems]
    exact hloop
  · exact h.codes cl c con (FifoQueue.mem_entries_removeByClass hmem).1
  · refine List.perm_iff_count.mpr fun x ↦ ?_
    have hcount := h.left.count_eq x
    have hcount' := hqueued.count_eq x
    simp only [List.count_append] at hcount hcount'
    change List.count x s.came = List.count x
      (queued (s.mqueue.removeByClass id) ++ s.held ++ s.dispatched ++ (s.released ++ gone))
    simp only [List.count_append]
    omega

theorem Inv.take (h : s.Inv) : ∃ s', s.step .take = some s' ∧ s'.Inv := by
  obtain ⟨l, hl⟩ := h.holds
  rw [IndexedQueue.step]
  by_cases hidle : s.inHand.isSome ∨ s.mqueue.empty = true
  · rw [if_pos hidle]
    exact ⟨s, rfl, h⟩
  · rw [if_neg hidle]
    obtain ⟨hhand, hempty⟩ := not_or.mp hidle
    have hheld : s.held = [] := by
      rw [held, Option.not_isSome_iff_eq_none.mp hhand]
      rfl
    obtain ⟨a, l', q, -, hdequeue, hentries, hl'⟩ := hl.dequeue fun hnil ↦ hempty (hl.empty_eq.mpr hnil)
    have hcodes : ∀ cl c con, (cl, IndexedItem.code c con) ∈ q.entries → cl = 0 := by
      intro cl c con hmem
      exact h.codes cl c con (hentries ▸ List.mem_cons_of_mem _ hmem)
    rw [hdequeue, Option.bind_some]
    dsimp only
    cases hitem : a.entry.2 with
    | code c con =>
      have hqueued : s.messages = queued q := by
        rw [messages, queued, hentries, List.filterMap_cons_none (by rw [hitem]; rfl)]
        rfl
      have hindexes := h.indexes
      have hleft := h.left
      rw [hqueued] at hindexes
      rw [hheld, hqueued] at hleft
      exact ⟨_, rfl, ⟨_, hl'⟩, hcodes, hindexes, hleft⟩
    | message m =>
      have hqueued : s.messages = m :: queued q := by
        rw [messages, queued, hentries, List.filterMap_cons_some (by rw [hitem]; rfl)]
        rfl
      obtain ⟨map, set, hremove, hindexes⟩ :=
        @Indexes.removeArrival _ _ { s with mqueue := q, inHand := some (.message m) } _ _ (hqueued ▸ h.indexes)
      refine ⟨_, hremove, ⟨_, hl'⟩, hcodes, hindexes, ?_⟩
      have hleft := h.left
      rw [hheld, hqueued, List.append_nil] at hleft
      refine hleft.trans (((List.perm_append_singleton m (queued q)).symm.append_right _).append_right _)

theorem Inv.handle (h : s.Inv) : ∃ s', s.step .handle = some s' ∧ s'.Inv := by
  rw [IndexedQueue.step]
  have hleft := h.left
  cases hhand : s.inHand with
  | none => exact ⟨s, rfl, h⟩
  | some item =>
    cases item with
    | code c con =>
      refine ⟨_, rfl, h.holds, h.codes, h.indexes, ?_⟩
      rw [held, hhand] at hleft
      exact hleft
    | message m =>
      rw [held, hhand] at hleft
      dsimp only
      by_cases hstop : s.stop = true
      · rw [if_pos hstop]
        refine ⟨_, rfl, h.holds, h.codes, h.indexes, hleft.trans (List.perm_iff_count.mpr fun x ↦ ?_)⟩
        change List.count x (s.messages ++ [m] ++ s.dispatched ++ s.released) =
          List.count x (s.messages ++ [] ++ s.dispatched ++ (s.released ++ [m]))
        simp only [List.count_append, List.count_nil]
        omega
      · rw [if_neg hstop]
        refine ⟨_, rfl, h.holds, h.codes, h.indexes, hleft.trans (List.perm_iff_count.mpr fun x ↦ ?_)⟩
        change List.count x (s.messages ++ [m] ++ s.dispatched ++ s.released) =
          List.count x (s.messages ++ [] ++ (s.dispatched ++ [m]) ++ s.released)
        simp only [List.count_append, List.count_nil]
        omega

theorem Inv.step (h : s.Inv) {e : Event τ} (hlegal : s.Legal e) : ∃ s', s.step e = some s' ∧ s'.Inv := by
  cases e with
  | enqueue m stamp priority id => exact h.enqueue hlegal stamp priority id
  | queueCode c con => exact h.queueCode c con
  | discardQueue id => exact h.discardQueue hlegal
  | take => exact h.take
  | handle => exact h.handle
  | setStop stop => exact ⟨_, rfl, h.holds, h.codes, h.indexes, h.left⟩

/-! ## What came

The books start with the messages that came. These are the ones the run puts into the queue, whatever
else the threads do in it. -/

/-- The message an event puts into the queue, if it does. -/
def Event.message? : Event τ → Option ℕ
  | .enqueue m .. => some m
  | _ => none

theorem came_removeArrival (h : s.removeArrival m = some s') : s'.came = s.came := by
  rw [removeArrival] at h
  split at h
  · exact absurd h (by simp)
  · split_ifs at h
    cases h
    rfl

theorem came_discardLoop {removed : List IndexedItem} (h : s.discardLoop removed = some s') :
    s'.came = s.came := by
  induction removed generalizing s with
  | nil =>
    cases h
    rfl
  | cons item removed ih =>
    cases item with
    | code c con => exact absurd h (by simp [discardLoop])
    | message m =>
      rw [discardLoop, Option.bind_eq_some_iff] at h
      obtain ⟨t, hremove, h⟩ := h
      have hcame : s'.came = ({ t with released := t.released ++ [m] } : IndexedQueue τ).came := ih h
      have hremoved : t.came = s.came := came_removeArrival hremove
      exact hcame.trans hremoved

theorem came_step {e : Event τ} (h : s.step e = some s') :
    s'.came = s.came ++ e.message?.toList := by
  -- only `enqueue` lets a message in
  have hkept (h : s'.came = s.came) : s'.came = s.came ++ [] := h.trans (List.append_nil _).symm
  cases e with
  | enqueue m stamp priority id =>
    cases h
    rfl
  | queueCode c con =>
    rw [IndexedQueue.step] at h
    split_ifs at h <;> cases h <;> exact hkept rfl
  | discardQueue id =>
    have hcame : s'.came = ({ s with mqueue := (s.mqueue.removeByClassOut id []).1 } : IndexedQueue τ).came :=
      came_discardLoop h
    exact hkept hcame
  | take =>
    rw [IndexedQueue.step] at h
    split_ifs at h
    · cases h
      exact hkept rfl
    · rw [Option.bind_eq_some_iff] at h
      obtain ⟨⟨item, mqueue⟩, -, h⟩ := h
      cases item with
      | code c con =>
        cases h
        exact hkept rfl
      | message m =>
        have hcame : s'.came =
            ({ s with mqueue, inHand := some (.message m) } : IndexedQueue τ).came :=
          came_removeArrival h
        exact hkept hcame
  | handle =>
    rw [IndexedQueue.step] at h
    split at h
    · cases h
      exact hkept rfl
    · cases h
      exact hkept rfl
    · rw [Option.some_inj] at h
      split_ifs at h <;> cases h <;> exact hkept rfl
  | setStop stop =>
    cases h
    exact hkept rfl

theorem came_of_exec {es : List (Event τ)} (h : Run.exec step s es = some s') :
    s'.came = s.came ++ es.filterMap Event.message? := by
  induction es generalizing s with
  | nil =>
    cases h
    exact (List.append_nil _).symm
  | cons e es ih =>
    rw [Run.exec_cons, Option.bind_eq_some_iff] at h
    obtain ⟨t, hstep, h⟩ := h
    rw [ih h, came_step hstep, List.append_assoc]
    cases e <;> rfl

/-- Whatever the threads do, no assertion fails, the index is exact, and the books are about the
messages that the run puts into the queue. -/
theorem exact_of_run {es : List (Event τ)} (hlegal : Run.Meets step Legal ({} : IndexedQueue τ) es) :
    ∃ s, Run.exec step ({} : IndexedQueue τ) es = some s ∧ s.Exact ∧
      s.came = es.filterMap Event.message? := by
  obtain ⟨s, hs, hinv⟩ := Run.exists_of_meets (fun s e h hlegal ↦ h.step hlegal) inv_init hlegal
  exact ⟨s, hs, hinv.exact, came_of_exec hs⟩

/-- Two messages of two connections and a code: the first message is discarded, the second one dispatched. -/
def mixedRun : List (Event ℕ) :=
  [.enqueue 7 0 127 3, .enqueue 8 0 10 4, .queueCode .connect 4, .discardQueue 3, .take, .handle, .take, .handle]

theorem exact_mixedRun : ∃ s, Run.exec step ({} : IndexedQueue ℕ) mixedRun = some s ∧ s.Exact ∧
    s.came = [7, 8] ∧ s.released = [7] ∧ s.dispatched = [8] ∧ s.messages = [] := by
  have hcheck : Run.check step (fun s e ↦ decide (s.Legal e)) {} mixedRun = true := by decide
  have hend : (Run.exec step ({} : IndexedQueue ℕ) mixedRun).map
      (fun s ↦ (s.released, s.dispatched, s.messages)) = some ([7], [8], []) := by decide
  obtain ⟨s, hs, hexact, hcame⟩ :=
    exact_of_run (Run.Meets.of_check (fun _ _ ↦ of_decide_eq_true) hcheck)
  rw [hs, Option.map_some, Option.some_inj] at hend
  simp only [Prod.mk.injEq] at hend
  exact ⟨s, hs, hexact, hcame, hend⟩

end IndexedQueue

end AsyncMessenger
