import AsyncMessenger.CursorWorld

/-!
# The elements that cursors stand on

What operations do to the elements of `_buffers`, and when a cursor stays settled: when segments are
linked behind the others, or the last one becomes longer; when the elements move to another list as
a whole, or change places with those of another list; and when `rebuild_aligned` keeps the one it
stands on.

A `std::list` hands out iterators to its elements, and they stay valid while their element is in
some list. So a cursor is not a place in a sequence but the name of an element, and what an
operation does to a cursor is a question of which elements it keeps, and of how many bytes stand
before them afterwards. `Linked` says that every segment has an element of its own, and that every
cursor that is not at `end()` stands on an element of its list with the right number of bytes before
it. Each kind of operation is one lemma about `Linked`, with the condition under which no cursor is
displaced.
-/

namespace AsyncMessenger

open Buffer

namespace BufferList

/-! ## Appending

An append leaves what stands before an element as it is. It may make the last segment longer, which
moves nothing either. -/

/-- Each segment stays, or becomes longer, and so does what is in front of it. -/
def Extends (ps ps' : List Ptr) : Prop :=
  ∀ pre p suf, ps = pre ++ p :: suf → ∃ p' suf', ps' = pre ++ p' :: suf' ∧ p.len ≤ p'.len

variable {ps ps' ps'' : List Ptr} {l l' : BufferList} {h : Heap} {p : Ptr}

theorem Extends.refl (ps : List Ptr) : Extends ps ps := fun _ p suf hsplit ↦ ⟨p, suf, hsplit, le_rfl⟩

theorem Extends.append (ps more : List Ptr) : Extends ps (ps ++ more) := by
  rintro pre p suf rfl
  exact ⟨p, suf ++ more, by rw [List.append_assoc, List.cons_append], le_rfl⟩

theorem Extends.trans (h : Extends ps ps') (h' : Extends ps' ps'') : Extends ps ps'' := by
  intro pre p suf hsplit
  obtain ⟨p', suf', hsplit', hle⟩ := h pre p suf hsplit
  obtain ⟨p'', suf'', hsplit'', hle'⟩ := h' pre p' suf' hsplit'
  exact ⟨p'', suf'', hsplit'', hle.trans hle'⟩

/-- The last segment becomes longer. -/
theorem Extends.last (init : List Ptr) {last last' : Ptr} (hle : last.len ≤ last'.len) :
    Extends (init ++ [last]) (init ++ [last']) := by
  intro pre p suf hsplit
  rcases List.append_eq_append_iff.mp hsplit with ⟨d, rfl, hcons⟩ | ⟨d, rfl, hcons⟩
  · cases d with
    | nil =>
      obtain ⟨rfl, -⟩ := List.cons.inj hcons
      exact ⟨last', [], by rw [List.append_nil], hle⟩
    | cons t d => exact absurd (List.cons.inj hcons).2 (by simp)
  · cases d with
    | nil =>
      obtain ⟨rfl, -⟩ := List.cons.inj hcons
      exact ⟨last', [], by rw [List.append_nil], hle⟩
    | cons t d =>
      obtain ⟨rfl, rfl⟩ := List.cons.inj hcons
      exact ⟨p, d ++ [last'], by rw [List.append_assoc, List.cons_append], le_rfl⟩

theorem Extends.length_le (h : Extends ps ps') : ps.length ≤ ps'.length := by
  rcases List.eq_nil_or_concat ps with rfl | ⟨init, last, rfl⟩
  · exact Nat.zero_le _
  · obtain ⟨p', suf', rfl, -⟩ := h init last [] (by rw [List.concat_eq_append])
    rw [List.length_concat, List.length_append, List.length_cons]
    omega

theorem pushBack_extends (l : BufferList) (p : Ptr) : Extends l.buffers (l.pushBack p).buffers := by
  rw [pushBack]
  by_cases hzero : p.len = 0
  · rw [if_pos hzero]
    exact .refl _
  · rw [if_neg hzero]
    exact .append _ _

theorem appendSub_extends {off len : ℕ} (hl : l.appendSub p off len = some l') :
    Extends l.buffers l'.buffers := by
  have hpush (hl : (p.sub off len).map l.pushBack = some l') : Extends l.buffers l'.buffers := by
    obtain ⟨q, -, rfl⟩ := Option.map_eq_some_iff.mp hl
    exact pushBack_extends l q
  rw [appendSub] at hl
  by_cases hbeyond : p.len < add32 len off
  · rw [if_pos hbeyond] at hl
    exact absurd hl (by simp)
  rw [if_neg hbeyond] at hl
  cases hlast : l.buffers.getLast? with
  | none =>
    rw [hlast] at hl
    exact hpush hl
  | some last =>
    rw [hlast] at hl
    dsimp only at hl
    by_cases hcontiguous : last.raw = p.raw ∧ last.stop = p.off + off
    · rw [if_pos hcontiguous, Option.some_inj] at hl
      have hsplit : l.buffers.dropLast ++ [last] = l.buffers := List.dropLast_append_getLast? last hlast
      rw [← hl, ← hsplit, List.dropLast_concat]
      exact .last _ (Nat.le_add_right _ _)
    · rw [if_neg hcontiguous] at hl
      exact hpush hl

theorem fill_extends {src : Bytes} {x : Heap × BufferList} (hx : fill h l src = some x) :
    Extends l.buffers x.2.buffers := by
  obtain ⟨y, -, hy⟩ := Option.bind_eq_some_iff.mp hx
  obtain ⟨l', hl', rfl⟩ := Option.map_eq_some_iff.mp hy
  have hextends := appendSub_extends hl'
  exact hextends

theorem appendChar_extends {alloc : Allocator} {page : ℕ} {c : UInt8} {x : Heap × BufferList}
    (hx : appendChar alloc page h l c = some x) : Extends l.buffers x.2.buffers := by
  rw [appendChar] at hx
  have hextends := fill_extends hx
  by_cases hfull : l.appendBuffer.unusedTailLength h = 0
  · rw [if_pos hfull] at hextends
    exact hextends
  · rw [if_neg hfull] at hextends
    exact hextends

theorem appendData_extends {alloc : Allocator} {page fuel : ℕ} {src : Bytes} {x : Heap × BufferList}
    (hx : appendData alloc page fuel h l src = some x) : Extends l.buffers x.2.buffers := by
  by_cases hsrc : src = []
  · rw [hsrc, appendData, Option.some_inj] at hx
    rw [← hx]
    exact .refl _
  induction fuel generalizing h l src with
  | zero =>
    cases src with
    | nil => exact absurd rfl hsrc
    | cons b src => exact absurd hx (Option.some_ne_none x).symm
  | succ fuel ih =>
    rw [appendData_succ hsrc] at hx
    generalize min (l.appendBuffer.unusedTailLength h) src.length = gap at hx
    obtain ⟨y, hfill, hrest⟩ := Option.bind_eq_some_iff.mp hx
    have hy : Extends l.buffers y.2.buffers := by
      by_cases hgap : 0 < gap
      · rw [if_pos hgap] at hfill
        exact fill_extends hfill
      · rw [if_neg hgap, Option.some_inj] at hfill
        rw [← hfill]
        exact .refl _
    by_cases hdone : src.drop gap = []
    · rw [if_pos hdone, Option.some_inj] at hrest
      exact hrest ▸ hy
    · rw [if_neg hdone] at hrest
      have hmore := ih hrest hdone
      exact hy.trans hmore

end BufferList

namespace Cursor

variable {ps ps' : List Ptr} {ids : List ℕ} {c : Cursor}

/-- New elements behind the others leave the cursor settled. -/
theorem Settled.extends (h : c.Settled ps ids) (hextends : BufferList.Extends ps ps') (more : List ℕ) :
    c.Settled ps' (ids ++ more) := by
  rcases h with hend | ⟨pre, p, suf, before, id, after, hps, rfl, hlen, hnode, hpOff, hoff⟩
  · exact .inl hend
  · obtain ⟨p', suf', hps', hle⟩ := hextends pre p suf hps
    exact .inr ⟨pre, p', suf', before, id, after ++ more, hps',
      by rw [List.append_assoc, List.cons_append], hlen, hnode, hpOff.trans_le hle, hoff⟩

end Cursor

namespace CursorWorld

open BufferList

/-! ## The elements

The elements of one list are changed, or those of two; the lists that are not concerned keep theirs
(`Apart`). -/

/-- Every segment is an element of its own, and every cursor is settled. -/
structure Linked (w : CursorWorld) : Prop where
  length : ∀ n, (w.nodes n).length = (w.lists n).buffers.length
  nodup : ∀ n, (w.nodes n).Nodup
  owner : ∀ n m id, id ∈ w.nodes n → id ∈ w.nodes m → n = m
  lt : ∀ n, ∀ id ∈ w.nodes n, id < w.next
  settled : ∀ n, (w.lastP n).Settled (w.lists n).buffers (w.nodes n)

variable {w : CursorWorld} {lists : BufferWorld} {n m : ℕ} {ids : List ℕ} {c : Cursor}

/-- The other lists keep their segments. -/
def Apart (w : CursorWorld) (lists : BufferWorld) (n : ℕ) : Prop :=
  ∀ k, k ≠ n → (lists.lists k).buffers = (w.lists k).buffers

/-- The elements of a list are changed: some are kept, and the others are new. -/
theorem Linked.relink (hw : w.Linked) {next : ℕ} (hnext : w.next ≤ next) (hapart : w.Apart lists n)
    (hlength : ids.length = (lists.lists n).buffers.length) (hnodup : ids.Nodup)
    (hids : ∀ id ∈ ids, id ∈ w.nodes n ∨ w.next ≤ id ∧ id < next)
    (hsettled : c.Settled (lists.lists n).buffers ids) : (w.relink lists n ids c next).Linked := by
  have hself : (w.relink lists n ids c next).nodes n = ids := Function.update_self ..
  have hother {k : ℕ} (hk : k ≠ n) : (w.relink lists n ids c next).nodes k = w.nodes k :=
    Function.update_of_ne hk ..
  have hold {k : ℕ} (id : ℕ) (hid : id ∈ ids) (hk : k ≠ n) : id ∉ w.nodes k := by
    intro hmem
    rcases hids id hid with hkept | ⟨hnew, -⟩
    · exact hk (hw.owner k n id hmem hkept)
    · exact absurd (hw.lt k id hmem) (Nat.not_lt.mpr hnew)
  refine ⟨fun k ↦ ?_, fun k ↦ ?_, fun i j id hi hj ↦ ?_, fun k id hid ↦ ?_, fun k ↦ ?_⟩
  · by_cases hk : k = n
    · rw [hk, hself]
      exact hlength
    · rw [hother hk, hw.length k]
      exact (congrArg List.length (hapart k hk)).symm
  · by_cases hk : k = n
    · rw [hk, hself]
      exact hnodup
    · rw [hother hk]
      exact hw.nodup k
  · by_cases hin : i = n
    · by_cases hjn : j = n
      · rw [hin, hjn]
      · rw [hin, hself] at hi
        rw [hother hjn] at hj
        exact absurd hj (hold id hi hjn)
    · rw [hother hin] at hi
      by_cases hjn : j = n
      · rw [hjn, hself] at hj
        exact absurd hi (hold id hj hin)
      · rw [hother hjn] at hj
        exact hw.owner i j id hi hj
  · show id < next
    by_cases hk : k = n
    · rw [hk, hself] at hid
      rcases hids id hid with hkept | ⟨-, hlt⟩
      · exact (hw.lt n id hkept).trans_le hnext
      · exact hlt
    · rw [hother hk] at hid
      exact (hw.lt k id hid).trans_le hnext
  · show (Function.update w.lastP n c k).Settled (lists.lists k).buffers (Function.update w.nodes n ids k)
    by_cases hk : k = n
    · rw [hk, Function.update_self, Function.update_self]
      exact hsettled
    · rw [Function.update_of_ne hk, Function.update_of_ne hk, hapart k hk]
      exact hw.settled k

theorem Linked.linkBack (hw : w.Linked) (hapart : w.Apart lists n)
    (hextends : Extends (w.lists n).buffers (lists.lists n).buffers) : (w.linkBack lists n).Linked := by
  have hle := hextends.length_le
  refine hw.relink (Nat.le_add_right _ _) hapart ?_ ?_ (fun id hid ↦ ?_)
    ((hw.settled n).extends hextends _)
  · rw [List.length_append, List.length_range', hw.length n, grown]
    omega
  · refine List.Nodup.append (hw.nodup n) List.nodup_range' fun id hid hnew ↦ ?_
    have hlt := hw.lt n id hid
    rw [List.mem_range'_1] at hnew
    omega
  · exact (List.mem_append.mp hid).imp_right List.mem_range'_1.mp

theorem Linked.renew (hw : w.Linked) (hapart : w.Apart lists n) (hend : c.node = none) :
    (w.renew lists n c).Linked :=
  hw.relink (Nat.le_add_right _ _) hapart List.length_range' List.nodup_range'
    (fun _ hid ↦ .inr (List.mem_range'_1.mp hid)) (.inl hend)

/-- New elements in front of the others displace a cursor, unless it is at `end()`. -/
theorem Linked.linkFront (hw : w.Linked) (hapart : w.Apart lists n)
    (hle : (w.lists n).buffers.length ≤ (lists.lists n).buffers.length)
    (hsame : lists.lists n = w.lists n ∨ w.AtEnd n) : (w.linkFront lists n).Linked := by
  refine hw.relink (Nat.le_add_right _ _) hapart ?_ ?_ (fun id hid ↦ ?_) ?_
  · rw [List.length_append, List.length_range', hw.length n, grown]
    omega
  · refine List.Nodup.append List.nodup_range' (hw.nodup n) fun id hnew hid ↦ ?_
    have hlt := hw.lt n id hid
    rw [List.mem_range'_1] at hnew
    omega
  · exact (List.mem_append.mp hid).symm.imp_right List.mem_range'_1.mp
  · rcases hsame with hsame | hend
    · rw [grown, hsame, Nat.sub_self, List.range'_zero, List.nil_append]
      exact hw.settled n
    · exact .inl hend

/-- The elements of a list move to another one. -/
theorem Linked.linkMoved (hw : w.Linked)
    (hapart : ∀ k, k ≠ n → k ≠ m → (lists.lists k).buffers = (w.lists k).buffers)
    (hempty : (lists.lists m).buffers = []) (hlength : ids.length = (lists.lists n).buffers.length)
    (hnodup : ids.Nodup) (hids : ∀ id ∈ ids, id ∈ w.nodes n ∨ id ∈ w.nodes m)
    (hsettled : c.Settled (lists.lists n).buffers ids) : (w.linkMoved lists n m ids c).Linked := by
  have hnodes (k : ℕ) : (w.linkMoved lists n m ids c).nodes k =
      if k = m then [] else if k = n then ids else w.nodes k := by
    show Function.update (Function.update w.nodes n ids) m [] k = _
    rw [Function.update_apply, Function.update_apply]
  -- an element that moves was in one of the two lists, so it is in no third one
  have hold {k : ℕ} (id : ℕ) (hid : id ∈ ids) (hn : k ≠ n) (hm : k ≠ m) : id ∉ w.nodes k := fun hmem ↦
    (hids id hid).elim (fun h ↦ hn (hw.owner k n id hmem h)) fun h ↦ hm (hw.owner k m id hmem h)
  refine ⟨fun k ↦ ?_, fun k ↦ ?_, fun i j id hi hj ↦ ?_, fun k id hid ↦ ?_, fun k ↦ ?_⟩
  · show _ = (lists.lists k).buffers.length
    rw [hnodes]
    by_cases hm : k = m
    · rw [if_pos hm, hm, hempty]
      rfl
    by_cases hn : k = n
    · rw [if_neg hm, if_pos hn, hn, hlength]
    · rw [if_neg hm, if_neg hn, hapart k hn hm, hw.length k]
  · rw [hnodes]
    by_cases hm : k = m
    · rw [if_pos hm]
      exact List.nodup_nil
    by_cases hn : k = n
    · rw [if_neg hm, if_pos hn]
      exact hnodup
    · rw [if_neg hm, if_neg hn]
      exact hw.nodup k
  · rw [hnodes] at hi hj
    by_cases him : i = m
    · rw [if_pos him] at hi
      exact absurd hi List.not_mem_nil
    by_cases hjm : j = m
    · rw [if_pos hjm] at hj
      exact absurd hj List.not_mem_nil
    rw [if_neg him] at hi
    rw [if_neg hjm] at hj
    by_cases hin : i = n
    · by_cases hjn : j = n
      · rw [hin, hjn]
      · rw [if_pos hin] at hi
        rw [if_neg hjn] at hj
        exact absurd hj (hold id hi hjn hjm)
    · rw [if_neg hin] at hi
      by_cases hjn : j = n
      · rw [if_pos hjn] at hj
        exact absurd hi (hold id hj hin him)
      · rw [if_neg hjn] at hj
        exact hw.owner i j id hi hj
  · show id < w.next
    rw [hnodes] at hid
    by_cases hm : k = m
    · rw [if_pos hm] at hid
      exact absurd hid List.not_mem_nil
    rw [if_neg hm] at hid
    by_cases hn : k = n
    · rw [if_pos hn] at hid
      exact (hids id hid).elim (hw.lt n id) (hw.lt m id)
    · rw [if_neg hn] at hid
      exact hw.lt k id hid
  · have hlast : (w.linkMoved lists n m ids c).lastP k =
        if k = m then {} else if k = n then c else w.lastP k := by
      show Function.update (Function.update w.lastP n c) m {} k = _
      rw [Function.update_apply, Function.update_apply]
    show (CursorWorld.lastP _ k).Settled (lists.lists k).buffers _
    rw [hnodes, hlast]
    by_cases hm : k = m
    · rw [if_pos hm, if_pos hm]
      exact .inl rfl
    by_cases hn : k = n
    · rw [if_neg hm, if_pos hn, if_neg hm, if_pos hn, hn]
      exact hsettled
    · rw [if_neg hm, if_neg hn, if_neg hm, if_neg hn, hapart k hn hm]
      exact hw.settled k

/-- The cursor of a list is set; nothing else changes. -/
theorem Linked.setCursor (hw : w.Linked) (hc : c.Settled (w.lists n).buffers (w.nodes n)) :
    ({ w with lastP := Function.update w.lastP n c } : CursorWorld).Linked := by
  refine ⟨hw.length, hw.nodup, hw.owner, hw.lt, fun k ↦ ?_⟩
  show (Function.update w.lastP n c k).Settled (w.lists k).buffers (w.nodes k)
  by_cases hk : k = n
  · rw [hk, Function.update_self]
    exact hc
  · rw [Function.update_of_ne hk]
    exact hw.settled k

/-- `begin()` is settled. -/
theorem Linked.rewind (hw : w.Linked) (hpos : ∀ p ∈ (w.lists n).buffers, 0 < p.len) :
    (w.rewind n).Linked := by
  apply hw.setCursor
  have hlength := hw.length n
  show (CachedList.cursorOf (w.cached n) (Iter.ofBegin ((w.lists n).segments w.heap))).Settled _ _
  rw [Iter.ofBegin]
  cases hbuffers : (w.lists n).buffers with
  | nil =>
    have hnil : (w.lists n).segments w.heap = [] := by rw [segments, hbuffers, List.map_nil]
    rw [if_pos hnil]
    exact .inl rfl
  | cons p ps =>
    have hcons : (w.lists n).segments w.heap ≠ [] := by rw [segments, hbuffers]; exact List.cons_ne_nil _ _
    rw [hbuffers, List.length_cons] at hlength
    obtain ⟨id, ids, hids⟩ := List.exists_cons_of_length_eq_add_one hlength
    rw [if_neg hcons]
    refine .inr ⟨[], p, ps, [], id, ids, rfl, hids, rfl, ?_, hpos p (hbuffers ▸ List.mem_cons_self), rfl⟩
    show (w.nodes n)[0]? = some id
    rw [hids]
    rfl

/-- Two lists change places. -/
theorem Linked.swap (hw : w.Linked) (hlists : ∀ k, lists.lists k = w.lists (Equiv.swap n m k)) :
    ((w.relink lists n (w.nodes m) {} w.next).relink lists m (w.nodes n) {} w.next).Linked := by
  have hnodes (k : ℕ) : ((w.relink lists n (w.nodes m) {} w.next).relink lists m (w.nodes n) {}
      w.next).nodes k = w.nodes (Equiv.swap n m k) := by
    show Function.update (Function.update w.nodes n (w.nodes m)) m (w.nodes n) k = _
    rw [Function.update_apply, Function.update_apply, Equiv.swap_apply_def]
    by_cases hm : k = m
    · by_cases hn : k = n
      · rw [if_pos hm, if_pos hn, ← hm, hn]
      · rw [if_pos hm, if_neg hn, if_pos hm]
    · by_cases hn : k = n
      · rw [if_neg hm, if_pos hn, if_pos hn]
      · rw [if_neg hm, if_neg hn, if_neg hn, if_neg hm]
  refine ⟨fun k ↦ ?_, fun k ↦ ?_, fun i j id hi hj ↦ ?_, fun k id hid ↦ ?_, fun k ↦ ?_⟩
  · rw [hnodes]
    show _ = (lists.lists k).buffers.length
    rw [hlists]
    exact hw.length _
  · rw [hnodes]
    exact hw.nodup _
  · rw [hnodes] at hi hj
    exact (Equiv.swap n m).injective (hw.owner _ _ id hi hj)
  · rw [hnodes] at hid
    exact hw.lt _ id hid
  · show (Function.update (Function.update w.lastP n {}) m {} k).Settled (lists.lists k).buffers _
    rw [hnodes, Function.update_apply, Function.update_apply, hlists]
    by_cases hm : k = m
    · rw [if_pos hm]
      exact .inl rfl
    by_cases hn : k = n
    · rw [if_neg hm, if_pos hn]
      exact .inl rfl
    · rw [if_neg hm, if_neg hn, Equiv.swap_apply_of_ne_of_ne hn hm]
      exact hw.settled k

end CursorWorld

namespace BufferList

/-! ## `rebuild_aligned`

It takes runs of segments out and puts new ones in their place. The elements in between are kept,
with the same bytes before them. -/

/-- The element `id` holds the segment `p`, behind `o` bytes. -/
def Holds (ps : List Ptr) (ids : List ℕ) (id : ℕ) (p : Ptr) (o : ℕ) : Prop :=
  ∃ pre suf before after, ps = pre ++ p :: suf ∧ ids = before ++ id :: after ∧
    before.length = pre.length ∧ (pre.map Ptr.len).sum = o

variable {ps ps' as bs : List Ptr} {ids : List ℕ} {id o : ℕ} {l : BufferList} {h : Heap} {p : Ptr}

theorem Holds.cons (h : Holds ps ids id p o) (q : Ptr) (i : ℕ) :
    Holds (q :: ps) (i :: ids) id p (q.len + o) := by
  obtain ⟨pre, suf, before, after, rfl, rfl, hlen, rfl⟩ := h
  refine ⟨q :: pre, suf, i :: before, after, rfl, rfl, by rw [List.length_cons, List.length_cons, hlen], ?_⟩
  rw [List.map_cons, List.sum_cons]

theorem Holds.mem (h : Holds ps ids id p o) : id ∈ ids := by
  obtain ⟨pre, suf, before, after, -, rfl, -, -⟩ := h
  exact List.mem_append_right before List.mem_cons_self

theorem Holds.head {q : Ptr} (h : Holds (q :: ps) (id :: ids) id p o) (hnotin : id ∉ ids) : p = q ∧ o = 0 := by
  obtain ⟨pre, suf, before, after, hps, hids, hlen, rfl⟩ := h
  cases before with
  | nil =>
    obtain rfl := List.length_eq_zero_iff.mp hlen.symm
    exact ⟨(List.cons.inj hps).1.symm, rfl⟩
  | cons i before =>
    refine absurd ?_ hnotin
    rw [(List.cons.inj hids).2]
    exact List.mem_append_right before List.mem_cons_self

/-- An element behind some segments. -/
theorem Holds.drop (h : Holds (as ++ bs) ids id p o) (hnodup : ids.Nodup) (hid : id ∈ ids.drop as.length) :
    ∃ o', Holds bs (ids.drop as.length) id p o' ∧ o = (as.map Ptr.len).sum + o' := by
  obtain ⟨pre, suf, before, after, hps, hids, hlen, rfl⟩ := h
  have hbehind : as.length ≤ pre.length := by
    by_contra hlt
    have htake : id ∈ ids.take as.length := by
      rw [hids, List.take_append, List.mem_append]
      obtain ⟨k, hk⟩ : ∃ k, as.length - before.length = k + 1 := ⟨as.length - before.length - 1, by omega⟩
      rw [hk, List.take_succ_cons]
      exact .inr List.mem_cons_self
    have hsplit := hnodup
    rw [← List.take_append_drop as.length ids] at hsplit
    exact (List.nodup_append.mp hsplit).2.2 id htake id hid rfl
  obtain ⟨pre', rfl⟩ : ∃ pre', pre = as ++ pre' := by
    rcases List.append_eq_append_iff.mp hps with ⟨d, hd, -⟩ | ⟨d, hd, -⟩
    · exact ⟨d, hd⟩
    · rw [hd, List.length_append] at hbehind
      have hnil : d = [] := List.length_eq_zero_iff.mp (by omega)
      exact ⟨[], by rw [hd, hnil, List.append_nil, List.append_nil]⟩
  rw [List.append_assoc, List.append_cancel_left_eq] at hps
  rw [List.length_append] at hlen
  refine ⟨(pre'.map Ptr.len).sum, ⟨pre', suf, before.drop as.length, after, hps, ?_, ?_, rfl⟩, ?_⟩
  · rw [hids, List.drop_append_of_le_length (by omega)]
  · rw [List.length_drop]
    omega
  · rw [List.map_append, List.sum_append]

/-- The elements that `rebuild_aligned` leaves: as many as segments, each of them old or new, and an old one
holds what it has held. -/
structure Realigned (next : ℕ) (ps : List Ptr) (ids : List ℕ) (ps' : List Ptr) (ids' : List ℕ) : Prop where
  length : ids'.length = ps'.length
  nodup : ids'.Nodup
  kept : ∀ i ∈ ids', i ∈ ids ∨ next ≤ i ∧ i < next + ps.length
  holds : ∀ i ∈ ids', ∀ p o, Holds ps ids i p o → Holds ps' ids' i p o

/-- A segment that stays keeps its element. -/
theorem Realigned.keep {next : ℕ} {ids' : List ℕ} (h : Realigned next ps ids ps' ids') (p : Ptr)
    (hnodup : (id :: ids).Nodup) (hold : ∀ i ∈ id :: ids, i < next) :
    Realigned next (p :: ps) (id :: ids) (p :: ps') (id :: ids') := by
  obtain ⟨hnotin, -⟩ := List.nodup_cons.mp hnodup
  refine ⟨by rw [List.length_cons, List.length_cons, h.length], List.nodup_cons.mpr ⟨fun hmem ↦ ?_, h.nodup⟩,
    fun i hi ↦ ?_, fun i hi q o hholds ↦ ?_⟩
  · -- the elements behind are those of other segments, or new
    rcases h.kept id hmem with hin | ⟨hle, -⟩
    · exact hnotin hin
    · exact absurd (hold id List.mem_cons_self) (Nat.not_lt.mpr hle)
  · rcases List.mem_cons.mp hi with rfl | hi
    · exact .inl List.mem_cons_self
    · refine (h.kept i hi).imp (List.mem_cons_of_mem id) fun hnew ↦ ⟨hnew.1, ?_⟩
      rw [List.length_cons]
      omega
  · rcases List.mem_cons.mp hi with rfl | hi
    · obtain ⟨rfl, rfl⟩ := hholds.head hnotin
      exact ⟨[], ps', [], _, rfl, rfl, rfl, rfl⟩
    · have hin : i ∈ ids := by
        rcases h.kept i hi with hin | ⟨hle, -⟩
        · exact hin
        · exact absurd (hold i hholds.mem) (Nat.not_lt.mpr hle)
      have hsplit : Holds ([p] ++ ps) (id :: ids) i q o := hholds
      obtain ⟨o', hholds', rfl⟩ := hsplit.drop hnodup hin
      exact (h.holds i hi q o' hholds').cons p id

/-- The segments `as` are merged into `q`, which is a new element; those behind are as they were. -/
theorem Realigned.merge {next : ℕ} {ids' : List ℕ} {q : Ptr}
    (h : Realigned next bs (ids.drop as.length) ps' ids') (hpos : 0 < as.length) (hnodup : ids.Nodup)
    (hold : ∀ i ∈ ids, i < next) (hlen : q.len = (as.map Ptr.len).sum) :
    Realigned next (as ++ bs) ids (q :: ps') ((next + (as.length - 1 + bs.length)) :: ids') := by
  refine ⟨by rw [List.length_cons, List.length_cons, h.length],
    List.nodup_cons.mpr ⟨fun hmem ↦ ?_, h.nodup⟩, fun i hi ↦ ?_, fun i hi x o hholds ↦ ?_⟩
  · -- the name of the new element is not given a second time
    rcases h.kept _ hmem with hin | ⟨-, hlt⟩
    · exact absurd (hold _ (List.mem_of_mem_drop hin)) (Nat.not_lt.mpr (Nat.le_add_right _ _))
    · omega
  · rw [List.length_append]
    rcases List.mem_cons.mp hi with rfl | hi
    · exact .inr ⟨Nat.le_add_right _ _, by omega⟩
    · exact (h.kept i hi).imp List.mem_of_mem_drop fun hnew ↦ ⟨hnew.1, by omega⟩
  · have hlt : i < next := hold i hholds.mem
    -- an old element is behind the merged segments, which have the same bytes as the new one
    rcases List.mem_cons.mp hi with rfl | hi
    · exact absurd hlt (Nat.not_lt.mpr (Nat.le_add_right _ _))
    · have hin : i ∈ ids.drop as.length := by
        rcases h.kept i hi with hin | ⟨hle, -⟩
        · exact hin
        · exact absurd hlt (Nat.not_lt.mpr hle)
      obtain ⟨o', hholds', rfl⟩ := hholds.drop hnodup hin
      rw [← hlen]
      exact (h.holds i hi x o' hholds').cons q _

theorem realignNodes_spec (size mem : ℕ) (alloc : Allocator) {next : ℕ} {h' : Heap} {used : ℕ → ℕ}
    (hps : ∀ p ∈ ps, p.In h used ∧ 0 < p.len) (htidy : Tidy h used) (hlt : (ps.map Ptr.len).sum < 2 ^ 32)
    (hlength : ids.length = ps.length) (hnodup : ids.Nodup) (hold : ∀ i ∈ ids, i < next)
    (hrun : realign size mem alloc h ps = some (h', ps')) :
    Realigned next ps ids ps' (realignNodes size mem alloc next h ps ids) := by
  induction hn : ps.length using Nat.strong_induction_on generalizing ps ps' ids h used with
  | h n ih =>
    cases ps with
    | nil =>
      rw [realign, Option.some_inj] at hrun
      obtain ⟨-, rfl⟩ := Prod.mk.inj hrun
      rw [realignNodes]
      exact ⟨rfl, List.nodup_nil, fun _ hi ↦ absurd hi List.not_mem_nil,
        fun _ hi ↦ absurd hi List.not_mem_nil⟩
    | cons p ps =>
      obtain ⟨id₀, ids, rfl⟩ := List.exists_cons_of_length_eq_add_one (hlength.trans List.length_cons)
      -- the first segment stays with its element, or becomes part of a new one
      by_cases hkeep : p.isAligned h mem ∧ p.isNAlignSized size
      · have hps' : ∀ q ∈ ps, q.In h used ∧ 0 < q.len := fun q hq ↦ hps q (List.mem_cons_of_mem p hq)
        rw [List.map_cons, List.sum_cons] at hlt
        rw [List.length_cons] at hn hlength
        rw [realign, if_pos hkeep] at hrun
        obtain ⟨⟨h₁, ps₁⟩, hrest, heq⟩ := Option.map_eq_some_iff.mp hrun
        obtain ⟨rfl, rfl⟩ := Prod.mk.inj heq
        rw [realignNodes, if_pos hkeep, List.headD_cons, List.tail_cons]
        have hlater := ih ps.length (by omega) hps' htidy (by omega) (Nat.add_right_cancel hlength)
          (List.nodup_cons.mp hnodup).2 (fun i hi ↦ hold i (List.mem_cons_of_mem id₀ hi)) hrest rfl
        exact hlater.keep p hnodup hold
      · -- the segments `us` are merged with the first one, and `rest` is gone through in the same way
        obtain ⟨us, rest, h₁, used₁, q, hm⟩ := exists_merged size mem alloc hps htidy hlt
        obtain ⟨hshort, hrest, htidy₁, hlt₁⟩ := hm.later hlt
        rw [hm.realign_eq hkeep] at hrun
        obtain ⟨⟨h₂, ps₂⟩, hrun₂, heq⟩ := Option.map_eq_some_iff.mp hrun
        obtain ⟨rfl, rfl⟩ := Prod.mk.inj heq
        have hcount := congrArg List.length hm.split
        rw [List.length_append] at hcount
        have hdrop : (ids.drop us.length).length = rest.length := by
          rw [List.length_cons, List.length_cons] at hlength
          rw [List.length_drop]
          omega
        have hlater : Realigned next rest ((id₀ :: ids).drop (p :: us).length) ps₂ _ :=
          ih rest.length (hn ▸ hshort) hrest htidy₁ hlt₁ hdrop (hnodup.sublist (List.drop_sublist _ _))
            (fun i hi ↦ hold i (List.mem_of_mem_drop hi)) hrun₂ rfl
        have hlen : q.len = ((p :: us).map Ptr.len).sum := by
          rw [← hm.stands.sum, List.map_singleton, List.sum_singleton]
        rw [realignNodes, if_neg hkeep, hm.gathers]
        dsimp only
        rw [hm.merge, List.drop_succ_cons, ← hcount, ← hm.split]
        exact hlater.merge (Nat.succ_pos _) hnodup hold hlen

/-! ## What claims -/

theorem length_makeShareable (alloc : Allocator) (h : Heap) (ps : List Ptr) :
    (makeShareable alloc h ps).2.length = ps.length := by
  induction ps generalizing h with
  | nil => rfl
  | cons p ps ih => exact congrArg (· + 1) (ih _)

theorem length_giveAway (alloc : Allocator) (h : Heap) (l : BufferList) (flag : Bool) :
    (giveAway alloc h l flag).2.length = l.buffers.length := by
  cases flag with
  | true => rfl
  | false => exact length_makeShareable alloc h l.buffers

theorem give_extends {c : BufferList} {off len : ℕ} {d : Option BufferList}
    (hd : give (some c) p off len = .ok d) : ∃ c', d = some c' ∧ Extends c.buffers c'.buffers := by
  rw [give] at hd
  cases happend : c.appendSub p off len with
  | none =>
    rw [happend] at hd
    exact absurd hd (by simp)
  | some c' =>
    rw [happend] at hd
    exact ⟨c', (Except.ok.inj hd).symm, appendSub_extends happend⟩

theorem cut_extends {c : BufferList} {off len k : ℕ} {x : List Ptr × ℕ × Option BufferList}
    (hx : cut ps off len k (some c) = .ok x) : ∃ c', x.2.2 = some c' ∧ Extends c.buffers c'.buffers := by
  induction ps generalizing off len k c with
  | nil =>
    rw [cut] at hx
    rw [← Except.ok.inj hx]
    exact ⟨c, rfl, .refl _⟩
  | cons p ps ih =>
    rw [cut] at hx
    by_cases hzero : len = 0
    · rw [if_pos hzero] at hx
      rw [← Except.ok.inj hx]
      exact ⟨c, rfl, .refl _⟩
    rw [if_neg hzero] at hx
    by_cases hin : add32 off len < p.len
    · rw [if_pos hin] at hx
      cases hgive : give (some c) p off len with
      | error e =>
        rw [hgive] at hx
        exact absurd hx (by simp [Except.map])
      | ok d =>
        rw [hgive] at hx
        rw [← Except.ok.inj hx]
        exact give_extends hgive
    · rw [if_neg hin] at hx
      cases hgive : give (some c) p off (sub32 p.len off) with
      | error e =>
        rw [hgive] at hx
        exact absurd hx (by simp [Except.bind])
      | ok d =>
        rw [hgive] at hx
        obtain ⟨c', rfl, hextends⟩ := give_extends hgive
        obtain ⟨c'', hc'', hextends'⟩ := ih hx
        exact ⟨c'', hc'', hextends.trans hextends'⟩

theorem splice_extends {c : BufferList} {off len : ℕ} {x : BufferList × Option BufferList}
    (hx : l.splice off len (some c) = .ok x) : ∃ c', x.2 = some c' ∧ Extends c.buffers c'.buffers := by
  rw [splice] at hx
  by_cases hzero : len = 0
  · rw [if_pos hzero] at hx
    rw [← Except.ok.inj hx]
    exact ⟨c, rfl, .refl _⟩
  rw [if_neg hzero] at hx
  by_cases hend : l.len ≤ off
  · rw [if_pos hend] at hx
    exact absurd hx (by simp)
  rw [if_neg hend] at hx
  cases hskip : skip .assertion l.buffers off with
  | error e =>
    rw [hskip] at hx
    exact absurd hx (by simp [Except.bind])
  | ok y =>
    rw [hskip] at hx
    change (frontBit y.2.1 y.2.2).bind _ = _ at hx
    cases hfront : frontBit y.2.1 y.2.2 with
    | error e =>
      rw [hfront] at hx
      exact absurd hx (by simp [Except.bind])
    | ok front =>
      rw [hfront] at hx
      change (cut y.2.1 y.2.2 len (add32 l.len y.2.2) (some c)).map _ = _ at hx
      cases hcut : cut y.2.1 y.2.2 len (add32 l.len y.2.2) (some c) with
      | error e =>
        rw [hcut] at hx
        exact absurd hx (by simp [Except.map])
      | ok z =>
        rw [hcut] at hx
        rw [← Except.ok.inj hx]
        exact cut_extends hcut

theorem foldl_appendPart_extends {parts : List Iter.Part} {dest dest' : BufferList}
    (hfold : parts.foldl (CachedList.appendPart ps) (some dest) = some dest') :
    Extends dest.buffers dest'.buffers := by
  induction parts generalizing dest with
  | nil =>
    rw [← Option.some_inj.mp hfold]
    exact .refl _
  | cons part parts ih =>
    rw [List.foldl_cons, CachedList.appendPart, Option.bind_some] at hfold
    cases happend : dest.appendSub (ps.getD part.seg {}) part.off part.len with
    | none =>
      rw [happend] at hfold
      have hnone : parts.foldl (CachedList.appendPart ps) none = none := by
        clear hfold ih
        induction parts with
        | nil => rfl
        | cons part parts ih => exact ih
      exact absurd (hfold.symm.trans hnone) (by simp)
    | some dest₁ =>
      rw [happend] at hfold
      exact (appendSub_extends happend).trans (ih hfold)

end BufferList

end AsyncMessenger
