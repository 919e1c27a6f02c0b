import AsyncMessenger.Elements

/-!
# The cursor that is left behind

While the segment that `last_p` stands on stays where it is, or `last_p` is at `end()`, the calls do
what they would do if it were set to the beginning before. But `push_front`, `claim_prepend`,
`operator=`, `rebuild`, `c_str` and `rebuild_aligned` move or erase the segment and leave `last_p`
as it is.

## The invariant

`Steady` has two parts. The lists are valid and an `int` can say how long they are (`Sane`); and the
elements of each list are as many as its segments, with a cursor that stands where it says it does
or at `end()` (`Linked`). The first part is about bytes and the second about elements, and an
operation is followed through both: what it does to the bytes has been proved for the lists, and
`follow` says what it does to the elements.

## The condition

`Keeps` excludes the operations that displace a cursor, and looks at the state before the operation
only: whether `last_p` stands on a segment that is about to move. `step_base` and the lemmas beside
it go through the operations one by one; `displaced_copies_behind` shows what a displaced cursor
does.
-/

namespace AsyncMessenger

open Buffer

namespace BufferWorld

open BufferList

variable {used : ℕ → ℕ} {w : BufferWorld} {n : ℕ}

/-- A list that is not too long is proper. -/
theorem Valid.proper (hw : Valid used w) (hlt : (w.strings.lists n).length < 2 ^ 32) :
    (w.lists n).Proper w.heap := by
  have hgood := hw.good n
  have hsum : ((w.lists n).buffers.map Ptr.len).sum < 2 ^ 32 := by
    rw [← hgood.length_contents hw.tidy]
    exact hlt
  have hlen := hgood.len
  rw [Nat.mod_eq_of_lt hsum] at hlen
  exact ⟨fun p hp ↦ ⟨In.extent (hgood.segment p hp).1 hw.tidy, (hgood.segment p hp).2⟩, hlen, hlen ▸ hsum⟩

/-- Bytes of raw buffers are overwritten, and nothing else changes. -/
theorem Valid.pokes (hw : Valid used w) {cs : List Cell} (hcs : ∀ c ∈ cs, w.heap.Has c) (src : Bytes) :
    Valid used { w with heap := w.heap.pokes cs src } := by
  have hlength : (w.heap.pokes cs src).length = w.heap.length := w.heap.length_pokes cs src
  have hin {p : Ptr} (hp : p.In w.heap used) : p.In (w.heap.pokes cs src) used :=
    ⟨hp.1, fun r hr ↦ ⟨hlength ▸ (hp.2 r hr).1, (hp.2 r hr).2⟩⟩
  refine ⟨fun r hr ↦ ?_, fun n ↦ ?_, fun p ↦ hin (hw.ptr p), hw.apart⟩
  · rw [Heap.length_bytes_pokes hcs]
    exact hw.tidy r (hlength ▸ hr)
  · have hgood := hw.good n
    exact ⟨fun p hp ↦ ⟨hin (hgood.segment p hp).1, (hgood.segment p hp).2⟩,
      ⟨hgood.tail.1, fun r hr ↦ ⟨hlength ▸ (hgood.tail.2 r hr).1, (hgood.tail.2 r hr).2⟩⟩, hgood.len⟩

/-- A list becomes another one without its `append_buffer` or the heap changing. -/
theorem Valid.replace {l : BufferList} (hw : Valid used w) (hl : l.Sound w.heap used)
    (hsame : l.appendBuffer = (w.lists n).appendBuffer) : Valid used (w.put n (w.heap, l)) := by
  have htail (k : ℕ) : (Function.update w.lists n l k).appendBuffer = (w.lists k).appendBuffer := by
    by_cases hk : k = n
    · rw [hk, Function.update_self, hsame]
    · rw [Function.update_of_ne hk]
  refine ⟨hw.tidy, fun k ↦ ?_, hw.ptr, fun i j r hi hj ↦ hw.apart i j r ((htail i) ▸ hi) ((htail j) ▸ hj)⟩
  show (Function.update w.lists n l k).Good w.heap used
  by_cases hk : k = n
  · rw [hk, Function.update_self]
    exact hl.good (hsame ▸ (hw.good n).tail)
  · rw [Function.update_of_ne hk]
    exact hw.good k

/-- The lists are valid, and an `int` can say how long they are. -/
structure Sane (w : BufferWorld) : Prop where
  valid : ∃ used, Valid used w
  short : ∀ n, (w.strings.lists n).length < 2 ^ 31

theorem Sane.proper (hw : w.Sane) (n : ℕ) : (w.lists n).Proper w.heap := by
  obtain ⟨used, hvalid⟩ := hw.valid
  exact hvalid.proper ((hw.short n).trans (by decide))

theorem Sane.len_eq (hw : w.Sane) (n : ℕ) : ((w.lists n).contents w.heap).length = (w.lists n).len :=
  (hw.proper n).length_contents

theorem Sane.len_lt (hw : w.Sane) (n : ℕ) : (w.lists n).len < 2 ^ 31 := by
  rw [← hw.len_eq]
  exact hw.short n

theorem Sane.put {h' : Heap} {l' : BufferList} {bs : Bytes} (hw : w.Sane) (hvalid : Valid used w)
    (hb : Becomes w.heap used (w.lists n) h' l' bs) (hlt : bs.length < 2 ^ 31) :
    (w.put n (h', l')).Sane := by
  obtain ⟨used', hvalid', hstrings⟩ := hvalid.put hb
  refine ⟨⟨used', hvalid'⟩, fun k ↦ ?_⟩
  rw [hstrings]
  show (Function.update w.strings.lists n bs k).length < 2 ^ 31
  by_cases hk : k = n
  · rw [hk, Function.update_self]
    exact hlt
  · rw [Function.update_of_ne hk]
    exact hw.short k

theorem Sane.replace {l : BufferList} (hw : w.Sane) (hvalid : Valid used w) (hl : l.Sound w.heap used)
    (hsame : l.appendBuffer = (w.lists n).appendBuffer) (hlt : (l.contents w.heap).length < 2 ^ 31) :
    (w.put n (w.heap, l)).Sane :=
  hw.put hvalid ((hl.good (hsame ▸ (hvalid.good n).tail)).becomes hvalid.tidy hsame) hlt

end BufferWorld

namespace CursorWorld

open BufferList

variable {alloc : Allocator} {page rounds : ℕ} {w w' : CursorWorld} {n m : ℕ}

/-- The invariant: the lists are valid and not too long, and the cursors are settled. -/
structure Steady (w : CursorWorld) : Prop where
  sane : w.Sane
  linked : w.Linked

theorem steady_init : Steady {} where
  sane := ⟨⟨_, BufferWorld.valid_init⟩, fun _ ↦ Nat.two_pow_pos 31⟩
  linked := ⟨fun _ ↦ rfl, fun _ ↦ List.nodup_nil, fun _ _ _ hid ↦ absurd hid List.not_mem_nil,
    fun _ _ hid ↦ absurd hid List.not_mem_nil, fun _ ↦ .inl rfl⟩

theorem Steady.firm (hw : w.Steady) (n : ℕ) : (w.cached n).Firm w.heap :=
  ⟨hw.sane.proper n, hw.sane.len_lt n, hw.linked.length n, hw.linked.nodup n, hw.linked.settled n⟩

theorem Steady.invisible (hw : w.Steady) : w.Invisible := fun n m _ _ _ hsrc hle ↦
  ⟨(hw.firm n).delivers (hw.sane.proper m) hsrc hle,
    (hw.firm n).rewind.delivers (hw.sane.proper m) hsrc hle⟩

/-! ## Steps

An operation either leaves the elements of a list where they are and adds some at the end, or makes
a list anew, or moves elements from list to list. The first does no harm to a cursor; for some of
the others the condition is needed. -/

theorem apart_put (w : CursorWorld) (n : ℕ) (x : Heap × BufferList) : w.Apart (w.put n x) n := by
  intro k hk
  show (Function.update w.lists n x.2 k).buffers = _
  rw [Function.update_of_ne hk]

theorem lists_put (w : CursorWorld) (n : ℕ) (x : Heap × BufferList) :
    (w.put n x).lists n = x.2 := Function.update_self ..

/-- A claim: the elements move, and the other list is left empty. -/
theorem Linked.claim {x : Heap × BufferList × BufferList} {ids : List ℕ} {c : Cursor} (hw : w.Linked)
    (hne : n ≠ m) (hempty : x.2.2.buffers = []) (hlength : ids.length = x.2.1.buffers.length)
    (hnodup : ids.Nodup) (hids : ∀ id ∈ ids, id ∈ w.nodes n ∨ id ∈ w.nodes m)
    (hsettled : c.Settled x.2.1.buffers ids) : (w.linkMoved (w.putBoth n m x) n m ids c).Linked := by
  have hn : (w.putBoth n m x).lists n = x.2.1 := by
    show Function.update (Function.update w.lists n x.2.1) m x.2.2 n = _
    rw [Function.update_of_ne hne, Function.update_self]
  have hm : (w.putBoth n m x).lists m = x.2.2 := Function.update_self ..
  refine hw.linkMoved (fun k hkn hkm ↦ ?_) (by rw [hm, hempty]) (by rw [hn, hlength]) hnodup hids
    (by rw [hn]; exact hsettled)
  show (Function.update (Function.update w.lists n x.2.1) m x.2.2 k).buffers = _
  rw [Function.update_of_ne hkm, Function.update_of_ne hkn]

theorem Linked.disjoint (hw : w.Linked) (hne : n ≠ m) : (w.nodes n).Disjoint (w.nodes m) := fun id hn hm ↦
  hne (hw.owner n m id hn hm)

/-- A list has grown at its end. -/
theorem Linked.grown {x : Heap × BufferList} (hw : w.Linked) (hx : Extends (w.lists n).buffers x.2.buffers) :
    (w.linkBack (w.put n x) n).Linked :=
  hw.linkBack (apart_put w n x) (by rw [lists_put]; exact hx)

/-- A pointer has been made, and the lists are as they were. -/
theorem Linked.point {p : ℕ} {x : Heap × Ptr} (hw : w.Linked) :
    ({ w with toBufferWorld := w.point p x } : CursorWorld).Linked :=
  ⟨hw.length, hw.nodup, hw.owner, hw.lt, hw.settled⟩

/-- A segment at the front moves the others up: `last_p` may not stand on one of them. -/
theorem Linked.pushFront {p : Ptr} (hw : w.Linked) (hend : p.len = 0 ∨ w.AtEnd n) :
    (w.linkFront (w.put n (w.heap, (w.lists n).pushFront p)) n).Linked := by
  refine hw.linkFront (apart_put w n _) ?_ ?_
  · rw [lists_put, BufferList.pushFront]
    by_cases hzero : p.len = 0
    · rw [if_pos hzero]
    · rw [if_neg hzero, List.length_cons]
      exact Nat.le_succ _
  · refine hend.imp_left fun hzero ↦ ?_
    rw [lists_put, BufferList.pushFront, if_pos hzero]

theorem Linked.claimAll {flag : Bool} (hw : w.Linked) (hne : n ≠ m) :
    (w.linkMoved (w.putBoth n m (BufferList.claim alloc w.heap (w.lists n) (w.lists m) flag)) n m
      (w.nodes m) {}).Linked := by
  refine hw.claim hne rfl ?_ (hw.nodup m) (fun id hid ↦ .inr hid) (.inl rfl)
  exact (hw.length m).trans (length_giveAway alloc w.heap (w.lists m) flag).symm

theorem Linked.claimAppend {flag : Bool} (hw : w.Linked) (hne : n ≠ m) :
    (w.linkMoved (w.putBoth n m (BufferList.claimAppend alloc w.heap (w.lists n) (w.lists m) flag)) n m
      (w.nodes n ++ w.nodes m) (w.lastP n)).Linked := by
  refine hw.claim hne rfl ?_ ((hw.nodup n).append (hw.nodup m) (hw.disjoint hne))
    (fun id ↦ List.mem_append.mp) ((hw.settled n).extends (.append _ _) _)
  rw [List.length_append, hw.length n, hw.length m]
  show _ = ((w.lists n).buffers ++ (giveAway alloc w.heap (w.lists m) flag).2).length
  rw [List.length_append, length_giveAway]

/-- What is claimed is put before the own segments, so that it must be nothing unless `last_p` is at the end. -/
theorem Linked.claimPrepend {flag : Bool} (hw : w.Linked) (hne : n ≠ m)
    (hend : (w.lists m).buffers = [] ∨ w.AtEnd n) :
    (w.linkMoved (w.putBoth n m (BufferList.claimPrepend alloc w.heap (w.lists n) (w.lists m) flag)) n m
      (w.nodes m ++ w.nodes n) (w.lastP n)).Linked := by
  have hgiven := length_giveAway alloc w.heap (w.lists m) flag
  refine hw.claim hne rfl ?_ ((hw.nodup m).append (hw.nodup n) (hw.disjoint hne.symm))
    (fun id hid ↦ (List.mem_append.mp hid).symm) ?_
  · rw [List.length_append, hw.length n, hw.length m]
    show _ = ((giveAway alloc w.heap (w.lists m) flag).2 ++ (w.lists n).buffers).length
    rw [List.length_append, hgiven]
  rcases hend with hbuffers | hend
  · have hnodes : w.nodes m = [] := List.length_eq_zero_iff.mp (by rw [hw.length m, hbuffers]; rfl)
    have hgiven' : (giveAway alloc w.heap (w.lists m) flag).2 = [] :=
      List.length_eq_zero_iff.mp (by rw [hgiven, hbuffers]; rfl)
    show (w.lastP n).Settled ((giveAway alloc w.heap (w.lists m) flag).2 ++ (w.lists n).buffers) _
    rw [hgiven', hnodes]
    exact hw.settled n
  · exact .inl hend

/-- The elements follow an operation. -/
theorem Linked.follow {op : BufferOp} {lists : BufferWorld} (hw : w.Linked) (hop : w.toBufferWorld.Legal op)
    (hkeeps : w.Keeps alloc (.base op)) (hzero : ∀ k, (w.lists k).len = 0 → (w.lists k).buffers = [])
    (hpos : ∀ k, ∀ p ∈ (lists.lists k).buffers, 0 < p.len)
    (hstep : w.toBufferWorld.step alloc page rounds op = some lists) : (w.follow lists op).Linked := by
  cases op with
  | list n =>
    rw [BufferWorld.step, Option.some_inj] at hstep
    rw [← hstep]
    exact hw.renew (apart_put w n _) rfl
  | clear n =>
    rw [BufferWorld.step, Option.some_inj] at hstep
    rw [← hstep]
    exact hw.renew (apart_put w n _) rfl
  | copyOf n m =>
    rw [BufferWorld.step, Option.some_inj] at hstep
    have hrenew : (w.renew lists n {}).Linked := by
      rw [← hstep]
      exact hw.renew (apart_put w n _) rfl
    exact hrenew.rewind (hpos n)
  | assign n m =>
    rw [CursorWorld.follow]
    rw [BufferWorld.step, Option.some_inj] at hstep
    by_cases hnm : n = m
    · rw [if_pos hnm]
      exact hw
    · rw [if_neg hnm] at hstep ⊢
      rw [← hstep]
      exact hw.renew (apart_put w n _) (hkeeps.2.resolve_left hnm)
  | share n m =>
    rw [CursorWorld.follow]
    rw [BufferWorld.step, Option.some_inj] at hstep
    by_cases hnm : n = m
    · rw [if_pos hnm]
      exact hw
    · rw [if_neg hnm] at hstep ⊢
      rw [← hstep]
      exact hw.renew (apart_put w n _) rfl
  | appendChar n c =>
    obtain ⟨x, hx, rfl⟩ := Option.map_eq_some_iff.mp hstep
    exact hw.grown (appendChar_extends hx)
  | appendData n src =>
    obtain ⟨x, hx, rfl⟩ := Option.map_eq_some_iff.mp hstep
    exact hw.grown (appendData_extends hx)
  | appendPtr n p =>
    rw [BufferWorld.step, Option.some_inj, appendPtr_eq] at hstep
    rw [← hstep]
    exact hw.grown (pushBack_extends _ _)
  | appendSub n p off len =>
    obtain ⟨l, hl, rfl⟩ := Option.map_eq_some_iff.mp hstep
    exact hw.grown (appendSub_extends hl)
  | appendList n m =>
    rw [BufferWorld.step, Option.some_inj] at hstep
    rw [← hstep]
    exact hw.grown (.append _ _)
  | pushBack n p =>
    rw [BufferWorld.step, Option.some_inj] at hstep
    rw [← hstep]
    exact hw.grown (pushBack_extends _ _)
  | pushFront n p =>
    rw [BufferWorld.step, Option.some_inj] at hstep
    rw [← hstep]
    exact hw.pushFront hkeeps.2
  | claim n m flag =>
    rw [BufferWorld.step, Option.some_inj] at hstep
    rw [← hstep]
    exact hw.claimAll hop.1
  | claimAppend n m flag =>
    rw [BufferWorld.step, Option.some_inj] at hstep
    rw [← hstep]
    exact hw.claimAppend hop.1
  | claimPrepend n m flag =>
    rw [BufferWorld.step, Option.some_inj] at hstep
    rw [← hstep]
    exact hw.claimPrepend hop.1 (hkeeps.2.imp_left (hzero m))
  | swap n m =>
    rw [BufferWorld.step, Option.some_inj] at hstep
    have hswap : ((w.relink lists n (w.nodes m) {} w.next).relink lists m (w.nodes n) {} w.next).Linked :=
      hw.swap fun k ↦ by rw [← hstep]; exact BufferWorld.lists_swap w.toBufferWorld n m k
    exact (hswap.rewind (hpos n)).rewind (hpos m)
  | rebuild n =>
    obtain ⟨x, hx, rfl⟩ := Option.map_eq_some_iff.mp hstep
    exact hw.renew (apart_put w n _) hkeeps.2
  | pointer p src shareable =>
    rw [BufferWorld.step, Option.some_inj] at hstep
    rw [← hstep]
    exact hw.point
  | segment p n i =>
    rw [BufferWorld.step, Option.some_inj] at hstep
    rw [← hstep]
    exact hw.point
  | subPtr p q off len =>
    obtain ⟨x, -, rfl⟩ := Option.map_eq_some_iff.mp hstep
    exact hw.point

theorem follow_lists {op : BufferOp} {lists : BufferWorld}
    (hstep : w.toBufferWorld.step alloc page rounds op = some lists) :
    (w.follow lists op).toBufferWorld = lists := by
  cases op with
  | assign n m =>
    rw [CursorWorld.follow]
    rw [BufferWorld.step, Option.some_inj] at hstep
    by_cases hnm : n = m
    · rw [if_pos hnm] at hstep ⊢
      exact hstep
    · rw [if_neg hnm]
      rfl
  | share n m =>
    rw [CursorWorld.follow]
    rw [BufferWorld.step, Option.some_inj] at hstep
    by_cases hnm : n = m
    · rw [if_pos hnm] at hstep ⊢
      exact hstep
    · rw [if_neg hnm]
      rfl
  | _ => rfl

theorem Steady.step_base {op : BufferOp} {lists : BufferWorld} (hpage : 0 < page) (hdvd : page ∣ 2 ^ 32)
    (hw : w.Steady) (hop : w.toBufferWorld.Legal op) (hkeeps : w.Keeps alloc (.base op))
    (hstep : w.toBufferWorld.step alloc page (rounds + 2) op = some lists) :
    (w.follow lists op).Steady := by
  obtain ⟨used, hvalid⟩ := hw.sane.valid
  have hroom : w.toBufferWorld.Room page op := by
    by_contra hroom
    rw [BufferWorld.step_of_not_room hpage hdvd hop hroom] at hstep
    exact absurd hstep (by simp)
  obtain ⟨lists', used', hstep', hvalid', hstrings⟩ := hvalid.step alloc rounds hpage hdvd hop hroom
    fun n ↦ (hw.sane.short n).trans (by decide)
  rw [hstep, Option.some_inj] at hstep'
  rw [← hstep'] at hvalid' hstrings
  have hlists := follow_lists hstep
  refine ⟨⟨⟨used', by rw [hlists]; exact hvalid'⟩, fun n ↦ ?_⟩, ?_⟩
  · rw [hlists, hstrings]
    exact hkeeps.1 n
  · refine hw.linked.follow hop hkeeps (fun k hk ↦ ?_) (fun k p hp ↦ ((hvalid'.good k).segment p hp).2) hstep
    have hzero : ((w.lists k).buffers.map Ptr.len).sum = 0 := by
      rw [← (hw.sane.proper k).len]
      exact hk
    cases hbuffers : (w.lists k).buffers with
    | nil => rfl
    | cons p ps =>
      have hpos := ((hvalid.good k).segment p (by rw [hbuffers]; exact List.mem_cons_self)).2
      rw [hbuffers, List.map_cons, List.sum_cons] at hzero
      omega

/-- The cursor is left settled. -/
theorem Steady.leave {t : Traversal} {off len : ℕ} (hw : w.Steady)
    (hcalm : CachedList.Calm (w.cached n) w.heap off len t) (hleave : w.leave n t = some w') :
    w'.Steady ∧ w' = { w with lastP := Function.update w.lastP n t.lastP } := by
  have hw' : w' = { w with lastP := Function.update w.lastP n t.lastP } := by
    rw [CursorWorld.leave] at hleave
    rcases hcalm.stop with hstop | hstop
    · rw [hstop] at hleave
      exact (Option.some_inj.mp hleave).symm
    · rw [hstop] at hleave
      exact (Option.some_inj.mp hleave).symm
  rw [hw']
  exact ⟨⟨hw.sane, hw.linked.setCursor hcalm.settled⟩, rfl⟩

theorem Steady.step_copy {off len : UInt32} (hw : w.Steady)
    (hstep : w.step alloc page rounds (.copy n off len) = some w') : w'.Steady := by
  obtain ⟨t, hvisit, hcalm⟩ := (hw.firm n).visit true off len
  rw [CursorWorld.step, CachedList.copy, hvisit, Option.map_some, Option.bind_some] at hstep
  exact (hw.leave hcalm hstep).1

theorem Steady.step_copyString {off len : UInt32} (hw : w.Steady)
    (hstep : w.step alloc page rounds (.copyString n off len) = some w') : w'.Steady := by
  obtain ⟨t, htraverse, hcalm⟩ := (hw.firm n).traverse false off len
  rw [CursorWorld.step, CachedList.copyString, htraverse, Option.map_some, Option.bind_some] at hstep
  exact (hw.leave hcalm hstep).1

theorem Steady.step_copyIn {off : UInt32} {src : Bytes} (hw : w.Steady) (hsrc : src.length < 2 ^ 32)
    (hstep : w.step alloc page rounds (.copyIn n off src) = some w') : w'.Steady := by
  obtain ⟨t, hvisit, hcalm⟩ := (hw.firm n).visit false off (.ofNat src.length)
  obtain ⟨o, k, hcovers, hk⟩ := hcalm.visited
  rw [UInt32.toNat_ofNat', Nat.mod_eq_of_lt hsrc] at hk
  have hproper := hw.sane.proper n
  have hfold := foldl_writePart hproper.segment (hproper.covers_cells hcovers) hk
  rw [CursorWorld.step, CachedList.copyIn, hvisit, Option.map_some, Option.bind_some] at hstep
  have hpokes : (t.parts.foldl (CachedList.writePart (w.cached n).list.buffers) (some w.heap, src)).1 =
      some (w.heap.pokes (((w.lists n).cells.drop o).take k) (src.take k)) := congrArg Prod.fst hfold
  dsimp only at hstep
  rw [hpokes, Option.bind_some] at hstep
  obtain ⟨w₁, hleave, rfl⟩ := Option.map_eq_some_iff.mp hstep
  obtain ⟨hsteady, hw₁⟩ := hw.leave hcalm hleave
  have hcells : ∀ c ∈ ((w.lists n).cells.drop o).take k, w.heap.Has c := fun c hc ↦
    hproper.has c (List.mem_of_mem_drop (List.mem_of_mem_take hc))
  obtain ⟨used, hvalid⟩ := hw.sane.valid
  have hpoked := hvalid.pokes hcells (src.take k)
  subst hw₁
  refine ⟨⟨⟨used, hpoked⟩, fun j ↦ ?_⟩, hsteady.linked.length, hsteady.linked.nodup, hsteady.linked.owner,
    hsteady.linked.lt, hsteady.linked.settled⟩
  have hlength := (hpoked.good j).length_contents hpoked.tidy
  have hshort := hw.sane.len_lt j
  rw [(hw.sane.proper j).len] at hshort
  exact hlength.trans_lt hshort

theorem Steady.step_copyTo {off len : UInt32} (hw : w.Steady) (hkeeps : w.Keeps alloc (.copyTo n off len m))
    (hstep : w.step alloc page rounds (.copyTo n off len m) = some w') : w'.Steady := by
  obtain ⟨t, hvisit, hcalm⟩ := (hw.firm n).visit false off len
  obtain ⟨o, k, hcovers, hk⟩ := hcalm.visited
  obtain ⟨used, hvalid⟩ := hw.sane.valid
  obtain ⟨dest, hfold, hsound, hcontents, hsame⟩ := CachedList.foldl_appendPart hvalid.tidy
    (hvalid.good n).segment hcovers (hvalid.good m).sound
  have hdest : t.parts.foldl (CachedList.appendPart (w.cached n).list.buffers) (some (w.lists m)) =
      some dest := hfold
  rw [CursorWorld.step, CachedList.copyTo, hvisit, Option.map_some, Option.bind_some] at hstep
  dsimp only at hstep
  rw [hdest, Option.bind_some] at hstep
  obtain ⟨w₁, hleave, rfl⟩ := Option.map_eq_some_iff.mp hstep
  obtain ⟨hsteady, hw₁⟩ := hw.leave hcalm hleave
  have hlt : (dest.contents w.heap).length < 2 ^ 31 := by
    have hn := hw.sane.len_eq n
    have hm := hw.sane.len_eq m
    rw [contents] at hn
    have hsum : (w.lists m).len + min (w.lists n).len len.toNat < 2 ^ 31 := hkeeps
    rw [hcontents, List.length_append, List.length_take, List.length_drop]
    omega
  subst hw₁
  refine ⟨hw.sane.replace hvalid hsound hsame hlt, hsteady.linked.linkBack (apart_put w m _) ?_⟩
  show Extends (w.lists m).buffers ((w.put m (w.heap, dest)).lists m).buffers
  rw [lists_put]
  exact foldl_appendPart_extends hfold

theorem Steady.step_splice {off len : UInt32} {claimBy : Option ℕ} (hw : w.Steady)
    (hop : w.Legal (.splice n off len claimBy)) (hkeeps : w.Keeps alloc (.splice n off len claimBy))
    (hstep : w.step alloc page rounds (.splice n off len claimBy) = some w') : w'.Steady := by
  rw [CursorWorld.step] at hstep
  -- without bytes `splice` returns at once
  by_cases hzero : len = 0
  · have hnothing : (w.lists n).splice off.toNat len.toNat (claimBy.map w.lists) =
        .ok (w.lists n, claimBy.map w.lists) := by
      rw [hzero, splice]
      exact if_pos rfl
    rw [hnothing] at hstep
    dsimp only at hstep
    rw [if_pos hzero, Option.some_inj] at hstep
    exact hstep ▸ hw
  have hne : len.toNat ≠ 0 := fun h ↦ hzero (UInt32.toNat_inj.mp h)
  -- at the end of the list it throws, and nothing has changed
  by_cases hend : (w.lists n).len ≤ off.toNat
  · have hthrows : (w.lists n).splice off.toNat len.toNat (claimBy.map w.lists) = .error .endOfBuffer := by
      rw [splice, if_neg hne, if_pos hend]
    rw [hthrows] at hstep
    exact Option.some_inj.mp hstep ▸ hw
  obtain ⟨used, hvalid⟩ := hw.sane.valid
  have hproper := hw.sane.proper n
  have hsum := hproper.len
  have hclaims : ∀ c ∈ claimBy.map w.lists, c.Sound w.heap used := by
    intro c hc
    obtain ⟨m, -, rfl⟩ := Option.mem_map.mp hc
    exact (hvalid.good m).sound
  obtain ⟨l, d, hsplice, hsound, hcontents, hsame, hclaim⟩ := splice_eq (hvalid.good n).sound hvalid.tidy
    hproper.sum_lt hclaims (Nat.pos_of_ne_zero hne) (by rw [← hsum]; exact Nat.not_le.mp hend) hkeeps.1
  rw [hsplice] at hstep
  dsimp only at hstep
  rw [if_neg hzero] at hstep
  have hlt : (l.contents w.heap).length < 2 ^ 31 := by
    have hn := hw.sane.short n
    change ((w.lists n).contents w.heap).length < 2 ^ 31 at hn
    rw [hcontents, List.length_append, List.length_take, List.length_drop]
    omega
  have hlinked : ((w.renew (w.put n (w.heap, l)) n {}).rewind n).Linked := by
    refine (hw.linked.renew (apart_put w n _) rfl).rewind fun p hp ↦ (hsound.segment p ?_).2
    change p ∈ ((w.put n (w.heap, l)).lists n).buffers at hp
    rwa [lists_put] at hp
  have hsane := hw.sane.replace hvalid hsound hsame hlt
  cases claimBy with
  | none => exact Option.some_inj.mp hstep ▸ ⟨hsane, hlinked⟩
  | some m =>
    obtain ⟨hnm, hlegal⟩ := hop m rfl
    obtain ⟨c, rfl, hcsound, hccontents, hcsame⟩ := hclaim.of_some
    obtain ⟨c', hc', hextends⟩ := splice_extends hsplice
    obtain rfl := Option.some_inj.mp hc'
    have hm : (w.put n (w.heap, l)).lists m = w.lists m := Function.update_of_ne (Ne.symm hnm) ..
    have hclt : (c.contents w.heap).length < 2 ^ 31 := by
      have hlenm := hw.sane.len_eq m
      have hlenn := hw.sane.len_eq n
      have hkeep : (w.lists m).len + min (w.lists n).len len.toNat < 2 ^ 31 := hkeeps.2 m rfl
      rw [hccontents, List.length_append, List.length_take, List.length_drop]
      omega
    refine Option.some_inj.mp hstep ▸ ⟨?_, ?_⟩
    · exact hsane.replace (hvalid.replace hsound hsame) hcsound (by rw [hm]; exact hcsame) hclt
    · refine hlinked.linkBack (apart_put _ m _) ?_
      show Extends ((w.put n (w.heap, l)).lists m).buffers _
      rw [hm, lists_put]
      exact hextends

theorem Steady.step_substrOf {off len : UInt32} (hw : w.Steady)
    (hkeeps : w.Keeps alloc (.substrOf n m off len))
    (hstep : w.step alloc page rounds (.substrOf n m off len) = some w') : w'.Steady := by
  rw [CursorWorld.step] at hstep
  have hadd : add32 off.toNat len.toNat = off.toNat + len.toNat := add32_of_lt hkeeps
  by_cases hbeyond : (w.lists m).len < off.toNat + len.toNat
  · have hthrows : (w.lists n).substrOf (w.lists m) off.toNat len.toNat =
        (w.lists n, some .endOfBuffer) := by
      rw [substrOf, hadd, if_pos hbeyond]
    rw [hthrows] at hstep
    exact Option.some_inj.mp hstep ▸ hw
  obtain ⟨used, hvalid⟩ := hw.sane.valid
  have hproper := hw.sane.proper m
  obtain ⟨l, hsubstr, hsound, hcontents, hsame⟩ := substrOf_eq (w.lists n) (hvalid.good m).sound hvalid.tidy
    hproper.sum_lt (show off.toNat + len.toNat ≤ _ by rw [← hproper.len]; omega)
  rw [hsubstr] at hstep
  have hlt : (l.contents w.heap).length < 2 ^ 31 := by
    have hm := hw.sane.len_eq m
    have hshort := hw.sane.len_lt m
    rw [hcontents, List.length_take, List.length_drop]
    omega
  exact Option.some_inj.mp hstep ▸
    ⟨hw.sane.replace hvalid hsound hsame hlt, hw.linked.renew (apart_put w n _) rfl⟩

theorem Steady.step_rebuildAligned {size mem : ℕ} (hw : w.Steady)
    (hkeeps : w.Keeps alloc (.rebuildAligned n size mem))
    (hstep : w.step alloc page rounds (.rebuildAligned n size mem) = some w') : w'.Steady := by
  obtain ⟨used, hvalid⟩ := hw.sane.valid
  have hgood := hvalid.good n
  have hproper := hw.sane.proper n
  obtain ⟨h', ps, used', hrun, hg, -, hstands, -⟩ :=
    realign_spec size mem alloc hgood.segment hvalid.tidy hproper.sum_lt
  rw [CursorWorld.step, BufferList.rebuildAligned, hrun] at hstep
  have hbecomes : Becomes w.heap used (w.lists n) h' { w.lists n with buffers := ps }
      ((w.lists n).contents w.heap) :=
    hstands.becomes hgood hg rfl rfl (hgood.tail_grows hg) fun _ _ hr ↦ hr
  obtain ⟨hlength, hnodup, hkept, hholds⟩ := realignNodes_spec size mem alloc hgood.segment hvalid.tidy
    hproper.sum_lt (hw.linked.length n) (hw.linked.nodup n) (hw.linked.lt n) hrun
  refine Option.some_inj.mp hstep ▸ ⟨hw.sane.put hvalid hbecomes (hw.sane.short n), ?_⟩
  refine hw.linked.relink (Nat.le_add_right _ _) (apart_put w n _) ?_ hnodup hkept ?_
  · rw [lists_put]
    exact hlength
  · rw [lists_put]
    rcases hw.linked.settled n with hend | ⟨pre, p, suf, before, id, after, hps, hids, hlen, hnode, hpOff, hoff⟩
    · exact .inl hend
    · obtain ⟨pre', suf', before', after', hps', hids', hlen', hsum⟩ :=
        hholds id (hkeeps id hnode) p _ ⟨pre, suf, before, after, hps, hids, hlen, rfl⟩
      exact .inr ⟨pre', p, suf', before', id, after', hps', hids', hlen', hnode, hpOff,
        by rw [hsum]; exact hoff⟩

theorem Steady.step_cStr (hw : w.Steady) (hkeeps : w.Keeps alloc (.cStr n))
    (hstep : w.step alloc page rounds (.cStr n) = some w') : w'.Steady := by
  rw [CursorWorld.step] at hstep
  obtain ⟨x, hx, rfl⟩ := Option.map_eq_some_iff.mp hstep
  by_cases hmany : 1 < (w.lists n).buffers.length
  · rw [if_pos hmany]
    have hrebuild : cStr alloc w.heap (w.lists n) =
        (rebuild alloc w.heap (w.lists n)).map fun y ↦ (y.1, y.2, y.2.buffers.headD {}) := by
      rw [cStr]
      split
      · next hnil =>
        rw [hnil] at hmany
        exact absurd hmany (by decide)
      · next p hsingle =>
        rw [hsingle] at hmany
        exact absurd hmany (Nat.lt_irrefl 1)
      · rfl
    rw [hrebuild] at hx
    obtain ⟨⟨h', l'⟩, hy, rfl⟩ := Option.map_eq_some_iff.mp hx
    obtain ⟨used, hvalid⟩ := hw.sane.valid
    obtain ⟨h'', l'', hy', hbecomes⟩ : ∃ h' l', rebuild alloc w.heap (w.lists n) = some (h', l') ∧ _ :=
      rebuild_becomes (hvalid.good n) hvalid.tidy ((hw.sane.short n).trans (by decide))
    rw [hy, Option.some_inj] at hy'
    obtain ⟨rfl, rfl⟩ := Prod.mk.inj hy'
    exact ⟨hw.sane.put hvalid hbecomes (hw.sane.short n),
      hw.linked.renew (apart_put w n _) (hkeeps.resolve_left (Nat.not_le.mpr hmany))⟩
  · rw [if_neg hmany]
    exact hw

/-- **One operation** that does not displace a cursor keeps the invariant. -/
theorem Steady.step {op : CursorOp} (hpage : 0 < page) (hdvd : page ∣ 2 ^ 32) (hw : w.Steady)
    (hop : w.Legal op) (hkeeps : w.Keeps alloc op)
    (hstep : w.step alloc page (rounds + 2) op = some w') : w'.Steady := by
  cases op with
  | base op =>
    obtain ⟨lists, hlists, rfl⟩ := Option.map_eq_some_iff.mp hstep
    exact hw.step_base hpage hdvd hop hkeeps hlists
  | splice n off len claimBy => exact hw.step_splice hop hkeeps hstep
  | substrOf n m off len => exact hw.step_substrOf hkeeps hstep
  | rebuildAligned n size mem => exact hw.step_rebuildAligned hkeeps hstep
  | cStr n => exact hw.step_cStr hkeeps hstep
  | copy n off len => exact hw.step_copy hstep
  | copyString n off len => exact hw.step_copyString hstep
  | copyTo n off len m => exact hw.step_copyTo hkeeps hstep
  | copyIn n off src => exact hw.step_copyIn hop hstep

/-! ## Runs

The run lemma, and a run that leaves the invariant: two bytes, a copy that moves the cursor to the
second one, and a byte put in front of them. -/

/-- **The cached cursor is invisible** in every state that a run reaches in which no operation displaces a
cursor. -/
theorem invisible_of_keeps (hpage : 0 < page) (hdvd : page ∣ 2 ^ 32) {ops : List CursorOp}
    (hlegal : Run.Meets (step alloc page (rounds + 2)) (fun w op ↦ w.Legal op ∧ w.Keeps alloc op) {} ops)
    (hrun : Run.exec (step alloc page (rounds + 2)) {} ops = some w) : w.Invisible :=
  Steady.invisible (Run.invariant_of_meets (fun _ _ _ hw hmeets hstep ↦
    hw.step hpage hdvd hmeets.1 hmeets.2 hstep) steady_init hlegal hrun)

/-- An allocator. -/
def pages : Allocator := ⟨fun n ↦ 4096 * n, fun _ _ ↦ 0⟩

/-- Two bytes are put into a list, and one of them is copied. -/
def copied : List CursorOp := [.base (.pointer 0 [1, 2] true), .base (.pushBack 0 0), .copy 0 0 1]

/-- Another byte is put in front of them. -/
def displaced : List CursorOp := copied ++ [.base (.pointer 1 [3] true), .base (.pushFront 0 1)]

/-- A list is short after an operation if it was short, or is the one that the operation has changed. -/
theorem short_set {s : Strings} {k : ℕ} {bs : Bytes} (hs : ∀ j, j ≠ k → s.lists j = []) (hbs : bs.length < 8)
    (j : ℕ) : ((s.set k bs).lists j).length < 8 := by
  show (Function.update s.lists k bs j).length < 8
  by_cases hj : j = k
  · rw [hj, Function.update_self]
    exact hbs
  · rw [Function.update_of_ne hj, hs j hj]
    exact Nat.succ_pos 7

theorem invisible_copied : ∃ w, Run.exec (step pages 4096 2) {} copied = some w ∧ w.Invisible := by
  obtain ⟨w, hrun⟩ : ∃ w, Run.exec (step pages 4096 2) {} copied = some w := ⟨_, rfl⟩
  have hmeets : Run.Meets (step pages 4096 (0 + 2)) (fun w op ↦ w.Legal op ∧ w.Keeps pages op) {} copied := by
    refine ⟨⟨⟨trivial, fun _ ↦ Nat.two_pow_pos 32⟩, fun _ ↦ Nat.two_pow_pos 31, trivial⟩, fun w₁ hw₁ ↦ ?_⟩
    obtain rfl := Option.some_inj.mp hw₁
    have hshort (n : ℕ) := short_set (s := (({} : BufferWorld).expected (.pointer 0 [1, 2] true))) (k := 0)
      (fun _ _ ↦ rfl) (show ([1, 2] : Bytes).length < 8 by decide) n
    exact ⟨⟨⟨trivial, fun n ↦ (hshort n).trans (by decide)⟩, fun n ↦ (hshort n).trans (by decide), trivial⟩,
      fun _ _ ↦ ⟨⟨trivial, trivial⟩, fun _ _ ↦ trivial⟩⟩
  exact ⟨w, hrun, invisible_of_keeps (by decide) ⟨2 ^ 20, by decide⟩ hmeets hrun⟩

/-- The cursor still says that it is at byte 1, and the call delivers byte 2. -/
theorem displaced_copies_behind : ¬∀ (alloc : Allocator) (page rounds : ℕ) (ops : List CursorOp)
    (w : CursorWorld), 0 < page → page ∣ 2 ^ 32 →
    Run.Meets (step alloc page (rounds + 2)) (fun w op ↦ w.Legal op) {} ops →
    Run.exec (step alloc page (rounds + 2)) {} ops = some w → w.Invisible := by
  intro hall
  obtain ⟨w, hrun, hlen, hcontents, hcopy⟩ : ∃ w, Run.exec (step pages 4096 (0 + 2)) {} displaced = some w ∧
      (w.lists 0).len = 3 ∧ (w.lists 0).contents w.heap = [3, 1, 2] ∧
      ((w.cached 0).copy w.heap 1 1).map Prod.fst = some [2] := ⟨_, rfl, rfl, rfl, rfl⟩
  have hlegal : Run.Meets (step pages 4096 (0 + 2)) (fun w op ↦ w.Legal op) {} displaced := by
    refine ⟨⟨trivial, fun _ ↦ Nat.two_pow_pos 32⟩, fun w₁ hw₁ ↦ ?_⟩
    obtain rfl := Option.some_inj.mp hw₁
    have hshort (n : ℕ) := short_set (s := (({} : BufferWorld).expected (.pointer 0 [1, 2] true))) (k := 0)
      (fun _ _ ↦ rfl) (show ([1, 2] : Bytes).length < 8 by decide) n
    refine ⟨⟨trivial, fun n ↦ (hshort n).trans (by decide)⟩, fun w₂ hw₂ ↦ ⟨trivial, fun w₃ hw₃ ↦ ?_⟩⟩
    obtain rfl := Option.some_inj.mp hw₂
    have hother {n : ℕ} (hn : n ≠ 0) : w₃.strings.lists n = [] := by
      rw [← Option.some_inj.mp hw₃]
      change BufferList.contents _ (Function.update (fun _ : ℕ ↦ ({} : BufferList)) 0 _ n) = []
      rw [Function.update_of_ne hn]
      rfl
    have hfirst : w₃.strings.lists 0 = [1, 2] := by
      rw [← Option.some_inj.mp hw₃]
      rfl
    refine ⟨⟨trivial, fun n ↦ ?_⟩, fun w₄ hw₄ ↦ ⟨⟨trivial, fun n ↦ ?_⟩, fun _ _ ↦ trivial⟩⟩
    · show (w₃.strings.lists n).length < 2 ^ 32
      by_cases hn : n = 0
      · rw [hn, hfirst]
        decide
      · rw [hother hn]
        exact Nat.two_pow_pos 32
    · have hother₄ {n : ℕ} (hn : n ≠ 0) : w₄.strings.lists n = [] := by
        rw [← Option.some_inj.mp hw₄, ← Option.some_inj.mp hw₃]
        change BufferList.contents _ (Function.update (fun _ : ℕ ↦ ({} : BufferList)) 0 _ n) = []
        rw [Function.update_of_ne hn]
        rfl
      have hparts : w₄.strings.ptrs 1 ++ w₄.strings.lists 0 = [3, 1, 2] := by
        rw [← Option.some_inj.mp hw₄, ← Option.some_inj.mp hw₃]
        rfl
      refine (short_set (s := w₄.strings) (k := 0) (fun j hj ↦ hother₄ hj) ?_ n).trans (show 8 < 2 ^ 32 by decide)
      show (w₄.strings.ptrs 1 ++ w₄.strings.lists 0).length < 8
      rw [hparts]
      decide
  obtain ⟨t, ht, -⟩ := (hall pages 4096 0 displaced w (by decide) ⟨2 ^ 20, by decide⟩ hlegal hrun 0 1 1 1 [0] rfl
    (by rw [hlen]; decide)).1.copy
  rw [ht, Option.map_some, Option.some_inj] at hcopy
  change (((w.lists 0).contents w.heap).drop 1).take 1 = [2] at hcopy
  rw [hcontents] at hcopy
  exact absurd hcopy (by decide)

end CursorWorld

end AsyncMessenger
