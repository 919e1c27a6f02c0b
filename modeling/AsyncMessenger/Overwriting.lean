import Mathlib.Data.List.Nodup
import AsyncMessenger.Bounds
import AsyncMessenger.Cells

/-!
# Writing into a list

`zero(o, l)` goes through all segments with a running offset, and compares it with the range in four ways.
`copy_in` of an iterator begins in the segment that the iterator is in. Both write the cells of the range
and no others.

The iterator moves by an `int`. So `copy_in` throws after a piece of `2^31` bytes or more, and at the end
of a list that long.

## Cells

A cell is a place in a raw buffer. The cells of a list are those of its segments, in order, and the
bytes of the list are what they hold. Two segments may share cells, and then a write to one is seen
in the other; the results are about lists whose segments are pairwise apart, and about every other
list as well, which keeps its bytes unless it shares one of the cells that are written.
-/

namespace AsyncMessenger

open Buffer

namespace Buffer.Ptr

/-- `zero()`; `none` is a failed assertion. -/
def zero (h : Heap) (p : Ptr) : Option Heap :=
  p.raw.map fun r ↦ h.write r p.off (List.replicate p.len 0)

/-- `zero(o, l)`. -/
def zeroAt (h : Heap) (p : Ptr) (o l : ℕ) : Option Heap :=
  if (o + l) % 2 ^ 32 ≤ p.len then p.raw.map fun r ↦ h.write r (p.off + o) (List.replicate l 0) else none

end Buffer.Ptr

namespace BufferList

/-- The body of the loop of `zero(o, l)`, at a segment that begins at `p`. -/
def zeroSegment (o l p : ℕ) (h : Heap) (it : Ptr) : Option Heap :=
  if o < add32 p it.len then
    if o ≤ p ∧ add32 p it.len ≤ add32 o l then it.zero h
    else if o ≤ p then it.zeroAt h 0 (sub32 (add32 o l) p)
    else if add32 p it.len ≤ add32 o l then it.zeroAt h (o - p) (sub32 it.len (o - p))
    else it.zeroAt h (o - p) l
  else some h

/-- The loop. -/
def zeroLoop (o l : ℕ) : ℕ → Heap → List Ptr → Option Heap
  | _, h, [] => some h
  | p, h, it :: rest =>
    (zeroSegment o l p h it).bind fun h ↦
      if add32 o l ≤ add32 p it.len then some h else zeroLoop o l (add32 p it.len) h rest

/-- `zero(o, l)`; `none` is a failed assertion. -/
def zero (h : Heap) (x : BufferList) (o l : ℕ) : Option Heap :=
  if add32 o l ≤ x.len then zeroLoop o l 0 h x.buffers else none

/-- `copy_in(len, src)` of an iterator: the memory unless an assertion has failed, the iterator, and how
the call has failed. -/
def copyInAt (h : Heap) (x : BufferList) (it : Iter) (src : Bytes) : Option Heap × Iter × Option Stop :=
  let r := it.proceed false (x.segments h) src.length
  ((r.1.foldl (CachedList.writePart x.buffers) (some h, src)).1, r.2)

/-- The cells of a list. -/
def cells (x : BufferList) : List Cell := x.buffers.flatMap Ptr.cells

variable {h h' : Heap} {x : BufferList} {it : Iter} {o l : ℕ} {ps : List Ptr} {p : Ptr} {src : Bytes}

/-! ## The cells of a list

Writing to some cells replaces their bytes, and those of no other. -/

theorem map_byteAt_flatMap (hps : ∀ p ∈ ps, p.In h h.extent) :
    (ps.flatMap Ptr.cells).map h.byteAt = (ps.flatMap (Ptr.bytes h)).map some := by
  induction ps with
  | nil => rfl
  | cons p ps ih =>
    rw [List.flatMap_cons, List.flatMap_cons, List.map_append, List.map_append,
      (hps p List.mem_cons_self).map_byteAt, ih fun q hq ↦ hps q (List.mem_cons_of_mem p hq)]

theorem length_flatMap_cells (hps : ∀ p ∈ ps, p.In h h.extent) :
    (ps.flatMap Ptr.cells).length = (ps.map Ptr.len).sum := by
  rw [List.length_flatMap]
  exact congrArg List.sum (List.map_congr_left fun p hp ↦ (hps p hp).length_cells)

theorem has_flatMap_cells (hps : ∀ p ∈ ps, p.In h h.extent) : ∀ c ∈ ps.flatMap Ptr.cells, h.Has c := by
  intro c hc
  obtain ⟨p, hp, hcp⟩ := List.mem_flatMap.mp hc
  exact (hps p hp).has c hcp

theorem extent_pokes {cs : List Cell} (hcs : ∀ c ∈ cs, h.Has c) (src : Bytes) :
    (h.pokes cs src).extent = h.extent := funext (Heap.length_bytes_pokes hcs src)

theorem in_pokes {cs : List Cell} (hp : p.In h h.extent)
    (hcs : ∀ c ∈ cs, h.Has c) (src : Bytes) : p.In (h.pokes cs src) (h.pokes cs src).extent := by
  rw [extent_pokes hcs]
  exact ⟨hp.1, fun r hr ↦ ⟨by rw [Heap.length_pokes]; exact (hp.2 r hr).1, (hp.2 r hr).2⟩⟩

theorem Proper.map_byteAt (hx : x.Proper h) : x.cells.map h.byteAt = (x.contents h).map some :=
  map_byteAt_flatMap fun p hp ↦ (hx.segment p hp).1

theorem Proper.length_cells (hx : x.Proper h) : x.cells.length = x.len :=
  (length_flatMap_cells fun p hp ↦ (hx.segment p hp).1).trans hx.len.symm

theorem Proper.has (hx : x.Proper h) : ∀ c ∈ x.cells, h.Has c :=
  has_flatMap_cells fun p hp ↦ (hx.segment p hp).1

theorem Proper.pokes (hx : x.Proper h) {cs : List Cell} (hcs : ∀ c ∈ cs, h.Has c) (src : Bytes) :
    x.Proper (h.pokes cs src) :=
  ⟨fun p hp ↦ ⟨in_pokes (hx.segment p hp).1 hcs src, (hx.segment p hp).2⟩, hx.len, hx.lt⟩

/-- If no cell occurs twice in the list, these bytes of the list are replaced. -/
theorem Proper.contents_pokes (hx : x.Proper h) (hnodup : x.cells.Nodup) (hle : o + src.length ≤ x.len) :
    x.contents (h.pokes ((x.cells.drop o).take src.length) src) = Iter.patch (x.contents h) o src := by
  have hlen := hx.length_cells
  have hsub : ∀ c ∈ (x.cells.drop o).take src.length, c ∈ x.cells := fun c hc ↦
    List.mem_of_mem_drop (List.mem_of_mem_take hc)
  have hcs : ∀ c ∈ (x.cells.drop o).take src.length, h.Has c := fun c hc ↦ hx.has c (hsub c hc)
  have hwritten : ((x.cells.drop o).take src.length).length = src.length := by
    rw [List.length_take, List.length_drop]
    omega
  obtain ⟨hfront, hpart, hmiddle⟩ := List.nodup_append.mp
    (show (x.cells.take o ++ x.cells.drop o).Nodup by rwa [List.take_append_drop])
  obtain ⟨hpart', hback, hend⟩ := List.nodup_append.mp
    (show ((x.cells.drop o).take src.length ++ (x.cells.drop o).drop src.length).Nodup by
      rwa [List.take_append_drop])
  have hbefore : (x.cells.take o).map (h.pokes ((x.cells.drop o).take src.length) src).byteAt =
      (x.cells.take o).map h.byteAt := by
    refine List.map_congr_left fun c hc ↦ Heap.byteAt_pokes_of_notMem hcs (fun hin ↦ ?_) src
    exact hmiddle c hc c (List.mem_of_mem_take hin) rfl
  have hafter : ((x.cells.drop o).drop src.length).map
      (h.pokes ((x.cells.drop o).take src.length) src).byteAt =
      ((x.cells.drop o).drop src.length).map h.byteAt := by
    refine List.map_congr_left fun c hc ↦ Heap.byteAt_pokes_of_notMem hcs (fun hin ↦ ?_) src
    exact hend c hin c hc rfl
  refine List.map_injective_iff.mpr (Option.some_injective _) ?_
  rw [← (hx.pokes hcs src).map_byteAt]
  have hsplit : x.cells = x.cells.take o ++ ((x.cells.drop o).take src.length ++
      (x.cells.drop o).drop src.length) := by
    rw [List.take_append_drop, List.take_append_drop]
  conv_lhs => arg 2; rw [hsplit]
  rw [List.map_append, List.map_append, hbefore, hafter, Heap.map_byteAt_pokes hcs hpart' hwritten,
    List.map_take, List.map_drop, List.map_drop, hx.map_byteAt, Iter.patch, List.map_append,
    List.map_append, ← List.map_take, List.drop_drop, ← List.map_drop, List.append_assoc]

/-! ## `zero` -/

theorem zero_eq_copyIn (hraw : p.raw.isSome) : p.zero h = p.copyIn h 0 (List.replicate p.len 0) := by
  obtain ⟨r, hr⟩ := Option.isSome_iff_exists.mp hraw
  simp only [Ptr.zero, Ptr.copyIn, hr, List.length_replicate, Nat.zero_add, le_refl, if_true,
    Nat.add_zero, Option.map_some]

theorem zeroAt_eq_copyIn (hraw : p.raw.isSome) (hle : o + l ≤ p.len) :
    p.zeroAt h o l = p.copyIn h o (List.replicate l 0) := by
  obtain ⟨r, hr⟩ := Option.isSome_iff_exists.mp hraw
  have hfits : (o + l) % 2 ^ 32 ≤ p.len := (Nat.mod_le ..).trans hle
  simp only [Ptr.zeroAt, Ptr.copyIn, hr, List.length_replicate, if_pos hle, if_pos hfits, Option.map_some]

/-- In each of the four cases the part of the segment that is in the range is overwritten. -/
theorem zeroSegment_eq {n : ℕ} (hp : p.In h h.extent ∧ 0 < p.len) (hn : n + p.len < 2 ^ 32)
    (hol : o + l < 2 ^ 32) (hlt : o < n + p.len) (hle : n ≤ o + l) :
    zeroSegment o l n h p =
      p.copyIn h (o - n) (List.replicate (min (o + l) (n + p.len) - max o n) 0) := by
  have hraw := raw_isSome hp
  rw [zeroSegment, add32_of_lt hn, add32_of_lt hol, if_pos hlt]
  by_cases hbefore : o ≤ n
  · have hfront : o - n = 0 := Nat.sub_eq_zero_of_le hbefore
    by_cases hwhole : n + p.len ≤ o + l
    · have hpart : min (o + l) (n + p.len) - max o n = p.len := by omega
      rw [if_pos ⟨hbefore, hwhole⟩, zero_eq_copyIn hraw, hfront, hpart]
    · have hpart : min (o + l) (n + p.len) - max o n = o + l - n := by omega
      rw [if_neg (fun h ↦ hwhole h.2), if_pos hbefore, sub32_of_le hol hle,
        zeroAt_eq_copyIn hraw (by omega), hfront, hpart]
  · rw [if_neg (fun h ↦ hbefore h.1), if_neg hbefore]
    by_cases hwhole : n + p.len ≤ o + l
    · have hpart : min (o + l) (n + p.len) - max o n = p.len - (o - n) := by omega
      rw [if_pos hwhole, sub32_of_le (by omega) (by omega), zeroAt_eq_copyIn hraw (by omega), hpart]
    · have hpart : min (o + l) (n + p.len) - max o n = l := by omega
      rw [if_neg hwhole, zeroAt_eq_copyIn hraw (by omega), hpart]

/-- The loop writes the cells of the range that are in these segments. -/
theorem zeroLoop_eq {n : ℕ} (hps : ∀ p ∈ ps, p.In h h.extent ∧ 0 < p.len)
    (hlt : n + (ps.map Ptr.len).sum < 2 ^ 32) (hle : o + l ≤ n + (ps.map Ptr.len).sum)
    (hn : n ≤ o + l) :
    zeroLoop o l n h ps = some (h.pokes (((ps.flatMap Ptr.cells).drop (o - n)).take (o + l - max o n))
      (List.replicate (o + l - max o n) 0)) := by
  induction ps generalizing n h with
  | nil =>
    rw [List.map_nil, List.sum_nil] at hle
    have hzero : o + l - max o n = 0 := by omega
    rw [hzero, zeroLoop]
    rfl
  | cons p ps ih =>
    have hp := hps p List.mem_cons_self
    have hps' : ∀ q ∈ ps, q.In h h.extent ∧ 0 < q.len := fun q hq ↦ hps q (List.mem_cons_of_mem p hq)
    rw [List.map_cons, List.sum_cons] at hlt hle
    have hcells := hp.1.length_cells
    rw [zeroLoop, List.flatMap_cons]
    by_cases hin : o < n + p.len
    · -- a part of the segment is in the range
      obtain ⟨k, hk⟩ : ∃ k, min (o + l) (n + p.len) - max o n = k := ⟨_, rfl⟩
      have hsegment := zeroSegment_eq hp (by omega) (by omega) hin hn
      rw [hk, hp.1.copyIn (raw_isSome hp) (by rw [List.length_replicate]; omega),
        List.length_replicate] at hsegment
      have hsub : ∀ c ∈ (p.cells.drop (o - n)).take k, h.Has c := fun c hc ↦
        hp.1.has c (List.mem_of_mem_drop (List.mem_of_mem_take hc))
      rw [hsegment, Option.bind_some, add32_of_lt (by omega), add32_of_lt (by omega),
        List.drop_append_of_le_length (by omega)]
      by_cases hstop : o + l ≤ n + p.len
      · rw [if_pos hstop, List.take_append_of_le_length (by rw [List.length_drop]; omega),
          show o + l - max o n = k by omega]
      · have hwritten : (p.cells.drop (o - n)).length = k := by
          rw [List.length_drop]
          omega
        rw [if_neg hstop, ih (fun q hq ↦ ⟨in_pokes (hps' q hq).1 hsub _, (hps' q hq).2⟩) (by omega)
          (by omega) (by omega), List.take_append, hwritten, show o - (n + p.len) = 0 by omega,
          List.drop_zero, List.take_of_length_le (i := k) hwritten.le,
          List.take_of_length_le (i := o + l - max o n) (by omega)]
        have hrest : o + l - max o (n + p.len) = o + l - max o n - k := by omega
        have hsum : List.replicate (o + l - max o n) (0 : UInt8) =
            List.replicate k 0 ++ List.replicate (o + l - max o n - k) 0 := by
          rw [List.replicate_append_replicate]
          congr 1
          omega
        rw [hrest, hsum, Heap.pokes_append (by rw [hwritten, List.length_replicate])]
    · -- the segment is before the range
      have hskip : zeroSegment o l n h p = some h := by
        rw [zeroSegment, add32_of_lt (by omega), if_neg hin]
      rw [hskip, Option.bind_some, add32_of_lt (by omega), add32_of_lt (by omega)]
      by_cases hstop : o + l ≤ n + p.len
      · rw [if_pos hstop, show o + l - max o n = 0 by omega]
        rfl
      · have hdrop : (p.cells ++ ps.flatMap Ptr.cells).drop (o - n) =
            (ps.flatMap Ptr.cells).drop (o - (n + p.len)) := by
          rw [← hcells, Nat.sub_add_eq, List.drop_append,
            List.drop_eq_nil_of_le (by rw [hcells]; omega), List.nil_append]
        rw [if_neg hstop, ih hps' (by omega) (by omega) (by omega), hdrop,
          show o + l - max o (n + p.len) = o + l - max o n by omega]

/-- **`zero(o, l)`** writes the cells of the range. -/
theorem Proper.zero (hx : x.Proper h) (hle : o + l ≤ x.len) :
    x.zero h o l = some (h.pokes ((x.cells.drop o).take l) (List.replicate l 0)) := by
  have hsum := hx.len
  have hlt := hx.lt
  have hloop := zeroLoop_eq (n := 0) hx.segment (by omega) (show o + l ≤ _ by omega) (Nat.zero_le _)
  rw [Nat.sub_zero, Nat.max_eq_left (Nat.zero_le o), Nat.add_sub_cancel_left] at hloop
  rw [BufferList.zero, add32_of_lt (by omega), if_pos hle, hloop]
  rfl

/-! ## `copy_in` -/

open Iter

/-- What the rounds of `copy_in` write. -/
theorem foldl_writePart {parts : List Part} (hps : ∀ p ∈ ps, p.In h h.extent ∧ 0 < p.len)
    (hcovers : Covers (ps.map Ptr.cells) o l parts) (hle : l ≤ src.length) :
    parts.foldl (CachedList.writePart ps) (some h, src) =
      (some (h.pokes (((ps.flatMap Ptr.cells).drop o).take l) (src.take l)), src.drop l) := by
  rw [List.flatMap, ← hcovers.slice_eq]
  induction hcovers generalizing h src with
  | nil o => rfl
  | @cons len parts p hseg hoff hpos _ ih =>
    rw [List.length_map] at hseg
    have hget : (ps.map Ptr.cells).getD p.seg [] = (ps.getD p.seg {}).cells :=
      List.getD_map ps {} Ptr.cells
    have hmem : ps.getD p.seg {} ∈ ps := by
      rw [List.getD_eq_getElem _ _ hseg]
      exact List.getElem_mem hseg
    obtain ⟨hin, hlen⟩ := hps _ hmem
    rw [hget, hin.length_cells] at hoff
    have htake : (src.take p.len).length = p.len := by
      rw [List.length_take]
      omega
    have hsub : ∀ c ∈ ((ps.getD p.seg {}).cells.drop p.off).take p.len, h.Has c := fun c hc ↦
      hin.has c (List.mem_of_mem_drop (List.mem_of_mem_take hc))
    have hcopy := hin.copyIn (raw_isSome ⟨hin, hlen⟩) (show p.off + (src.take p.len).length ≤ _ by omega)
    rw [htake] at hcopy
    have hslice : Part.slice (ps.map Ptr.cells) p = ((ps.getD p.seg {}).cells.drop p.off).take p.len := by
      rw [Part.slice, hget]
    have hwritten : (((ps.getD p.seg {}).cells.drop p.off).take p.len).length = (src.take p.len).length := by
      rw [List.length_take, List.length_drop, hin.length_cells, htake]
      omega
    have hround : CachedList.writePart ps (some h, src) p =
        (some (h.pokes (((ps.getD p.seg {}).cells.drop p.off).take p.len) (src.take p.len)),
          src.drop p.len) := by
      rw [CachedList.writePart, Option.bind_some, hcopy]
    rw [List.foldl_cons, hround, ih (fun q hq ↦ ⟨in_pokes (hps q hq).1 hsub _, (hps q hq).2⟩)
      (by rw [List.length_drop]; omega), List.flatMap_cons, hslice, List.drop_drop, List.take_add,
      Heap.pokes_append hwritten]

theorem Proper.covers_cells (hx : x.Proper h) {parts : List Part}
    (hcovers : Covers (x.segments h) o l parts) : Covers (x.buffers.map Ptr.cells) o l parts := by
  apply hcovers.of_shape
  rw [segments, List.map_map, List.map_map]
  refine List.map_congr_left fun p hp ↦ ?_
  have hin := (hx.segment p hp).1
  exact hin.length_cells.trans (hin.length_bytes (tidy_extent h)).symm

/-- The iterator can pass what there is to write, and can seek the end of the list. -/
def Passable (h : Heap) (x : BufferList) (o len : ℕ) : Prop :=
  Small (x.segments h) o len ∧ (o = x.len → o < 2 ^ 31)

/-- **`copy_in`** writes the cells of the range. -/
theorem Proper.copyInAt (hx : x.Proper h) (hat : it.At (x.segments h) o) (hle : o + src.length ≤ x.len)
    (hpass : Passable h x o src.length) :
    ∃ it', x.copyInAt h it src =
      (some (h.pokes ((x.cells.drop o).take src.length) src), it', none) := by
  have hne := hx.segments_ne
  have htotal := hx.length_flatten
  have hlt := hx.lt
  have hfirm : it.p ≠ none ∨ o < 2 ^ 31 := by
    by_cases hend : o = x.len
    · exact .inr (hpass.2 hend)
    · obtain ⟨before, s, after, -, hp, -⟩ := hat.segment (by omega)
      exact .inl (by rw [hp]; exact Option.some_ne_none _)
  obtain ⟨it₁, hresume, hat₁⟩ := hat.tryResume hne hfirm
  obtain ⟨parts, it', hwalk, -, hcovers⟩ :=
    hat₁.walk_ok hne false (le_refl src.length) (by omega) (by omega) hpass.1
  refine ⟨it', ?_⟩
  rw [BufferList.copyInAt, proceed_of_resume false src.length hresume, hwalk]
  dsimp only
  rw [foldl_writePart hx.segment (hx.covers_cells hcovers) (le_refl src.length), List.take_length]
  rfl

/-- Otherwise it throws. -/
theorem Proper.copyInAt_error (hx : x.Proper h) (hat : it.At (x.segments h) o)
    (hle : o + src.length ≤ x.len) (hstuck : ¬Passable h x o src.length) :
    (x.copyInAt h it src).2.2 = some .endOfBuffer := by
  have hne := hx.segments_ne
  have htotal := hx.length_flatten
  have hlt := hx.lt
  by_cases hlarge : o = x.len ∧ 2 ^ 31 ≤ o
  · -- the iterator is at the end, and seeks its own offset
    have hoff := hat.off_eq
    have hseek : (trySeek (x.segments h) it.off).2 = some .endOfBuffer :=
      trySeek_error hne (.inr (by omega))
    rw [BufferList.copyInAt, proceed, tryResume, if_pos (hat.p_eq_none (by omega)), hseek]
  · have hfirm : it.p ≠ none ∨ o < 2 ^ 31 := by
      by_cases hend : o = x.len
      · exact .inr (by omega)
      · obtain ⟨before, s, after, -, hp, -⟩ := hat.segment (by omega)
        exact .inl (by rw [hp]; exact Option.some_ne_none _)
    have hsmall : ¬Small (x.segments h) o src.length := fun hsmall ↦
      hstuck ⟨hsmall, fun hend ↦ by omega⟩
    obtain ⟨it₁, hresume, hat₁⟩ := hat.tryResume hne hfirm
    rw [BufferList.copyInAt, proceed_of_resume false src.length hresume]
    exact hat₁.walk_large hne false (le_refl src.length) (by omega) (by omega) hsmall

/-! ## Exactly the range

For segments that are apart, what is written to the cells of a range is what is read from them
afterwards. -/

/-- No two segments overlap in memory. -/
def Apart (x : BufferList) : Prop :=
  x.buffers.Pairwise fun p q ↦ p.raw ≠ q.raw ∨ p.stop ≤ q.off ∨ q.stop ≤ p.off

theorem mem_cells {c : Cell} (hc : c ∈ p.cells) : p.raw = some c.1 ∧ p.off ≤ c.2 ∧ c.2 < p.stop := by
  cases hr : p.raw with
  | none =>
    simp only [Ptr.cells, hr] at hc
    exact absurd hc List.not_mem_nil
  | some r =>
    simp only [Ptr.cells, hr, cellsFrom, List.mem_map, List.mem_range'_1] at hc
    obtain ⟨i, hi, rfl⟩ := hc
    exact ⟨rfl, hi⟩

theorem Apart.nodup (hx : x.Apart) : x.cells.Nodup := by
  refine List.nodup_flatMap.mpr ⟨fun p _ ↦ ?_, hx.imp fun {p q} hpq c hp hq ↦ ?_⟩
  · rw [Ptr.cells]
    split
    · exact List.nodup_nil
    · rw [cellsFrom]
      exact List.Nodup.map (fun i j hij ↦ (Prod.mk.inj hij).2) List.nodup_range'
  · obtain ⟨hpraw, hpoff, hpstop⟩ := mem_cells hp
    obtain ⟨hqraw, hqoff, hqstop⟩ := mem_cells hq
    rcases hpq with hraw | hbefore | hafter
    · exact hraw (hpraw.trans hqraw.symm)
    · omega
    · omega

/-- These bytes of the list have been replaced, and no other byte of memory. -/
def Replaces (h : Heap) (x : BufferList) (o : ℕ) (src : Bytes) (h' : Heap) : Prop :=
  x.contents h' = Iter.patch (x.contents h) o src ∧
    ∀ c, c ∉ (x.cells.drop o).take src.length → h'.byteAt c = h.byteAt c

theorem Proper.replaces (hx : x.Proper h) (hapart : x.Apart) (hle : o + src.length ≤ x.len) :
    Replaces h x o src (h.pokes ((x.cells.drop o).take src.length) src) := by
  refine ⟨hx.contents_pokes hapart.nodup hle, fun c hc ↦ Heap.byteAt_pokes_of_notMem (fun d hd ↦ ?_) hc src⟩
  exact hx.has d (List.mem_of_mem_drop (List.mem_of_mem_take hd))

/-- Both functions return, and replace the bytes of the range. -/
structure InPlaceExact (h : Heap) (x : BufferList) (it : Iter) (o : ℕ) (src : Bytes) : Prop where
  zero : ∃ h', x.zero h o src.length = some h' ∧ Replaces h x o (List.replicate src.length 0) h'
  copyIn : ∃ h' it', x.copyInAt h it src = (some h', it', none) ∧ Replaces h x o src h'

/-- **In-place writes are exact**, as long as the iterator can pass what `copy_in` writes. -/
theorem inPlaceExact_iff (hx : x.Proper h) (hapart : x.Apart) (hat : it.At (x.segments h) o)
    (hle : o + src.length ≤ x.len) : InPlaceExact h x it o src ↔ Passable h x o src.length := by
  constructor
  · rintro ⟨-, h', it', hcopy, -⟩
    by_contra hstuck
    have herror := hx.copyInAt_error hat hle hstuck
    rw [hcopy] at herror
    cases herror
  · intro hpass
    have hzeros : (List.replicate src.length (0 : UInt8)).length = src.length := List.length_replicate
    have hzero := hx.replaces hapart
      (show o + (List.replicate src.length (0 : UInt8)).length ≤ x.len by omega)
    rw [hzeros] at hzero
    obtain ⟨it', hcopy⟩ := hx.copyInAt hat hle hpass
    exact ⟨⟨_, hx.zero hle, hzero⟩, _, it', hcopy, hx.replaces hapart hle⟩

/-- Three bytes, of which the first is in the first segment. -/
theorem inPlaceExact_twoSegments :
    InPlaceExact BufferWorld.twoSegments.heap (BufferWorld.twoSegments.lists 1)
      { off := 1, p := some 0, pOff := 1 } 1 [7, 8, 9] := by
  have hproper := BufferWorld.proper_twoSegments 1
  have hapart : (BufferWorld.twoSegments.lists 1).Apart :=
    List.pairwise_pair.mpr (.inr (.inl (by decide)))
  refine (inPlaceExact_iff hproper hapart ⟨rfl, .inr ⟨[], [1, 2], [[3, 4, 5]], rfl, rfl, by decide, rfl⟩⟩
    (by decide)).mpr ⟨small_of_lt ?_ _ _, by decide⟩
  rw [hproper.length_flatten]
  decide

/-- A raw buffer of `2 ^ 31 + 1` bytes, in two segments. -/
def largeHeap : Heap := [{ bytes := List.replicate 2147483649 0 }]

def largeSegments : BufferList where
  buffers := [{ raw := some 0, len := 2147483648 }, { raw := some 0, off := 2147483648, len := 1 }]
  len := 2147483649

theorem proper_largeSegments : largeSegments.Proper largeHeap := by
  have hextent : largeHeap.extent 0 = 2147483649 := List.length_replicate
  have hin (p : Ptr) (hp : p.raw = some 0 ∧ p.stop ≤ 2147483649) : p.In largeHeap largeHeap.extent := by
    refine ⟨fun hnone ↦ absurd (hp.1.symm.trans hnone) (by simp), fun r hr ↦ ?_⟩
    obtain rfl := Option.some_inj.mp (hp.1.symm.trans hr)
    exact ⟨Nat.zero_lt_one, hextent ▸ hp.2⟩
  refine ⟨fun p hp ↦ ?_, rfl, by decide⟩
  rcases List.mem_cons.mp hp with rfl | hp
  · exact ⟨hin _ ⟨rfl, by decide⟩, by decide⟩
  · rw [List.mem_singleton.mp hp]
    exact ⟨hin _ ⟨rfl, by decide⟩, by decide⟩

/-- `copy_in` throws after the first segment. -/
theorem copyIn_throws : ¬∀ (h : Heap) (x : BufferList) (it : Iter) (o : ℕ) (src : Bytes), x.Proper h →
    x.Apart → it.At (x.segments h) o → o + src.length ≤ x.len → InPlaceExact h x it o src := by
  intro hall
  have hproper := proper_largeSegments
  have hapart : largeSegments.Apart := List.pairwise_pair.mpr (.inr (.inl (by decide)))
  have hlength : (List.replicate 2147483649 (0 : UInt8)).length = 2147483649 := List.length_replicate
  have hat := At.ofBegin hproper.segments_ne
  have hle : 0 + (List.replicate 2147483649 (0 : UInt8)).length ≤ largeSegments.len := by
    rw [hlength]
    decide
  obtain ⟨-, h', it', hcopy, -⟩ := hall _ _ _ _ _ hproper hapart hat hle
  have hstuck : ¬Passable largeHeap largeSegments 0 (List.replicate 2147483649 (0 : UInt8)).length := by
    rintro ⟨hsmall, -⟩
    have hpiece := hsmall [] (Ptr.bytes largeHeap { raw := some 0, len := 2147483648 })
      [Ptr.bytes largeHeap { raw := some 0, off := 2147483648, len := 1 }] rfl
    have hlong := (hproper.segment { raw := some 0, len := 2147483648 } List.mem_cons_self).1.length_bytes
      (tidy_extent largeHeap)
    rw [hlong, hlength] at hpiece
    exact absurd hpiece (by decide)
  have herror := hproper.copyInAt_error hat hle hstuck
  rw [hcopy] at herror
  cases herror

end BufferList

end AsyncMessenger
