import AsyncMessenger.Cursor

/-!
# Cells of memory

The bytes of raw buffers one by one. A pointer refers to a row of cells, and so does a list. What is
copied into a list part by part ends up in its cells one by one; where no cell occurs twice in the
list, the new contents are the old ones with these bytes replaced.

Two pointers may refer to bytes of the same raw buffer, so that a write through the one changes what
the other reads. In terms of cells this is nothing special: `pokes` writes some cells and no others,
and what a pointer reads is the row of its own.
-/

namespace AsyncMessenger

open Buffer

namespace Buffer

/-- A byte of memory: the raw buffer, and the place there. -/
abbrev Cell := ℕ × ℕ

namespace Heap

/-- What is in a cell. -/
def byteAt (h : Heap) (c : Cell) : Option UInt8 := (h.bytes c.1)[c.2]?

/-- There is such a cell. -/
def Has (h : Heap) (c : Cell) : Prop := c.1 < h.length ∧ c.2 < (h.bytes c.1).length

/-- Cells are written one after the other. -/
def pokes : Heap → List Cell → Bytes → Heap
  | h, c :: cs, b :: bs => pokes (h.write c.1 c.2 [b]) cs bs
  | h, _, _ => h

end Heap

/-- The cells of a raw buffer from `o` on. -/
def cellsFrom (r o n : ℕ) : List Cell := (List.range' o n).map (Prod.mk r)

/-- The cells that a pointer refers to. -/
def Ptr.cells (p : Ptr) : List Cell :=
  match p.raw with
  | none => []
  | some r => cellsFrom r p.off p.len

variable {h : Heap} {c c' : Cell} {b : UInt8} {cs : List Cell} {src : Bytes} {r o : ℕ}

namespace Heap

theorem length_bytes_poke (hc : h.Has c) (r : ℕ) :
    ((h.write c.1 c.2 [b]).bytes r).length = (h.bytes r).length :=
  length_bytes_write hc.1 hc.2

theorem byteAt_poke_of_ne (hc : h.Has c) (hne : c' ≠ c) :
    (h.write c.1 c.2 [b]).byteAt c' = h.byteAt c' := by
  rw [byteAt, byteAt]
  by_cases hr : c'.1 = c.1
  · have hplace : c'.2 ≠ c.2 := fun heq ↦ hne (Prod.ext hr heq)
    have htake : ((h.bytes c.1).take c.2).length = c.2 := by
      rw [List.length_take, Nat.min_eq_left hc.2.le]
    rw [hr, bytes_write_self hc.1, List.getElem?_append, htake]
    split_ifs with hlt
    · rw [List.getElem?_take_of_lt hlt]
    · obtain ⟨k, hk⟩ : ∃ k, c'.2 - c.2 = k + 1 := ⟨c'.2 - c.2 - 1, by omega⟩
      rw [hk, List.singleton_append, List.getElem?_cons_succ, List.getElem?_drop,
        List.length_singleton]
      congr 1
      omega
  · rw [bytes_write_of_ne hr]

theorem byteAt_poke_self (hc : h.Has c) : (h.write c.1 c.2 [b]).byteAt c = some b := by
  have htake : ((h.bytes c.1).take c.2).length = c.2 := by
    rw [List.length_take, Nat.min_eq_left hc.2.le]
  rw [byteAt, bytes_write_self hc.1, List.getElem?_append_right htake.le, htake, Nat.sub_self]
  rfl

theorem Has.poke (hc' : h.Has c') (hc : h.Has c) : (h.write c.1 c.2 [b]).Has c' :=
  ⟨by rw [length_write]; exact hc'.1, by rw [length_bytes_poke hc]; exact hc'.2⟩

@[simp] theorem pokes_nil (h : Heap) (src : Bytes) : h.pokes [] src = h := rfl

theorem pokes_append {cs' : List Cell} {src' : Bytes} (hlen : cs.length = src.length) :
    h.pokes (cs ++ cs') (src ++ src') = (h.pokes cs src).pokes cs' src' := by
  induction cs generalizing h src with
  | nil =>
    rw [List.eq_nil_of_length_eq_zero hlen.symm]
    rfl
  | cons c cs ih =>
    obtain ⟨b, bs, rfl⟩ := List.exists_cons_of_length_eq_add_one hlen.symm
    exact ih (Nat.succ.inj hlen)

/-- Writing leaves everything as long as it is. -/
theorem length_pokes (h : Heap) (cs : List Cell) (src : Bytes) : (h.pokes cs src).length = h.length := by
  induction cs generalizing h src with
  | nil => rfl
  | cons c cs ih =>
    cases src with
    | nil => rfl
    | cons b bs => exact (ih _ bs).trans (length_write ..)

theorem length_bytes_pokes (hcs : ∀ c ∈ cs, h.Has c) (src : Bytes) (r : ℕ) :
    ((h.pokes cs src).bytes r).length = (h.bytes r).length := by
  induction cs generalizing h src with
  | nil => rfl
  | cons c cs ih =>
    cases src with
    | nil => rfl
    | cons b bs =>
      have hc := hcs c List.mem_cons_self
      have hrest : ∀ d ∈ cs, (h.write c.1 c.2 [b]).Has d := fun d hd ↦
        (hcs d (List.mem_cons_of_mem c hd)).poke hc
      exact (ih hrest bs).trans (length_bytes_poke hc r)

/-- No other byte changes. -/
theorem byteAt_pokes_of_notMem (hcs : ∀ c ∈ cs, h.Has c) (hc' : c' ∉ cs) (src : Bytes) :
    (h.pokes cs src).byteAt c' = h.byteAt c' := by
  induction cs generalizing h src with
  | nil => rfl
  | cons c cs ih =>
    cases src with
    | nil => rfl
    | cons b bs =>
      rw [List.mem_cons, not_or] at hc'
      have hc := hcs c List.mem_cons_self
      have hrest : ∀ d ∈ cs, (h.write c.1 c.2 [b]).Has d := fun d hd ↦
        (hcs d (List.mem_cons_of_mem c hd)).poke hc
      exact (ih hrest hc'.2 bs).trans (byteAt_poke_of_ne hc hc'.1)

/-- Cells that are all different hold what was written. -/
theorem map_byteAt_pokes (hcs : ∀ c ∈ cs, h.Has c) (hnodup : cs.Nodup) (hlen : cs.length = src.length) :
    cs.map (h.pokes cs src).byteAt = src.map some := by
  induction cs generalizing h src with
  | nil => rw [List.eq_nil_of_length_eq_zero hlen.symm]; rfl
  | cons c cs ih =>
    obtain ⟨b, bs, rfl⟩ := List.exists_cons_of_length_eq_add_one hlen.symm
    obtain ⟨hnot, hnodup'⟩ := List.nodup_cons.mp hnodup
    have hc := hcs c List.mem_cons_self
    have hrest : ∀ d ∈ cs, (h.write c.1 c.2 [b]).Has d := fun d hd ↦
      (hcs d (List.mem_cons_of_mem c hd)).poke hc
    rw [List.map_cons, List.map_cons, pokes, byteAt_pokes_of_notMem hrest hnot, byteAt_poke_self hc,
      ih hrest hnodup' (Nat.succ.inj hlen)]

theorem write_nil (h : Heap) (r o : ℕ) : h.write r o [] = h := by
  refine List.ext_getElem? fun i ↦ ?_
  rw [write, List.getElem?_modify]
  split_ifs with hi
  · cases h[i]? with
    | none => rfl
    | some raw => simp
  · cases h[i]? <;> rfl

theorem write_cons (hr : r < h.length) {bs : Bytes} (hfits : o + (b :: bs).length ≤ (h.bytes r).length) :
    h.write r o (b :: bs) = (h.write r o [b]).write r (o + 1) bs := by
  have hbytes : (h.bytes r) = h[r].bytes := by
    rw [bytes, List.getElem?_eq_getElem hr]
    rfl
  rw [hbytes] at hfits
  refine List.ext_getElem? fun i ↦ ?_
  simp only [write, List.getElem?_modify]
  by_cases hi : r = i
  · subst hi
    have htwo := Iter.patch_patch [b] bs hfits
    simp only [Iter.patch, List.append_assoc, List.length_singleton] at htwo
    simp only [if_true, List.getElem?_eq_getElem hr, List.length_singleton]
    show some _ = some _
    dsimp only
    rw [htwo]
    rfl
  · simp only [if_neg hi]
    cases h[i]? <;> rfl

/-- A copy into a raw buffer. -/
theorem write_eq_pokes (hr : r < h.length) (hfits : o + src.length ≤ (h.bytes r).length) :
    h.write r o src = h.pokes (cellsFrom r o src.length) src := by
  induction src generalizing h o with
  | nil => exact write_nil h r o
  | cons b bs ih =>
    have hc : h.Has (r, o) := ⟨hr, by rw [List.length_cons] at hfits; dsimp only; omega⟩
    rw [write_cons hr hfits, ih (by rw [length_write]; exact hr)]
    · rfl
    · rw [length_bytes_write hr (by rw [List.length_singleton]; exact hc.2)]
      rw [List.length_cons] at hfits
      omega

end Heap

/-! ## The cells of a pointer -/

variable {used : ℕ → ℕ} {p : Ptr}

theorem length_cellsFrom (r o n : ℕ) : (cellsFrom r o n).length = n := by
  rw [cellsFrom, List.length_map, List.length_range']

theorem map_byteAt_cellsFrom {n : ℕ} (hfits : o + n ≤ (h.bytes r).length) :
    (cellsFrom r o n).map h.byteAt = (((h.bytes r).drop o).take n).map some := by
  refine List.ext_getElem? fun i ↦ ?_
  rw [cellsFrom, List.map_map, List.getElem?_map, List.getElem?_map, List.getElem?_take]
  split_ifs with hi
  · rw [List.getElem?_range' hi, List.getElem?_drop, Option.map_some, Nat.one_mul]
    have hlt : o + i < (h.bytes r).length := by omega
    simp only [Function.comp_apply, Heap.byteAt, List.getElem?_eq_getElem hlt, Option.map_some]
  · rw [List.getElem?_eq_none (by rw [List.length_range']; omega)]
    rfl

theorem Ptr.In.map_byteAt (hp : p.In h h.extent) : p.cells.map h.byteAt = (p.bytes h).map some := by
  cases hr : p.raw with
  | none => simp only [Ptr.cells, Ptr.bytes, hr, List.map_nil]
  | some r =>
    simp only [Ptr.cells, Ptr.bytes, hr]
    exact map_byteAt_cellsFrom (hp.2 r hr).2

theorem Ptr.In.length_cells (hp : p.In h used) : p.cells.length = p.len := by
  cases hr : p.raw with
  | none => simp only [Ptr.cells, hr, hp.1 hr, List.length_nil]
  | some r => simp only [Ptr.cells, hr, length_cellsFrom]

theorem Ptr.In.has (hp : p.In h h.extent) : ∀ c ∈ p.cells, h.Has c := by
  intro c hc
  cases hr : p.raw with
  | none =>
    simp only [Ptr.cells, hr] at hc
    exact absurd hc List.not_mem_nil
  | some r =>
    simp only [Ptr.cells, hr, cellsFrom, List.mem_map, List.mem_range'_1] at hc
    obtain ⟨i, hi, rfl⟩ := hc
    obtain ⟨hlt, hstop⟩ := hp.2 r hr
    refine ⟨hlt, lt_of_lt_of_le ?_ hstop⟩
    exact hi.2

/-- A copy into a part of what a pointer refers to. -/
theorem Ptr.In.copyIn (hp : p.In h h.extent) (hraw : p.raw.isSome) (hfits : o + src.length ≤ p.len) :
    p.copyIn h o src = some (h.pokes ((p.cells.drop o).take src.length) src) := by
  obtain ⟨r, hr⟩ := Option.isSome_iff_exists.mp hraw
  obtain ⟨hlt, hstop⟩ := hp.2 r hr
  rw [Ptr.stop] at hstop
  have hroom : p.off + p.len ≤ (h.bytes r).length := hstop
  have hcells : (p.cells.drop o).take src.length = cellsFrom r (p.off + o) src.length := by
    simp only [Ptr.cells, hr, cellsFrom]
    rw [← List.map_drop, ← List.map_take, List.drop_range', Nat.mul_one,
      List.take_range'_of_length_ge (by omega)]
  simp only [Ptr.copyIn, hr, if_pos hfits]
  rw [hcells, Heap.write_eq_pokes hlt (by omega)]

end Buffer

end AsyncMessenger
