import Mathlib.Data.List.GetD
import AsyncMessenger.Iterator
import AsyncMessenger.Slicing

/-!
# The cached cursor

`copy` and `copy_in` of a list use `last_p`, an iterator that the list keeps. If its offset is the one
asked for, they go on from there; otherwise they seek. The iterator names an element of `_buffers` and not
its number. It stays with the element when the list changes in front of it, and it refers to nothing once
the element is erased.

A call goes through the parts of the segments one by one. When it throws, the parts before have been
copied, and the iterator stays where it has got to.

## Calls on segments

The calls are defined on the texts of the segments first, since neither the loop nor the iterator
looks at anything else: the parts they go through (`walk`), where the iterator is afterwards, and
how the call has ended. What is done with the parts is a fold over them: the bytes are collected,
appended to another list, or written. `Covers` says that the parts are those of a stretch of the
text, one after the other, so that what is true of one part at its place is true of the stretch.
-/

namespace AsyncMessenger

open Buffer

namespace Iter

/-- Where a move back that throws leaves the iterator. -/
def backStopped (segs : List Bytes) : ℕ → ℕ → UInt32 → Iter
  | 0, pOff, off => { off := off - .ofNat pOff, p := if segs = [] then none else some 0 }
  | i + 1, pOff, off =>
    if off - .ofNat pOff = 0 then { off := 0, p := if i + 1 < segs.length then some (i + 1) else none }
    else backStopped segs i (segs.getD i []).length (off - .ofNat pOff)

/-- Where a move that throws leaves the iterator. -/
def stopped (segs : List Bytes) (it : Iter) (o : ℤ) : Iter :=
  let i := it.p.getD segs.length
  if 0 < o then
    { it with p := none, pOff := (it.pOff + o.toNat) % 2 ^ 32 - (segs.drop i).flatten.length }
  else backStopped segs i it.pOff it.off

/-- `advance`: the iterator, and how it has failed. -/
def tryAdvance (segs : List Bytes) (it : Iter) (o : ℤ) : Iter × Option Stop :=
  match it.advance segs o with
  | .ok it' => (it', none)
  | .error e => (it.stopped segs o, some e)

/-- `seek`, in the same way. -/
def trySeek (segs : List Bytes) (off : UInt32) : Iter × Option Stop :=
  (ofBegin segs).tryAdvance segs (toInt off.toNat)

/-- The first lines of every copy, in the same way. -/
def tryResume (segs : List Bytes) (it : Iter) : Iter × Option Stop :=
  if it.p = none then trySeek segs it.off else (it, none)

/-- A part of a segment. -/
structure Part where
  seg : ℕ
  off : ℕ
  len : ℕ
  deriving DecidableEq, Repr

/-- The loop of `copy` and `copy_in` with `advance`: the parts that were copied, the iterator, and how it has
failed. A `strict` one asserts that segments are not empty. -/
def walkWith (advance : Iter → ℕ → Iter × Option Stop) (strict : Bool) (segs : List Bytes) :
    ℕ → ℕ → Iter → List Part × Iter × Option Stop
  | 0, len, it => ([], it, if len = 0 then none else some .hang)
  | fuel + 1, len, it =>
    if len = 0 then ([], it, none)
    else
      match it.p with
      | none => ([], it, some .endOfBuffer)
      | some i =>
        if strict ∧ segs.getD i [] = [] then ([], it, some .assertion)
        else
          let howmuch := min len ((segs.getD i []).length - it.pOff)
          let moved := advance it howmuch
          match moved.2 with
          | some e => ([⟨i, it.pOff, howmuch⟩], moved.1, some e)
          | none =>
            let r := walkWith advance strict segs fuel (len - howmuch) moved.1
            (⟨i, it.pOff, howmuch⟩ :: r.1, r.2)

def walk (strict : Bool) (segs : List Bytes) : ℕ → ℕ → Iter → List Part × Iter × Option Stop :=
  walkWith (fun it howmuch ↦ it.tryAdvance segs (toInt howmuch)) strict segs

/-- `copy` and `copy_in` of an iterator. -/
def proceed (strict : Bool) (segs : List Bytes) (len : ℕ) (it : Iter) :
    List Part × Iter × Option Stop :=
  let resumed := it.tryResume segs
  match resumed.2 with
  | some e => ([], resumed.1, some e)
  | none => walk strict segs len len resumed.1

/-- The bytes of a part. -/
def Part.bytes (segs : List Bytes) (p : Part) : Bytes := ((segs.getD p.seg []).drop p.off).take p.len

end Iter

/-- An iterator as a list keeps it: `node` is the element of `_buffers`, and `none` is `end()`. -/
structure Cursor where
  off : UInt32 := 0
  node : Option ℕ := none
  pOff : ℕ := 0
  deriving DecidableEq, Repr

/-- A list with the identities of the elements of `_buffers`, and `last_p`. -/
structure CachedList where
  list : BufferList := {}
  nodes : List ℕ := []
  lastP : Cursor := {}
  deriving DecidableEq, Repr

/-- What a call leaves behind: the parts that were copied, `last_p`, and how it has failed. -/
structure Traversal where
  parts : List Iter.Part
  lastP : Cursor
  stop : Option Stop
  deriving DecidableEq, Repr

namespace CachedList

/-- Where a cursor is now; `none` if its element is not in the list any more. -/
def resolve (x : CachedList) (c : Cursor) : Option Iter :=
  match c.node with
  | none => some { off := c.off, p := none, pOff := c.pOff }
  | some id => (x.nodes.idxOf? id).map fun i ↦ { off := c.off, p := some i, pOff := c.pOff }

/-- The cursor at a place. -/
def cursorOf (x : CachedList) (it : Iter) : Cursor :=
  { off := it.off, node := it.p.bind fun i ↦ x.nodes[i]?, pOff := it.pOff }

/-- `last_p = begin()`. -/
def rewind (h : Heap) (x : CachedList) : CachedList :=
  { x with lastP := x.cursorOf (Iter.ofBegin (x.list.segments h)) }

/-- Where a call starts: it seeks, unless `last_p` is at the offset. -/
def start (h : Heap) (x : CachedList) (off : UInt32) : Option (Iter × Option Stop) :=
  if x.lastP.off ≠ off then some (Iter.trySeek (x.list.segments h) off)
  else (x.resolve x.lastP).map fun it ↦ (it, none)

/-- What the calls have in common; `none` if `last_p` is used and refers to nothing. -/
def visit (strict : Bool) (h : Heap) (x : CachedList) (off len : UInt32) : Option Traversal :=
  if x.list.len < (off + len).toNat then some ⟨[], x.lastP, some .endOfBuffer⟩
  else
    (x.start h off).map fun s ↦
      match s.2 with
      | some e => ⟨[], x.cursorOf s.1, some e⟩
      | none =>
        let r := s.1.proceed strict (x.list.segments h) len.toNat
        ⟨r.1, x.cursorOf r.2.1, r.2.2⟩

/-- `copy(off, len, dest)` to a `char *`: what has been written there. -/
def copy (h : Heap) (x : CachedList) (off len : UInt32) : Option (Bytes × Traversal) :=
  (x.visit true h off len).map fun r ↦ (r.parts.flatMap (Iter.Part.bytes (x.list.segments h)), r)

/-- `dest.append(*p, p_off, howmuch)`. -/
def appendPart (buffers : List Ptr) (dest : Option BufferList) (p : Iter.Part) : Option BufferList :=
  dest.bind fun dest ↦ dest.appendSub (buffers.getD p.seg {}) p.off p.len

/-- `copy(off, len, dest)` to a list: that list, unless an assertion has failed. -/
def copyTo (h : Heap) (x : CachedList) (off len : UInt32) (dest : BufferList) :
    Option (Option BufferList × Traversal) :=
  (x.visit false h off len).map fun r ↦ (r.parts.foldl (appendPart x.list.buffers) (some dest), r)

/-- `p->copy_in(p_off, howmuch, src)`, and `src += howmuch`. -/
def writePart (buffers : List Ptr) (s : Option Heap × Bytes) (p : Iter.Part) : Option Heap × Bytes :=
  (s.1.bind fun h ↦ (buffers.getD p.seg {}).copyIn h p.off (s.2.take p.len), s.2.drop p.len)

/-- `copy_in(off, len, src)` from a `char *`: the memory, unless an assertion has failed. -/
def copyIn (h : Heap) (x : CachedList) (off : UInt32) (src : Bytes) : Option (Option Heap × Traversal) :=
  (x.visit false h off (.ofNat src.length)).map fun r ↦
    ((r.parts.foldl (writePart x.list.buffers) (some h, src)).1, r)

end CachedList

namespace Iter

variable {segs : List Bytes} {it : Iter} {o len : ℕ}

/-! ## The loop

By induction on the segments that are left. The loop stops early only where a part of `2^31` bytes
or more has to be passed (`Small`). -/

/-- The pieces of the segments from `o` on, `len` bytes in all, have less than `2^31` bytes each. -/
def Small (segs : List Bytes) (o len : ℕ) : Prop :=
  ∀ before s after, segs = before ++ s :: after →
    min (before.flatten.length + s.length) (o + len) - max before.flatten.length o < 2 ^ 31

theorem small_of_lt (h : segs.flatten.length < 2 ^ 31) (o len : ℕ) : Small segs o len := by
  intro before s after hsplit
  rw [hsplit, List.flatten_append, List.flatten_cons, List.length_append, List.length_append] at h
  omega

/-- A part of any list that is cut in the same way. -/
def Part.slice {α : Type*} (xss : List (List α)) (p : Part) : List α :=
  ((xss.getD p.seg []).drop p.off).take p.len

/-- The parts follow one another from `o` on, have `len` elements in all, and none of them is empty. -/
inductive Covers {α : Type*} (xss : List (List α)) : ℕ → ℕ → List Part → Prop
  | nil (o : ℕ) : Covers xss o 0 []
  | cons {len : ℕ} {parts : List Part} {p : Part} (seg : p.seg < xss.length)
    (le : p.off + p.len ≤ (xss.getD p.seg []).length) (pos : 0 < p.len)
    (rest : Covers xss ((xss.take p.seg).flatten.length + p.off + p.len) len parts) :
    Covers xss ((xss.take p.seg).flatten.length + p.off) (p.len + len) (p :: parts)

theorem split_at {α : Type*} {xss : List (List α)} {i : ℕ} (hi : i < xss.length) :
    xss = xss.take i ++ xss.getD i [] :: xss.drop (i + 1) ∧ (xss.take i).length = i := by
  refine ⟨?_, by rw [List.length_take]; omega⟩
  rw [List.getD_eq_getElem _ _ hi, List.cons_getElem_drop_succ, List.take_append_drop]

/-- They hold what is between. -/
theorem Covers.slice_eq {α : Type*} {xss : List (List α)} {parts : List Part} (h : Covers xss o len parts) :
    parts.flatMap (Part.slice xss) = (xss.flatten.drop o).take len := by
  induction h with
  | nil o => rfl
  | @cons len parts p hseg hle hpos _ ih =>
    obtain ⟨hsplit, -⟩ := split_at hseg
    have hlt : p.off < (xss.getD p.seg []).length := by omega
    have hdrop : (xss.take p.seg ++ xss.getD p.seg [] :: xss.drop (p.seg + 1)).flatten.drop
        ((xss.take p.seg).flatten.length + p.off) =
          (xss.getD p.seg []).drop p.off ++ (xss.drop (p.seg + 1)).flatten := drop_split hlt
    rw [← hsplit] at hdrop
    rw [List.flatMap_cons, ih, List.take_add, ← List.drop_drop, hdrop,
      List.take_append_of_le_length (by rw [List.length_drop]; omega), Part.slice]

/-- The elements do not matter. -/
theorem Covers.of_shape {α β : Type*} {xss : List (List α)} {yss : List (List β)} {parts : List Part}
    (h : Covers xss o len parts) (hshape : yss.map List.length = xss.map List.length) :
    Covers yss o len parts := by
  have hlength : yss.length = xss.length := by
    rw [← List.length_map (f := List.length), hshape, List.length_map]
  have hget (i : ℕ) : (yss.getD i []).length = (xss.getD i []).length := by
    have hsame := congrArg (fun ls ↦ ls.getD i ([] : List α).length) hshape
    exact (List.getD_map yss [] List.length).symm.trans (hsame.trans (List.getD_map xss [] List.length))
  have htake (i : ℕ) : (yss.take i).flatten.length = (xss.take i).flatten.length := by
    rw [List.length_flatten, List.length_flatten, List.map_take, List.map_take, hshape]
  induction h with
  | nil o => exact .nil o
  | @cons len parts p hseg hle hpos _ ih =>
    rw [← htake] at ih ⊢
    exact .cons (hlength ▸ hseg) (by rwa [hget]) hpos ih

theorem tryAdvance_of_ok {n : ℤ} {it' : Iter} (h : it.advance segs n = .ok it') :
    it.tryAdvance segs n = (it', none) := by
  rw [tryAdvance, h]

theorem tryAdvance_of_error {n : ℤ} {e : Stop} (h : it.advance segs n = .error e) :
    it.tryAdvance segs n = (it.stopped segs n, some e) := by
  rw [tryAdvance, h]

section

variable (advance : Iter → ℕ → Iter × Option Stop)

theorem walkWith_zero (strict : Bool) (fuel : ℕ) :
    walkWith advance strict segs fuel 0 it = ([], it, none) := by
  cases fuel with
  | zero => rfl
  | succ fuel => rw [walkWith, if_pos rfl]

theorem walkWith_end (strict : Bool) (fuel : ℕ) (hlen : len ≠ 0) (hp : it.p = none) :
    walkWith advance strict segs (fuel + 1) len it = ([], it, some .endOfBuffer) := by
  rw [walkWith, if_neg hlen, hp]

/-- One round before the end of the list. -/
theorem walkWith_of_ok (strict : Bool) (fuel : ℕ) (hlen : len ≠ 0) {before : List Bytes} {s : Bytes}
    (after : List Bytes) (hp : it.p = some before.length) (hlt : it.pOff < s.length) {howmuch : ℕ}
    (hhow : min len (s.length - it.pOff) = howmuch) {it' : Iter}
    (hadvance : advance it howmuch = (it', none)) :
    walkWith advance strict (before ++ s :: after) (fuel + 1) len it =
      (⟨before.length, it.pOff, howmuch⟩ ::
          (walkWith advance strict (before ++ s :: after) fuel (len - howmuch) it').1,
        (walkWith advance strict (before ++ s :: after) fuel (len - howmuch) it').2) := by
  have hget : (before ++ s :: after).getD before.length [] = s := by simp
  have hs : s ≠ [] := List.ne_nil_of_length_pos (by omega)
  rw [walkWith, if_neg hlen, hp]
  dsimp only
  rw [hget, if_neg (fun hand ↦ hs hand.2), hhow, hadvance]

/-- A round from which `advance` throws. -/
theorem walkWith_of_error (strict : Bool) (fuel : ℕ) (hlen : len ≠ 0) {before : List Bytes} {s : Bytes}
    (after : List Bytes) (hp : it.p = some before.length) (hlt : it.pOff < s.length) {howmuch : ℕ}
    (hhow : min len (s.length - it.pOff) = howmuch) {it' : Iter} {e : Stop}
    (hadvance : advance it howmuch = (it', some e)) :
    walkWith advance strict (before ++ s :: after) (fuel + 1) len it =
      ([⟨before.length, it.pOff, howmuch⟩], it', some e) := by
  have hget : (before ++ s :: after).getD before.length [] = s := by simp
  have hs : s ≠ [] := List.ne_nil_of_length_pos (by omega)
  rw [walkWith, if_neg hlen, hp]
  dsimp only
  rw [hget, if_neg (fun hand ↦ hs hand.2), hhow, hadvance]

end

theorem walk_zero (strict : Bool) (fuel : ℕ) : walk strict segs fuel 0 it = ([], it, none) :=
  walkWith_zero _ strict fuel

theorem walk_end (strict : Bool) (fuel : ℕ) (hlen : len ≠ 0) (hp : it.p = none) :
    walk strict segs (fuel + 1) len it = ([], it, some .endOfBuffer) :=
  walkWith_end _ strict fuel hlen hp

theorem walk_of_ok (strict : Bool) (fuel : ℕ) (hlen : len ≠ 0) {before : List Bytes} {s : Bytes}
    {after : List Bytes} (hp : it.p = some before.length) (hlt : it.pOff < s.length) {howmuch : ℕ}
    (hhow : min len (s.length - it.pOff) = howmuch) {it' : Iter}
    (hadvance : it.advance (before ++ s :: after) (toInt howmuch) = .ok it') :
    walk strict (before ++ s :: after) (fuel + 1) len it =
      (⟨before.length, it.pOff, howmuch⟩ ::
          (walk strict (before ++ s :: after) fuel (len - howmuch) it').1,
        (walk strict (before ++ s :: after) fuel (len - howmuch) it').2) :=
  walkWith_of_ok _ strict fuel hlen after hp hlt hhow (tryAdvance_of_ok hadvance)

theorem walk_of_error (strict : Bool) (fuel : ℕ) (hlen : len ≠ 0) {before : List Bytes} {s : Bytes}
    {after : List Bytes} (hp : it.p = some before.length) (hlt : it.pOff < s.length) {howmuch : ℕ}
    (hhow : min len (s.length - it.pOff) = howmuch) {e : Stop}
    (hadvance : it.advance (before ++ s :: after) (toInt howmuch) = .error e) :
    walk strict (before ++ s :: after) (fuel + 1) len it = ([⟨before.length, it.pOff, howmuch⟩],
      it.stopped (before ++ s :: after) (toInt howmuch), some e) :=
  walkWith_of_error _ strict fuel hlen after hp hlt hhow (tryAdvance_of_error hadvance)

/-- The bytes are there, in pieces that `advance` can pass. -/
theorem At.walk_ok (h : it.At segs o) (hne : ∀ s ∈ segs, s ≠ []) (strict : Bool) {fuel : ℕ}
    (hfuel : len ≤ fuel) (hle : o + len ≤ segs.flatten.length) (hlt : o + len < 2 ^ 32)
    (hsmall : Small segs o len) :
    ∃ parts it', walk strict segs fuel len it = (parts, it', none) ∧ it'.At segs (o + len) ∧
      Covers segs o len parts := by
  induction fuel generalizing it o len with
  | zero =>
    obtain rfl : len = 0 := Nat.le_zero.mp hfuel
    exact ⟨[], it, rfl, h, .nil o⟩
  | succ fuel ih =>
    by_cases hlen : len = 0
    · subst hlen
      exact ⟨[], it, walk_zero .., h, .nil o⟩
    obtain ⟨before, s, after, rfl, hp, hpOff, ho⟩ := h.segment (by omega)
    have hpiece := hsmall before s after rfl
    have hget : (before ++ s :: after).getD before.length [] = s := by simp
    obtain ⟨howmuch, hhow⟩ : ∃ k, min len (s.length - it.pOff) = k := ⟨_, rfl⟩
    have hlarge : howmuch < 2 ^ 31 := by omega
    obtain ⟨it', hadvance, hat⟩ := h.advance hne (n := howmuch) (by omega) (by omega) hlarge
    have hsmall' : Small (before ++ s :: after) (o + howmuch) (len - howmuch) := by
      intro before' s' after' hsplit
      have hold := hsmall before' s' after' hsplit
      omega
    obtain ⟨parts, it'', hwalk, hat', hcovers⟩ :=
      ih hat (show len - howmuch ≤ fuel by omega) (by omega) (by omega) hsmall'
    have hleft : howmuch + (len - howmuch) = len := by omega
    rw [Nat.add_assoc, hleft] at hat'
    refine ⟨⟨before.length, it.pOff, howmuch⟩ :: parts, it'', ?_, hat', ?_⟩
    · rw [walk_of_ok strict fuel hlen hp hpOff hhow hadvance, hwalk]
    · have hcons : Covers (before ++ s :: after)
          (((before ++ s :: after).take before.length).flatten.length + it.pOff)
          (howmuch + (len - howmuch)) (⟨before.length, it.pOff, howmuch⟩ :: parts) :=
        @Covers.cons _ (before ++ s :: after) (len - howmuch) parts ⟨before.length, it.pOff, howmuch⟩
          (by simp) (by rw [hget]; dsimp only; omega) (by dsimp only; omega)
          (by rw [List.take_left, ← ho]; exact hcovers)
      rw [List.take_left, ← ho] at hcons
      exact hleft ▸ hcons

/-- Of two segments of a list, one lies before the other unless they are the same. -/
theorem split_cases {before after before' after' : List Bytes} {s s' : Bytes}
    (h : before ++ s :: after = before' ++ s' :: after') :
    (before' = before ∧ s' = s) ∨
      before'.flatten.length + s'.length ≤ before.flatten.length ∨
      before.flatten.length + s.length ≤ before'.flatten.length := by
  rcases List.append_eq_append_iff.mp h with ⟨d, rfl, hcons⟩ | ⟨d, rfl, hcons⟩
  · cases d with
    | nil =>
      rw [List.append_nil]
      exact .inl ⟨rfl, (List.cons.inj hcons).1.symm⟩
    | cons t d =>
      obtain rfl := (List.cons.inj hcons).1
      refine .inr (.inr ?_)
      rw [List.flatten_append, List.flatten_cons, List.length_append, List.length_append]
      omega
  · cases d with
    | nil =>
      rw [List.append_nil]
      exact .inl ⟨rfl, (List.cons.inj hcons).1⟩
    | cons t d =>
      obtain rfl := (List.cons.inj hcons).1
      refine .inr (.inl ?_)
      rw [List.flatten_append, List.flatten_cons, List.length_append, List.length_append]
      omega

/-- A piece is too large. -/
theorem At.walk_large (h : it.At segs o) (hne : ∀ s ∈ segs, s ≠ []) (strict : Bool) {fuel : ℕ}
    (hfuel : len ≤ fuel) (hle : o + len ≤ segs.flatten.length) (hlt : o + len < 2 ^ 32)
    (hsmall : ¬Small segs o len) : (walk strict segs fuel len it).2.2 = some .endOfBuffer := by
  induction fuel generalizing it o len with
  | zero =>
    exact absurd (fun before s after _ ↦ by omega) hsmall
  | succ fuel ih =>
    by_cases hlen : len = 0
    · exact absurd (fun before s after _ ↦ by omega) hsmall
    obtain ⟨before, s, after, rfl, hp, hpOff, ho⟩ := h.segment (by omega)
    obtain ⟨howmuch, hhow⟩ : ∃ k, min len (s.length - it.pOff) = k := ⟨_, rfl⟩
    by_cases hlarge : howmuch < 2 ^ 31
    · obtain ⟨it', hadvance, hat⟩ := h.advance hne (n := howmuch) (by omega) (by omega) hlarge
      rw [walk_of_ok strict fuel hlen hp hpOff hhow hadvance]
      refine ih hat (by omega) (by omega) (by omega) fun hsmall' ↦ hsmall ?_
      intro before' s' after' hsplit
      have hrest := hsmall' before' s' after' hsplit
      rcases split_cases hsplit with ⟨rfl, rfl⟩ | hbefore | hafter
      · omega
      · omega
      · omega
    · rw [walk_of_error strict fuel hlen hp hpOff hhow
        (h.advance_error hne (Nat.not_lt.mp hlarge) (by omega))]

/-- The list ends before the bytes do. -/
theorem At.walk_short (h : it.At segs o) (hne : ∀ s ∈ segs, s ≠ []) (strict : Bool) {fuel : ℕ}
    (hfuel : len ≤ fuel) (htotal : segs.flatten.length < 2 ^ 32) (hshort : segs.flatten.length < o + len) :
    (walk strict segs fuel len it).2.2 = some .endOfBuffer ∧
      ((walk strict segs fuel len it).1 = [] ↔ o = segs.flatten.length) := by
  have hle := h.le
  induction fuel generalizing it o len with
  | zero => omega
  | succ fuel ih =>
    have hlen : len ≠ 0 := by omega
    by_cases hend : o < segs.flatten.length
    · obtain ⟨before, s, after, rfl, hp, hpOff, ho⟩ := h.segment hend
      have hsum : (before ++ s :: after).flatten.length =
          before.flatten.length + (s.length + after.flatten.length) := by simp
      obtain ⟨howmuch, hhow⟩ : ∃ k, min len (s.length - it.pOff) = k := ⟨_, rfl⟩
      by_cases hlarge : howmuch < 2 ^ 31
      · obtain ⟨it', hadvance, hat⟩ := h.advance hne (n := howmuch) (by omega) (by omega) hlarge
        rw [walk_of_ok strict fuel hlen hp hpOff hhow hadvance]
        refine ⟨(ih hat (by omega) (by omega) hat.le).1, ?_⟩
        exact ⟨fun hnil ↦ absurd hnil (List.cons_ne_nil _ _), fun heq ↦ absurd heq hend.ne⟩
      · rw [walk_of_error strict fuel hlen hp hpOff hhow
          (h.advance_error hne (Nat.not_lt.mp hlarge) (by omega))]
        exact ⟨rfl, fun hnil ↦ absurd hnil (List.cons_ne_nil _ _), fun heq ↦ absurd heq hend.ne⟩
    · rw [walk_end strict fuel hlen (h.p_eq_none (by omega))]
      exact ⟨rfl, fun _ ↦ by omega, fun _ ↦ rfl⟩

/-! ## Seeking -/

theorem forward_beyond (ss : List Bytes) (i : ℕ) {n : ℕ} (hn : ss.flatten.length < n) :
    forward ss i n = none := by
  induction ss generalizing i n with
  | nil =>
    have hpos : n ≠ 0 := Nat.ne_of_gt hn
    rw [forward, if_neg hpos]
  | cons s ss ih =>
    rw [List.flatten_cons, List.length_append] at hn
    rw [forward, if_neg (by omega), if_pos (by omega)]
    exact ih (i + 1) (by omega)

theorem trySeek_ok (hne : ∀ s ∈ segs, s ≠ []) {off : UInt32} (hle : off.toNat ≤ segs.flatten.length)
    (hoff : off.toNat < 2 ^ 31) : ∃ it', trySeek segs off = (it', none) ∧ it'.At segs off.toNat := by
  obtain ⟨it', hseek, hat⟩ := seek_eq hne hle hoff
  exact ⟨it', tryAdvance_of_ok hseek, hat⟩

/-- An offset behind the end, or from `2^31` on, cannot be sought. -/
theorem trySeek_error (hne : ∀ s ∈ segs, s ≠ []) {off : UInt32}
    (hoff : segs.flatten.length < off.toNat ∨ 2 ^ 31 ≤ off.toNat) :
    (trySeek segs off).2 = some .endOfBuffer := by
  by_cases hlarge : off.toNat < 2 ^ 31
  · have hbeyond := hoff.resolve_right (Nat.not_le.mpr hlarge)
    have herror : seek segs off = .error .endOfBuffer := by
      have hzero : (ofBegin segs).p.getD segs.length = 0 := by
        cases segs <;> rfl
      rw [seek, toInt_of_lt hlarge, advance, if_pos (by omega), hzero, List.drop_zero]
      rw [show (ofBegin segs).pOff = 0 from rfl, Nat.zero_add, Int.toNat_natCast,
        Nat.mod_eq_of_lt off.toNat_lt, forward_beyond segs 0 hbeyond]
    rw [trySeek, tryAdvance_of_error herror]
  · rw [trySeek, tryAdvance_of_error (seek_error hne (Nat.not_lt.mp hlarge))]

theorem At.tryResume (h : it.At segs o) (hne : ∀ s ∈ segs, s ≠ []) (hfirm : it.p ≠ none ∨ o < 2 ^ 31) :
    ∃ it', it.tryResume segs = (it', none) ∧ it'.At segs o := by
  by_cases hp : it.p = none
  · obtain ⟨it', hseek, hat⟩ := trySeek_ok hne (show it.off.toNat ≤ _ from h.off_eq ▸ h.le)
      (h.off_eq ▸ hfirm.resolve_left fun hsome ↦ hsome hp)
    exact ⟨it', by rw [Iter.tryResume, if_pos hp, hseek], h.off_eq ▸ hat⟩
  · exact ⟨it, if_neg hp, h⟩

theorem proceed_of_resume (strict : Bool) (len : ℕ) {it' : Iter} (h : it.tryResume segs = (it', none)) :
    it.proceed strict segs len = walk strict segs len len it' := by
  rw [proceed, h]

end Iter

namespace CachedList

open Iter

variable {h : Heap} {x : CachedList} {off len : UInt32}

/-! ## Where a call begins

There are two ways to begin: the cursor is at the offset already, or it is sought from the beginning
of the list. -/

/-- `last_p` is in the list at its offset, or is at `end()`. -/
def InPlace (h : Heap) (x : CachedList) : Prop :=
  ∃ it, x.resolve x.lastP = some it ∧
    (it.p = none ∨ it.At (x.list.segments h) x.lastP.off.toNat)

/-- The call goes on from a segment. -/
def Resumes (x : CachedList) (off : UInt32) : Prop := x.lastP.off = off ∧ x.lastP.node ≠ none

instance : Decidable (x.Resumes off) := inferInstanceAs (Decidable (_ ∧ _))

theorem resolve_spec {c : Cursor} {it : Iter} (hit : x.resolve c = some it) :
    it.off = c.off ∧ (it.p = none ↔ c.node = none) := by
  rw [resolve] at hit
  cases hnode : c.node with
  | none =>
    rw [hnode] at hit
    cases hit
    exact ⟨rfl, fun _ ↦ rfl, fun _ ↦ rfl⟩
  | some id =>
    rw [hnode] at hit
    obtain ⟨i, -, rfl⟩ := Option.map_eq_some_iff.mp hit
    exact ⟨rfl, by rintro ⟨⟩, by rintro ⟨⟩⟩

/-- The call gets to its offset. -/
theorem visit_arrives (strict : Bool) (hne : ∀ s ∈ x.list.segments h, s ≠ [])
    (hpass : ¬x.list.len < (off + len).toNat) (hcursor : x.lastP.off = off → x.InPlace h)
    (hgo : x.Resumes off ∨
      off.toNat ≤ (x.list.segments h).flatten.length ∧ off.toNat < 2 ^ 31) :
    ∃ it, it.At (x.list.segments h) off.toNat ∧
      x.visit strict h off len =
        some ⟨(walk strict (x.list.segments h) len.toNat len.toNat it).1,
          x.cursorOf (walk strict (x.list.segments h) len.toNat len.toNat it).2.1,
          (walk strict (x.list.segments h) len.toNat len.toNat it).2.2⟩ := by
  by_cases hoff : x.lastP.off = off
  · obtain ⟨it, hit, hplace⟩ := hcursor hoff
    obtain ⟨hitOff, hnone⟩ := resolve_spec hit
    rw [hoff] at hitOff hplace
    obtain ⟨it', hresume, hat⟩ : ∃ it', it.tryResume (x.list.segments h) = (it', none) ∧
        it'.At (x.list.segments h) off.toNat := by
      by_cases hp : it.p = none
      · obtain ⟨hle, hlt⟩ := hgo.resolve_left fun hres ↦ hres.2 (hnone.mp hp)
        obtain ⟨it', hseek, hat⟩ := trySeek_ok hne hle hlt
        exact ⟨it', by rw [tryResume, if_pos hp, hitOff, hseek], hat⟩
      · exact ⟨it, if_neg hp, hplace.resolve_left hp⟩
    refine ⟨it', hat, ?_⟩
    rw [visit, if_neg hpass, start, if_neg (not_not.mpr hoff), hit, Option.map_some, Option.map_some]
    dsimp only
    rw [proceed_of_resume strict _ hresume]
  · obtain ⟨hle, hlt⟩ := hgo.resolve_left fun hres ↦ hoff hres.1
    obtain ⟨it, hseek, hat⟩ := trySeek_ok hne hle hlt
    obtain ⟨it', hresume, hat'⟩ := hat.tryResume hne (.inr hlt)
    refine ⟨it', hat', ?_⟩
    rw [visit, if_neg hpass, start, if_pos hoff, hseek, Option.map_some]
    dsimp only
    rw [proceed_of_resume strict _ hresume]

/-- The call throws while it seeks. -/
theorem visit_lost (strict : Bool) (hne : ∀ s ∈ x.list.segments h, s ≠ [])
    (hpass : ¬x.list.len < (off + len).toNat) (hcursor : x.lastP.off = off → x.InPlace h)
    (hno : ¬x.Resumes off)
    (hoff : (x.list.segments h).flatten.length < off.toNat ∨ 2 ^ 31 ≤ off.toNat) :
    ∃ c, x.visit strict h off len = some c ∧ c.parts = [] ∧ c.stop = some .endOfBuffer := by
  have hseek := trySeek_error hne hoff
  by_cases heq : x.lastP.off = off
  · obtain ⟨it, hit, -⟩ := hcursor heq
    obtain ⟨hitOff, hnone⟩ := resolve_spec hit
    have hp : it.p = none := hnone.mpr (by_contra fun hnode ↦ hno ⟨heq, hnode⟩)
    have hproceed : it.proceed strict (x.list.segments h) len.toNat =
        ([], (trySeek (x.list.segments h) off).1, some .endOfBuffer) := by
      rw [proceed, tryResume, if_pos hp, hitOff, heq, hseek]
    refine ⟨_, by rw [visit, if_neg hpass, start, if_neg (not_not.mpr heq), hit, Option.map_some,
      Option.map_some], ?_⟩
    dsimp only
    rw [hproceed]
    exact ⟨rfl, rfl⟩
  · refine ⟨_, by rw [visit, if_neg hpass, start, if_pos heq, Option.map_some], ?_⟩
    rw [hseek]
    exact ⟨rfl, rfl⟩

end CachedList

end AsyncMessenger
