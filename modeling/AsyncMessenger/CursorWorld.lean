import AsyncMessenger.Base64
import AsyncMessenger.CursorMoves
import AsyncMessenger.Realign

/-!
# Lists and their cached cursors

Every list keeps `last_p`, which names an element of `_buffers`. What an operation does to the elements is
modelled by their identities: an operation that appends links new elements behind the old ones, one that
prepends links them in front, a claim moves the elements of the other list, and one that assigns `_buffers`
or clears it leaves none of the old ones. Some operations set `last_p` to `begin()`; the others leave it as
it is.

`splice` keeps the elements that it does not cut, and sets `last_p` to `begin()` in the end; it is modelled
as if all of them were new.
-/

namespace AsyncMessenger

open Buffer

namespace BufferList

/-- What `rebuild_aligned_size_and_memory` leaves of the elements. A segment that is put in place of others
is a new element, and the segments that are left to do tell it from the others. -/
def realignNodes (size mem : ℕ) (alloc : Allocator) (next : ℕ) (h : Heap) : List Ptr → List ℕ → List ℕ
  | [], _ => []
  | p :: ps, ids =>
    if p.isAligned h mem ∧ p.isNAlignSized size then
      ids.headD 0 :: realignNodes size mem alloc next h ps ids.tail
    else
      let r := gather size mem h p.len ps
      match consolidate mem alloc h ((p :: r.1).foldl pushBack {}) with
      | none => []
      | some x =>
        (next + ps.length) :: realignNodes size mem alloc next x.1 r.2 (ids.drop (r.1.length + 1))
termination_by ps => ps.length
decreasing_by
  · exact Nat.lt_succ_self _
  · exact Nat.lt_succ_of_le (length_gather_le h p.len ps)

end BufferList

/-- The lists of a program, the elements of their `_buffers`, and their `last_p`. -/
structure CursorWorld extends BufferWorld where
  nodes : ℕ → List ℕ := fun _ ↦ []
  lastP : ℕ → Cursor := fun _ ↦ {}
  /-- The next new element. -/
  next : ℕ := 0

/-- What a program does with its lists; the first number is the list the operation is applied to. -/
inductive CursorOp
  | base (op : BufferOp)
  | splice (n : ℕ) (off len : UInt32) (claimBy : Option ℕ)
  | substrOf (n m : ℕ) (off len : UInt32)
  | rebuildAligned (n size mem : ℕ)
  | cStr (n : ℕ)
  | copy (n : ℕ) (off len : UInt32)
  | copyString (n : ℕ) (off len : UInt32)
  | copyTo (n : ℕ) (off len : UInt32) (m : ℕ)
  | copyIn (n : ℕ) (off : UInt32) (src : Bytes)

namespace CursorWorld

open BufferList

/-- A list with its cursor. -/
def cached (w : CursorWorld) (n : ℕ) : CachedList := ⟨w.lists n, w.nodes n, w.lastP n⟩

/-- The lists have changed, and the elements and the cursor of one of them are these. -/
def relink (w : CursorWorld) (lists : BufferWorld) (n : ℕ) (ids : List ℕ) (c : Cursor) (next : ℕ) :
    CursorWorld :=
  { lists with nodes := Function.update w.nodes n ids, lastP := Function.update w.lastP n c, next }

/-- How many segments more a list has. -/
def grown (w : CursorWorld) (lists : BufferWorld) (n : ℕ) : ℕ :=
  (lists.lists n).buffers.length - (w.lists n).buffers.length

/-- New elements behind the others. -/
def linkBack (w : CursorWorld) (lists : BufferWorld) (n : ℕ) : CursorWorld :=
  w.relink lists n (w.nodes n ++ List.range' w.next (w.grown lists n)) (w.lastP n)
    (w.next + w.grown lists n)

/-- New elements in front of the others. -/
def linkFront (w : CursorWorld) (lists : BufferWorld) (n : ℕ) : CursorWorld :=
  w.relink lists n (List.range' w.next (w.grown lists n) ++ w.nodes n) (w.lastP n)
    (w.next + w.grown lists n)

/-- All elements are new. -/
def renew (w : CursorWorld) (lists : BufferWorld) (n : ℕ) (c : Cursor) : CursorWorld :=
  w.relink lists n (List.range' w.next (lists.lists n).buffers.length) c
    (w.next + (lists.lists n).buffers.length)

/-- `last_p = begin()`. -/
def rewind (w : CursorWorld) (n : ℕ) : CursorWorld :=
  { w with lastP := Function.update w.lastP n ((w.cached n).rewind w.heap).lastP }

/-- Elements move from a list to another one; the list that they leave has `last_p` at its `end()`. -/
def linkMoved (w : CursorWorld) (lists : BufferWorld) (n m : ℕ) (ids : List ℕ) (c : Cursor) : CursorWorld :=
  (w.relink lists n ids c w.next).relink lists m [] {} w.next

/-- The elements and the cursors after an operation. After `clear` the cursor is at `end()`, and what is
linked then leaves it there. -/
def follow (w : CursorWorld) (lists : BufferWorld) : BufferOp → CursorWorld
  | .list n | .clear n => w.renew lists n {}
  | .copyOf n _ => (w.renew lists n {}).rewind n
  | .assign n m => if n = m then w else w.renew lists n (w.lastP n)
  | .appendChar n _ | .appendData n _ | .appendPtr n _ | .appendSub n _ _ _ | .appendList n _
  | .pushBack n _ => w.linkBack lists n
  | .pushFront n _ => w.linkFront lists n
  | .claim n m _ => w.linkMoved lists n m (w.nodes m) {}
  | .claimAppend n m _ => w.linkMoved lists n m (w.nodes n ++ w.nodes m) (w.lastP n)
  | .claimPrepend n m _ => w.linkMoved lists n m (w.nodes m ++ w.nodes n) (w.lastP n)
  | .share n m => if n = m then w else w.renew lists n {}
  | .swap n m =>
    (((w.relink lists n (w.nodes m) {} w.next).relink lists m (w.nodes n) {} w.next).rewind n).rewind m
  | .rebuild n => w.renew lists n (w.lastP n)
  | .pointer .. | .segment .. | .subPtr .. => { w with toBufferWorld := lists }

/-- The cursor after a call that returns or throws; `none` if an assertion has failed. -/
def leave (w : CursorWorld) (n : ℕ) (t : Traversal) : Option CursorWorld :=
  match t.stop with
  | none | some .endOfBuffer => some { w with lastP := Function.update w.lastP n t.lastP }
  | some _ => none

variable (alloc : Allocator) (page rounds : ℕ)

/-- One operation. What it throws is caught; `none` if it does not return, or an assertion fails. -/
def step (w : CursorWorld) : CursorOp → Option CursorWorld
  | .base op => (w.toBufferWorld.step alloc page rounds op).map fun lists ↦ w.follow lists op
  | .splice n off len claimBy =>
    match (w.lists n).splice off.toNat len.toNat (claimBy.map w.lists) with
    | .error .endOfBuffer => some w
    | .error _ => none
    | .ok x =>
      if len = 0 then some w
      else
        let w' := (w.renew (w.put n (w.heap, x.1)) n {}).rewind n
        match claimBy with
        | none => some w'
        | some m => some (w'.linkBack (w'.put m (w'.heap, x.2.getD {})) m)
  | .substrOf n m off len =>
    match (w.lists n).substrOf (w.lists m) off.toNat len.toNat with
    | (_, some .endOfBuffer) => some w
    | (_, some _) => none
    | (l, none) => some (w.renew (w.put n (w.heap, l)) n {})
  | .rebuildAligned n size mem =>
    (BufferList.rebuildAligned size mem alloc w.heap (w.lists n)).map fun x ↦
      w.relink (w.put n x) n (realignNodes size mem alloc w.next w.heap (w.lists n).buffers (w.nodes n))
        (w.lastP n) (w.next + (w.lists n).buffers.length)
  | .cStr n =>
    (cStr alloc w.heap (w.lists n)).map fun x ↦
      if 1 < (w.lists n).buffers.length then w.renew (w.put n (x.1, x.2.1)) n (w.lastP n) else w
  | .copy n off len => ((w.cached n).copy w.heap off len).bind fun r ↦ w.leave n r.2
  | .copyString n off len => ((w.cached n).copyString w.heap off len).bind fun r ↦ w.leave n r.2
  | .copyTo n off len m =>
    ((w.cached n).copyTo w.heap off len (w.lists m)).bind fun r ↦
      r.1.bind fun dest ↦ (w.leave n r.2).map fun w' ↦ w'.linkBack (w'.put m (w'.heap, dest)) m
  | .copyIn n off src =>
    ((w.cached n).copyIn w.heap off src).bind fun r ↦
      r.1.bind fun h ↦ (w.leave n r.2).map fun w' ↦ { w' with heap := h }

/-- How many bytes of a list are in a part of it, at most. -/
def portion (w : CursorWorld) (n : ℕ) (len : UInt32) : ℕ := min (w.lists n).len len.toNat

/-- The operands are distinct lists, and the lengths are those that an `unsigned` can say. -/
def Legal (w : CursorWorld) : CursorOp → Prop
  | .base op => w.toBufferWorld.Legal op
  | .splice n _ len claimBy => ∀ m ∈ claimBy, n ≠ m ∧ (w.lists m).len + w.portion n len < 2 ^ 32
  | .substrOf n m _ _ => n ≠ m
  | .copyTo n _ len m => n ≠ m ∧ (w.lists m).len + w.portion n len < 2 ^ 32
  | .copyIn _ _ src => src.length < 2 ^ 32
  | _ => True

/-- The cursor of a list is at `end()`. -/
def AtEnd (w : CursorWorld) (n : ℕ) : Prop := (w.lastP n).node = none

/-- The operation does not take the segment away that the cursor stands on, or put anything before it; and
no list gets longer than an `int` can say, and no sum of arguments than an `unsigned`. -/
def Keeps (w : CursorWorld) : CursorOp → Prop
  | .base op =>
    (∀ k, ((w.expected op).lists k).length < 2 ^ 31) ∧
      match op with
      | .assign n m => n = m ∨ w.AtEnd n
      | .pushFront n p => (w.ptrs p).len = 0 ∨ w.AtEnd n
      | .claimPrepend n m _ => (w.lists m).len = 0 ∨ w.AtEnd n
      | .rebuild n => w.AtEnd n
      | _ => True
  | .splice n off len claimBy =>
    inner (w.lists n).buffers off.toNat + len.toNat < 2 ^ 32 ∧
      ∀ m ∈ claimBy, (w.lists m).len + w.portion n len < 2 ^ 31
  | .substrOf _ _ off len => off.toNat + len.toNat < 2 ^ 32
  | .rebuildAligned n size mem =>
    ∀ id ∈ (w.lastP n).node,
      id ∈ realignNodes size mem alloc w.next w.heap (w.lists n).buffers (w.nodes n)
  | .cStr n => (w.lists n).buffers.length ≤ 1 ∨ w.AtEnd n
  | .copyTo n _ len m => (w.lists m).len + w.portion n len < 2 ^ 31
  | .copy .. | .copyString .. | .copyIn .. => True

/-- The calls deliver and overwrite the bytes of every part of a list, as they do with a cursor that has been
set to the beginning. -/
def Invisible (w : CursorWorld) : Prop :=
  ∀ n m (off len : UInt32) (src : Bytes), src.length = len.toNat →
    off.toNat + len.toNat ≤ (w.lists n).len →
      CachedList.Delivers w.heap (w.cached n) off len (w.lists m) src ∧
        CachedList.Delivers w.heap ((w.cached n).rewind w.heap) off len (w.lists m) src

end CursorWorld

end AsyncMessenger
