import AsyncMessenger.BufferArea
import AsyncMessenger.Iterator
import AsyncMessenger.Lib.LittleEndian

/-!
# Encoders and decoders of composed types

`encode` and `decode` are families of overloaded functions, one member for each type constructor. Here
a type is a term of `Ty`, its values are `Ty.Val`, and the families are two functions by recursion on
the type.

An encoder appends to a `Writer`, a buffer list of which only the bytes matter and how they are cut into
segments. The bytes of an `append` fill what is left of the `append_buffer`, and then a new one. The
encoder of `std::list` writes the number of elements last: it leaves four bytes for it, and patches them
through `copy_in`, which goes on from `last_p` or seeks.

A decoder is given the previous value of its target. Only a vector looks at it, and a pair hands its
parts on.
-/

namespace AsyncMessenger

open Reading Buffer Iter

/-! ## The list that is appended to -/

/-- A buffer list while it is written. -/
structure Writer where
  segs : List Bytes := []
  /-- `append_buffer.unused_tail_length()`. -/
  gap : ℕ := 0
  /-- The last segment ends where the `append_buffer` does. -/
  joined : Bool := false
  lastP : Iter := { p := none }
  deriving DecidableEq, Repr

/-- The bytes of a buffer list that is appended, in its segments. -/
structure Pieces where
  segs : List Bytes
  nonempty : ∀ s ∈ segs, s ≠ []

def Pieces.bytes (l : Pieces) : Bytes := l.segs.flatten

namespace Writer

def bytes (w : Writer) : Bytes := w.segs.flatten

/-- `length()`, an `unsigned`. -/
def length (w : Writer) : ℕ := w.bytes.length % 2 ^ 32

/-- Bytes that have been written into the `append_buffer` are added to the list. -/
def addTail (w : Writer) (piece : Bytes) : Writer :=
  match w.joined, w.segs.getLast? with
  | true, some s =>
    { w with segs := w.segs.dropLast ++ [s ++ piece], gap := w.gap - piece.length }
  | _, _ => { w with segs := w.segs ++ [piece], gap := w.gap - piece.length, joined := true }

/-- A new `append_buffer`. -/
def renew (w : Writer) (alen : ℕ) : Writer := { w with gap := alen, joined := false }

/-- The loop of `append(data, len)`, with at most so many rounds. -/
def appendLoop (page : ℕ) : ℕ → Writer → Bytes → Except Stop Writer
  | _, w, [] => .ok w
  | 0, _, _ => .error .hang
  | fuel + 1, w, data =>
    let gap := min w.gap data.length
    let w' := if 0 < gap then w.addTail (data.take gap) else w
    if data.drop gap = [] then .ok w'
    else
      appendLoop page fuel (w'.renew (BufferList.appendLength page (data.drop gap).length))
        (data.drop gap)

/-- `append(data, len)`. -/
def append (page : ℕ) (data : Bytes) (w : Writer) : Except Stop Writer :=
  appendLoop page (data.length + 2) w data

/-- `append(bl)`. -/
def appendList (l : Pieces) (w : Writer) : Writer :=
  { w with segs := w.segs ++ l.segs, joined := w.joined && l.segs.isEmpty }

/-- `last_p` at the offset, where it may be already. -/
def position (off : ℕ) (w : Writer) : Except Stop Iter :=
  if w.lastP.off.toNat ≠ off then Iter.seek w.segs (.ofNat off) else .ok w.lastP

/-- `copy_in(off, len, src)`. -/
def copyIn (off : ℕ) (src : Bytes) (w : Writer) : Except Stop Writer :=
  if w.length < (off + src.length) % 2 ^ 32 then .error .endOfBuffer
  else (w.position off).bind fun it ↦ (Iter.copyIn w.segs src it).map fun r ↦
    { w with segs := r.1, lastP := r.2 }

end Writer

/-! ## Types and their values -/

/-- The integer types. -/
inductive IntTy
  | uint8 | int8 | char | uint16 | int16 | uint32 | int32 | uint64 | int64
  deriving DecidableEq, Repr

namespace IntTy

/-- `sizeof`. -/
def width : IntTy → ℕ
  | uint8 | int8 | char => 1
  | uint16 | int16 => 2
  | uint32 | int32 => 4
  | uint64 | int64 => 8

def signed : IntTy → Bool
  | int8 | char | int16 | int32 | int64 => true
  | uint8 | uint16 | uint32 | uint64 => false

end IntTy

/-- The containers of elements. -/
inductive Sequence
  | list | deque | vector | set | multiset
  deriving DecidableEq, Repr

/-- The containers of keys and values. -/
inductive Mapping
  | map | multimap
  deriving DecidableEq, Repr

/-- The types that can be encoded. -/
inductive Ty
  | int (k : IntTy)
  | bool
  | string
  | bufferlist
  | pair (a b : Ty)
  | seq (c : Sequence) (t : Ty)
  | assoc (c : Mapping) (k v : Ty)
  deriving DecidableEq, Repr

/-- A byte of C++, as a signed number. -/
def charLt (a b : UInt8) : Bool := a.toInt8 < b.toInt8

/-- `std::lexicographical_compare`. -/
def lexLt {α : Type} (lt : α → α → Bool) : List α → List α → Bool
  | [], ys => !ys.isEmpty
  | _ :: _, [] => false
  | x :: xs, y :: ys => lt x y || (!lt y x && lexLt lt xs ys)

/-- `operator<` of pairs. -/
def pairLt {α β : Type} (lt : α → α → Bool) (lt' : β → β → Bool) (x y : α × β) : Bool :=
  lt x.1 y.1 || (!lt y.1 x.1 && lt' x.2 y.2)

namespace Ty

/-- The values of a type, when those of `bufferlist` are the elements of `β`. An ordered container is
the list of its elements in its own order. -/
def Val (β : Type) : Ty → Type
  | int k => BitVec (8 * k.width)
  | bool => Bool
  | string => Bytes
  | bufferlist => β
  | pair a b => a.Val β × b.Val β
  | seq _ t => List (t.Val β)
  | assoc _ k v => List (k.Val β × v.Val β)

/-- The value with other buffer lists. -/
def mapVal {β γ : Type} (f : β → γ) : (t : Ty) → t.Val β → t.Val γ
  | int _, v => v
  | bool, v => v
  | string, v => v
  | bufferlist, v => f v
  | pair a b, v => (a.mapVal f v.1, b.mapVal f v.2)
  | seq _ t, v => List.map (t.mapVal f) v
  | assoc _ k v, m => List.map (fun e ↦ (k.mapVal f e.1, v.mapVal f e.2)) m

/-- What a value is when each buffer list is taken for its bytes. -/
def contents (t : Ty) : t.Val Pieces → t.Val Bytes := t.mapVal Pieces.bytes

/-- What a fresh object holds. -/
def fresh : (t : Ty) → t.Val Bytes
  | int k => 0#(8 * k.width)
  | bool => false
  | string => ([] : Bytes)
  | bufferlist => ([] : Bytes)
  | pair a b => (a.fresh, b.fresh)
  | seq _ t => ([] : List (t.Val Bytes))
  | assoc _ k v => ([] : List (k.Val Bytes × v.Val Bytes))

/-- `operator<`. -/
def lt : (t : Ty) → t.Val Bytes → t.Val Bytes → Bool
  | int k => fun x y ↦ if k.signed then BitVec.slt x y else BitVec.ult x y
  | bool => fun x y ↦ !x && y
  | string => lexLt fun a b : UInt8 ↦ decide (a < b)
  | bufferlist => lexLt charLt
  | pair a b => pairLt a.lt b.lt
  | seq _ t => lexLt t.lt
  | assoc _ k v => lexLt (pairLt k.lt v.lt)

end Ty

/-! ## Encoders -/

section Encoders

variable (page : ℕ)

/-- `encode` of an integer as so many bytes. -/
def encodeInt (width n : ℕ) (w : Writer) : Except Stop Writer :=
  w.append page (LittleEndian.encode width n)

/-- `encode` of a string: its length and its bytes. -/
def encodeString (s : Bytes) (w : Writer) : Except Stop Writer := do
  (← encodeInt page 4 s.length w).append page s

/-- `encode` of a buffer list. -/
def encodeBufferlist (l : Pieces) (w : Writer) : Except Stop Writer := do
  return (← encodeInt page 4 l.bytes.length w).appendList l

/-- The loop over the elements of a container. -/
def encodeEach {α : Type} (encode : α → Writer → Except Stop Writer) :
    List α → Writer → Except Stop Writer
  | [], w => .ok w
  | x :: xs, w => do encodeEach encode xs (← encode x w)

/-- `encode` of the containers that know their size. -/
def encodeSized {α : Type} (encode : α → Writer → Except Stop Writer) (xs : List α) (w : Writer) :
    Except Stop Writer := do
  encodeEach encode xs (← encodeInt page 4 xs.length w)

/-- `encode` of a `std::list`: if there are elements, their number is patched in afterwards. -/
def encodeList {α : Type} (encode : α → Writer → Except Stop Writer) (xs : List α) (w : Writer) :
    Except Stop Writer := do
  if xs = [] then encodeSized page encode xs w
  else
    let w' ← encodeEach encode xs (← encodeInt page 4 0 w)
    w'.copyIn w.length (LittleEndian.encode 4 xs.length)

namespace Ty

/-- `encode`. -/
def encode : (t : Ty) → t.Val Pieces → Writer → Except Stop Writer
  | int k, v => encodeInt page k.width (BitVec.toNat v)
  | bool, v => encodeInt page 1 (Bool.toNat v)
  | string, s => encodeString page s
  | bufferlist, l => encodeBufferlist page l
  | pair a b, v => fun w ↦ do b.encode v.2 (← a.encode v.1 w)
  | seq .list t, xs => encodeList page t.encode xs
  | seq _ t, xs => encodeSized page t.encode xs
  | assoc _ k v, m => encodeSized page (fun e w ↦ do v.encode e.2 (← k.encode e.1 w)) m

end Ty

end Encoders

/-! ## Decoders -/

/-- What reads a value from a buffer list. -/
abbrev Decode (α : Type) := Decoder (List Bytes) Iter Stop α

/-- `decode` of an integer of so many bytes. -/
def decodeInt (width : ℕ) : Decode ℕ := do
  return LittleEndian.decode (← copyChars width)

/-- `decode` of a string or of a buffer list. -/
def decodeBytes : Decode Bytes := do
  copyAppend (← decodeInt 4)

/-- `insert` of a set. -/
def insertUnique {α : Type} (lt : α → α → Bool) (x : α) : List α → List α
  | [] => [x]
  | y :: ys =>
    if lt y x then y :: insertUnique lt x ys
    else if lt x y then x :: y :: ys
    else y :: ys

/-- `insert` of a multiset or of a multimap: behind the elements that are not greater. -/
def insertMulti {α : Type} (lt : α → α → Bool) (x : α) : List α → List α
  | [] => [x]
  | y :: ys => if lt x y then x :: y :: ys else y :: insertMulti lt x ys

/-- What `m[k]` refers to, if the key is there. -/
def lookup {α β : Type} (lt : α → α → Bool) (k : α) : List (α × β) → Option β
  | [] => none
  | e :: m => if lt e.1 k then lookup lt k m else if lt k e.1 then none else some e.2

/-- `m[k] = v`. -/
def assign {α β : Type} (lt : α → α → Bool) (k : α) (v : β) : List (α × β) → List (α × β)
  | [] => [(k, v)]
  | e :: m =>
    if lt e.1 k then e :: assign lt k v m
    else if lt k e.1 then (k, v) :: e :: m
    else (e.1, v) :: m

namespace Sequence

/-- One round of the loop of `decode`; `done` are the elements it has so far, and a vector has the
elements of its previous value after them. -/
def decodeStep {α : Type} (lt : α → α → Bool) (fresh : α) (decode : α → Decode α) (prev done : List α) :
    Sequence → Decode (List α)
  | list => do return done ++ [← decode fresh]
  | deque => do return done ++ [← decode fresh]
  | vector => do return done ++ [← decode (prev.getD done.length fresh)]
  | set => do return insertUnique lt (← decode fresh) done
  | multiset => do return insertMulti lt (← decode fresh) done

end Sequence

namespace Mapping

/-- One round of the loop of `decode`. -/
def decodeStep {α β : Type} (lt : α → α → Bool) (freshKey : α) (fresh : β) (decodeKey : α → Decode α)
    (decode : β → Decode β) (done : List (α × β)) : Mapping → Decode (List (α × β))
  | map => do
    let k ← decodeKey freshKey
    let v ← decode ((lookup lt k done).getD fresh)
    return assign lt k v done
  | multimap => do
    let k ← decodeKey freshKey
    let v ← decode fresh
    return insertMulti (fun x y ↦ lt x.1 y.1) (k, v) done

end Mapping

namespace Ty

/-- `decode` into a target with a previous value. -/
def decode : (t : Ty) → t.Val Bytes → Decode (t.Val Bytes)
  | int k, _ => do return BitVec.ofNat (8 * k.width) (← decodeInt k.width)
  | bool, _ => do return (← decodeInt 1) != 0
  | string, _ => decodeBytes
  | bufferlist, _ => decodeBytes
  | pair a b, prev => do
    let x ← a.decode prev.1
    let y ← b.decode prev.2
    return (x, y)
  | seq c t, prev => do
    let n ← decodeInt 4
    repeatM (fun done ↦ c.decodeStep t.lt t.fresh t.decode prev done) n ([] : List (t.Val Bytes))
  | assoc c k v, _ => do
    let n ← decodeInt 4
    repeatM (fun done ↦ c.decodeStep k.lt k.fresh v.fresh k.decode v.decode done) n
      ([] : List (k.Val Bytes × v.Val Bytes))

end Ty

end AsyncMessenger
