import AsyncMessenger.Protocol

/-!
# Buffers

`buffer::raw`, `buffer::ptr` and `buffer::list`. A list is a sequence of pointers into raw buffers;
raw buffers are shared between lists, and every list writes what is appended to it into the unused
tail of an `append_buffer` of its own. Raw buffers live in a heap and are never freed there: the
reference counts of the source keep every raw buffer alive that a pointer refers to.

Lengths are 32 bits wide where the source adds them up. An assertion that fails is `none`. Where the
memory comes from is left to an `Allocator`, which says where the raw buffer of a given index lies
and what it holds at first: the source promises nothing of either, apart from the alignment it asks
for.

The operations are those of the source one by one, and nothing is proved about them here. What a
list means is `contents`; that the operations do to it what their names say, and nothing to any
other list, is proved in the modules on valid lists.
-/

namespace AsyncMessenger

namespace Buffer

/-- `buffer::raw`: the address of its memory, what it holds, and `is_shareable()`. -/
structure Raw where
  data : ℕ := 0
  bytes : Bytes := []
  shareable : Bool := true
  deriving DecidableEq, Repr

/-- The raw buffers; the index is the identity. -/
abbrev Heap := List Raw

/-- What the allocator returns as the raw buffer of a given index: where it lies, and what it holds
before anything is written. -/
structure Allocator where
  address : ℕ → ℕ
  junk : ℕ → ℕ → UInt8

/-- `buffer::ptr`. -/
structure Ptr where
  raw : Option ℕ := none
  off : ℕ := 0
  len : ℕ := 0
  deriving DecidableEq, Repr

namespace Heap

/-- The memory of a raw buffer. -/
def bytes (h : Heap) (r : ℕ) : Bytes := (h[r]?.map Raw.bytes).getD []

/-- `memcpy` into a raw buffer. -/
def write (h : Heap) (r o : ℕ) (src : Bytes) : Heap :=
  h.modify r fun raw ↦
    { raw with bytes := raw.bytes.take o ++ (src ++ raw.bytes.drop (o + src.length)) }

variable (alloc : Allocator)

/-- `buffer::create`, `buffer::create_page_aligned`. -/
def create (h : Heap) (len : ℕ) : Heap × Ptr :=
  (h ++ [{ data := alloc.address h.length, bytes := (List.range len).map (alloc.junk h.length) }],
    { raw := some h.length, len })

end Heap

namespace Ptr

variable (alloc : Allocator)

/-- The bytes a pointer refers to. -/
def bytes (h : Heap) (p : Ptr) : Bytes :=
  match p.raw with
  | none => []
  | some r => ((h.bytes r).drop p.off).take p.len

/-- `end()`. -/
def stop (p : Ptr) : ℕ := p.off + p.len

/-- The address of the bytes a pointer refers to. -/
def address (h : Heap) (p : Ptr) : ℕ :=
  match p.raw with
  | none => 0
  | some r => (h[r]?.map Raw.data).getD 0 + p.off

/-- `unused_tail_length`. -/
def unusedTailLength (h : Heap) (p : Ptr) : ℕ :=
  match p.raw with
  | none => 0
  | some r => (h.bytes r).length - p.stop

/-- `ptr::append`; `none` is a failed assertion. -/
def append (h : Heap) (p : Ptr) (src : Bytes) : Option (Heap × Ptr) :=
  match p.raw with
  | none => none
  | some r =>
    if src.length ≤ p.unusedTailLength h then
      some (h.write r p.stop src, { p with len := p.len + src.length })
    else none

/-- `ptr::copy_in`; `none` is a failed assertion. -/
def copyIn (h : Heap) (p : Ptr) (o : ℕ) (src : Bytes) : Option Heap :=
  match p.raw with
  | none => none
  | some r => if o + src.length ≤ p.len then some (h.write r (p.off + o) src) else none

/-- `ptr(p, o, l)`; `none` is a failed assertion. -/
def sub (p : Ptr) (o l : ℕ) : Option Ptr :=
  if (o + l) % 2 ^ 32 ≤ p.len ∧ p.raw.isSome then some { p with off := p.off + o, len := l } else none

/-- `make_shareable`: a raw buffer that must not be shared is cloned. -/
def makeShareable (h : Heap) (p : Ptr) : Heap × Ptr :=
  match p.raw with
  | none => (h, p)
  | some r => match h[r]? with
    | none => (h, p)
    | some raw =>
      if raw.shareable then (h, p)
      else (h ++ [{ data := alloc.address h.length, bytes := raw.bytes }],
        { p with raw := some h.length })

end Ptr

end Buffer

open Buffer

/-- `buffer::list`. -/
structure BufferList where
  /-- `_buffers`. -/
  buffers : List Ptr := []
  /-- `_len`. -/
  len : ℕ := 0
  appendBuffer : Ptr := {}
  deriving DecidableEq, Repr

namespace BufferList

variable (alloc : Allocator) (page : ℕ)

/-- The byte string a list stands for. -/
def contents (h : Heap) (l : BufferList) : Bytes := l.buffers.flatMap (Ptr.bytes h)

/-- The segments of a list. -/
def segments (h : Heap) (l : BufferList) : List Bytes := l.buffers.map (Ptr.bytes h)

/-- Addition of 32-bit lengths. -/
def add32 (a b : ℕ) : ℕ := (a + b) % 2 ^ 32

/-- `clear`. -/
def clear (l : BufferList) : BufferList := { l with buffers := [], len := 0 }

/-- `push_back`. -/
def pushBack (l : BufferList) (p : Ptr) : BufferList :=
  if p.len = 0 then l else { l with buffers := l.buffers ++ [p], len := add32 l.len p.len }

/-- `push_front`. -/
def pushFront (l : BufferList) (p : Ptr) : BufferList :=
  if p.len = 0 then l else { l with buffers := p :: l.buffers, len := add32 l.len p.len }

/-- `append(bp)`. -/
def appendPtr (l : BufferList) (p : Ptr) : BufferList := if p.len = 0 then l else l.pushBack p

/-- `append(bp, off, len)`: the last segment is extended if the bytes follow it in memory. -/
def appendSub (l : BufferList) (p : Ptr) (off len : ℕ) : Option BufferList :=
  if p.len < add32 len off then none
  else match l.buffers.getLast? with
    | some last =>
      if last.raw = p.raw ∧ last.stop = p.off + off then
        some { l with
          buffers := l.buffers.dropLast ++ [{ last with len := last.len + len }]
          len := add32 l.len len }
      else (p.sub off len).map l.pushBack
    | none => (p.sub off len).map l.pushBack

/-- What fits goes into the `append_buffer`, and becomes a segment. -/
def fill (h : Heap) (l : BufferList) (src : Bytes) : Option (Heap × BufferList) :=
  (l.appendBuffer.append h src).bind fun x ↦
    (({ l with appendBuffer := x.2 } : BufferList).appendSub x.2 (x.2.stop - src.length)
      src.length).map fun l ↦ (x.1, l)

/-- A new `append_buffer`, nothing of it used. -/
def newAppendBuffer (h : Heap) (l : BufferList) (alen : ℕ) : Heap × BufferList :=
  let x := h.create alloc alen
  (x.1, { l with appendBuffer := { x.2 with len := 0 } })

/-- `append(c)`. -/
def appendChar (h : Heap) (l : BufferList) (c : UInt8) : Option (Heap × BufferList) :=
  let x := if l.appendBuffer.unusedTailLength h = 0 then newAppendBuffer alloc h l page else (h, l)
  fill x.1 x.2 [c]

/-- `alen`, an `unsigned`. -/
def appendLength (len : ℕ) : ℕ := page * ((len - 1) / page + 1) % 2 ^ 32

/-- `append(data, len)`: a loop, with at most so many rounds. -/
def appendData : ℕ → Heap → BufferList → Bytes → Option (Heap × BufferList)
  | _, h, l, [] => some (h, l)
  | 0, _, _, _ => none
  | fuel + 1, h, l, src =>
    let gap := min (l.appendBuffer.unusedTailLength h) src.length
    (if 0 < gap then fill h l (src.take gap) else some (h, l)).bind fun x ↦
      if src.drop gap = [] then some x
      else
        let y := newAppendBuffer alloc x.1 x.2 (appendLength page (src.drop gap).length)
        appendData fuel y.1 y.2 (src.drop gap)

/-- `append(bl)`. -/
def appendList (l o : BufferList) : BufferList :=
  { l with buffers := l.buffers ++ o.buffers, len := add32 l.len o.len }

/-- `make_shareable` on every segment. -/
def makeShareable : Heap → List Ptr → Heap × List Ptr
  | h, [] => (h, [])
  | h, p :: ps =>
    let x := p.makeShareable alloc h
    let y := makeShareable x.1 ps
    (y.1, x.2 :: y.2)

/-- `list(other)`. -/
def copyOf (h : Heap) (o : BufferList) : Heap × BufferList :=
  let x := makeShareable alloc h o.buffers
  (x.1, { buffers := x.2, len := o.len })

/-- `operator=`. -/
def assign (h : Heap) (l o : BufferList) : Heap × BufferList :=
  let x := makeShareable alloc h o.buffers
  (x.1, { l with buffers := x.2, len := o.len })

/-- The other list of a claim makes its buffers shareable, unless told otherwise, and gives them away. -/
def giveAway (h : Heap) (o : BufferList) (allowNonshareable : Bool) : Heap × List Ptr :=
  if allowNonshareable then (h, o.buffers) else makeShareable alloc h o.buffers

/-- `claim_append`: the heap, this list and the other one. -/
def claimAppend (h : Heap) (l o : BufferList) (allowNonshareable : Bool) :
    Heap × BufferList × BufferList :=
  let x := giveAway alloc h o allowNonshareable
  (x.1, { l with buffers := l.buffers ++ x.2, len := add32 l.len o.len }, o.clear)

/-- `claim_prepend`. -/
def claimPrepend (h : Heap) (l o : BufferList) (allowNonshareable : Bool) :
    Heap × BufferList × BufferList :=
  let x := giveAway alloc h o allowNonshareable
  (x.1, { l with buffers := x.2 ++ l.buffers, len := add32 l.len o.len }, o.clear)

/-- `claim`. -/
def claim (h : Heap) (l o : BufferList) (allowNonshareable : Bool) :
    Heap × BufferList × BufferList :=
  claimAppend alloc h l.clear o allowNonshareable

/-- `share`. -/
def share (l o : BufferList) : BufferList := o.buffers.foldl pushBack l.clear

/-- The loop of `rebuild(nb)`. -/
def copyAll (nb : Ptr) : ℕ → Heap → List Ptr → Option Heap
  | _, h, [] => some h
  | pos, h, p :: ps => (nb.copyIn h pos (p.bytes h)).bind fun h ↦ copyAll nb (pos + p.len) h ps

/-- `rebuild`. -/
def rebuild (h : Heap) (l : BufferList) : Option (Heap × BufferList) :=
  if l.len = 0 then some (h, { l with buffers := [] })
  else
    let x := h.create alloc l.len
    (copyAll x.2 0 x.1 l.buffers).map fun h ↦
      (h, { l with buffers := if x.2.len = 0 then [] else [x.2] })

end BufferList

end AsyncMessenger
