import AsyncMessenger.BufferSharing
import AsyncMessenger.Lib.Run

/-!
# Lists are byte strings

A program has any number of lists and of pointers, over one heap, and applies the operations of
`buffer::list` to them in any order. On the other side stand as many byte strings, and the same
operations on byte strings. What the lists hold follows the byte strings through every run: no operation
changes a list it is not applied to, although the lists share their raw buffers and go on appending into
them.

The one exception is `append(data, len)`. The length of a new `append_buffer` is rounded up to whole
pages in 32 bits; where it overflows it becomes 0, and the loop makes one empty buffer after the other.

## The simulation

`BufferWorld` has the lists, the pointers and the heap, `Strings` has the byte strings, and
`BufferOp` is an operation on either. `Valid` is the invariant: each list is well formed, and no two
lists append to the same raw buffer. It has a parameter, which says how much of each raw buffer is
in use, and each operation gives it a new value. `Valid.step` says of one operation that it returns,
keeps the invariant and changes the byte strings as it should, provided that there is room;
`step_iff_room` at the end says that there is nothing else to ask for.
-/

namespace AsyncMessenger

open Buffer

/-- The lists and the pointers of a program, by name. -/
structure BufferWorld where
  heap : Heap := []
  lists : ℕ → BufferList := fun _ ↦ {}
  ptrs : ℕ → Ptr := fun _ ↦ {}

/-- What a program does with its lists; the first number is the list that is changed. The last three
make a pointer: to a new raw buffer, to a segment of a list, and to a part of what another pointer refers
to. -/
inductive BufferOp
  | list (n : ℕ)
  | copyOf (n m : ℕ)
  | assign (n m : ℕ)
  | appendChar (n : ℕ) (c : UInt8)
  | appendData (n : ℕ) (src : Bytes)
  | appendPtr (n p : ℕ)
  | appendSub (n p off len : ℕ)
  | appendList (n m : ℕ)
  | pushBack (n p : ℕ)
  | pushFront (n p : ℕ)
  | claim (n m : ℕ) (allowNonshareable : Bool)
  | claimAppend (n m : ℕ) (allowNonshareable : Bool)
  | claimPrepend (n m : ℕ) (allowNonshareable : Bool)
  | share (n m : ℕ)
  | swap (n m : ℕ)
  | clear (n : ℕ)
  | rebuild (n : ℕ)
  | pointer (p : ℕ) (src : Bytes) (shareable : Bool)
  | segment (p n i : ℕ)
  | subPtr (p q off len : ℕ)

/-- As many byte strings. -/
@[ext] structure Strings where
  lists : ℕ → Bytes
  ptrs : ℕ → Bytes

namespace Strings

/-- The string of a list changes. -/
def set (s : Strings) (n : ℕ) (bs : Bytes) : Strings := { s with lists := Function.update s.lists n bs }

/-- The string of a pointer changes. -/
def point (s : Strings) (p : ℕ) (bs : Bytes) : Strings := { s with ptrs := Function.update s.ptrs p bs }

/-- The operations on byte strings. Only a pointer to a segment depends on how a list is segmented. -/
def apply (s : Strings) (segments : ℕ → List Bytes) : BufferOp → Strings
  | .list n => s.set n []
  | .copyOf n m => s.set n (s.lists m)
  | .assign n m => s.set n (s.lists m)
  | .appendChar n c => s.set n (s.lists n ++ [c])
  | .appendData n src => s.set n (s.lists n ++ src)
  | .appendPtr n p => s.set n (s.lists n ++ s.ptrs p)
  | .appendSub n p off len => s.set n (s.lists n ++ ((s.ptrs p).drop off).take len)
  | .appendList n m => s.set n (s.lists n ++ s.lists m)
  | .pushBack n p => s.set n (s.lists n ++ s.ptrs p)
  | .pushFront n p => s.set n (s.ptrs p ++ s.lists n)
  | .claim n m _ => (s.set n (s.lists m)).set m []
  | .claimAppend n m _ => (s.set n (s.lists n ++ s.lists m)).set m []
  | .claimPrepend n m _ => (s.set n (s.lists m ++ s.lists n)).set m []
  | .share n m => s.set n (s.lists m)
  | .swap n m => (s.set n (s.lists m)).set m (s.lists n)
  | .clear n => s.set n []
  | .rebuild _ => s
  | .pointer p src _ => s.point p src
  | .segment p n i => s.point p ((segments n)[i]?.getD [])
  | .subPtr p q off len => s.point p (((s.ptrs q).drop off).take len)

theorem set_self (s : Strings) (n : ℕ) : s.set n (s.lists n) = s :=
  Strings.ext (Function.update_eq_self n s.lists) rfl

theorem length_set_lt {s : Strings} {n : ℕ} {bs : Bytes} (hs : ∀ k, (s.lists k).length < 2 ^ 32)
    (hbs : bs.length < 2 ^ 32) (k : ℕ) : ((s.set n bs).lists k).length < 2 ^ 32 := by
  simp only [set, Function.update_apply]
  split_ifs
  · exact hbs
  · exact hs k

end Strings

namespace BufferWorld

open BufferList

variable (alloc : Allocator) (page rounds : ℕ)

/-- A list is replaced, and perhaps the heap. -/
def put (w : BufferWorld) (n : ℕ) (x : Heap × BufferList) : BufferWorld :=
  { w with heap := x.1, lists := Function.update w.lists n x.2 }

/-- A pointer is replaced. -/
def point (w : BufferWorld) (p : ℕ) (x : Heap × Ptr) : BufferWorld :=
  { w with heap := x.1, ptrs := Function.update w.ptrs p x.2 }

/-- Both lists of a claim. -/
def putBoth (w : BufferWorld) (n m : ℕ) (x : Heap × BufferList × BufferList) : BufferWorld :=
  (w.put n (x.1, x.2.1)).put m (x.1, x.2.2)

/-- One operation; `none` if it does not return. -/
def step (w : BufferWorld) : BufferOp → Option BufferWorld
  | .list n => some (w.put n (w.heap, {}))
  | .copyOf n m => some (w.put n (copyOf alloc w.heap (w.lists m)))
  | .assign n m =>
    some (if n = m then w else w.put n (assign alloc w.heap (w.lists n) (w.lists m)))
  | .appendChar n c => (appendChar alloc page w.heap (w.lists n) c).map (w.put n)
  | .appendData n src => (appendData alloc page rounds w.heap (w.lists n) src).map (w.put n)
  | .appendPtr n p => some (w.put n (w.heap, (w.lists n).appendPtr (w.ptrs p)))
  | .appendSub n p off len =>
    ((w.lists n).appendSub (w.ptrs p) off len).map fun l ↦ w.put n (w.heap, l)
  | .appendList n m => some (w.put n (w.heap, (w.lists n).appendList (w.lists m)))
  | .pushBack n p => some (w.put n (w.heap, (w.lists n).pushBack (w.ptrs p)))
  | .pushFront n p => some (w.put n (w.heap, (w.lists n).pushFront (w.ptrs p)))
  | .claim n m flag => some (w.putBoth n m (claim alloc w.heap (w.lists n) (w.lists m) flag))
  | .claimAppend n m flag =>
    some (w.putBoth n m (claimAppend alloc w.heap (w.lists n) (w.lists m) flag))
  | .claimPrepend n m flag =>
    some (w.putBoth n m (claimPrepend alloc w.heap (w.lists n) (w.lists m) flag))
  | .share n m => some (if n = m then w else w.put n (w.heap, share (w.lists n) (w.lists m)))
  | .swap n m => some (w.putBoth n m (w.heap, w.lists m, w.lists n))
  | .clear n => some (w.put n (w.heap, (w.lists n).clear))
  | .rebuild n => (rebuild alloc w.heap (w.lists n)).map (w.put n)
  | .pointer p src shareable =>
    some (w.point p
      (w.heap ++ [{ data := alloc.address w.heap.length, bytes := src, shareable }],
        { raw := some w.heap.length, len := src.length }))
  | .segment p n i => some (w.point p (w.heap, (w.lists n).buffers[i]?.getD {}))
  | .subPtr p q off len => ((w.ptrs q).sub off len).map fun x ↦ w.point p (w.heap, x)

/-- The byte strings that the lists and pointers stand for. -/
def strings (w : BufferWorld) : Strings where
  lists n := (w.lists n).contents w.heap
  ptrs p := (w.ptrs p).bytes w.heap

/-- The byte strings after an operation, as the operation on byte strings has it. -/
def expected (w : BufferWorld) (op : BufferOp) : Strings :=
  w.strings.apply (fun n ↦ (w.lists n).segments w.heap) op

/-- The operands are distinct lists, a part of a pointer is part of it, and no list gets longer than an
`unsigned` can say. -/
def Legal (w : BufferWorld) (op : BufferOp) : Prop :=
  (match op with
    | .appendList n m | .claim n m _ | .claimAppend n m _ | .claimPrepend n m _ => n ≠ m
    | .appendSub _ p off len | .subPtr _ p off len =>
      (w.ptrs p).raw.isSome ∧ off + len ≤ (w.ptrs p).len
    | _ => True) ∧
  ∀ n, ((w.expected op).lists n).length < 2 ^ 32

/-- What does not fit into the `append_buffer` can be rounded up to whole pages in 32 bits. -/
def Room (w : BufferWorld) : BufferOp → Prop
  | .appendData n src =>
    excess w.heap (w.lists n) src = 0 ∨ excess w.heap (w.lists n) src + page ≤ 2 ^ 32
  | _ => True

/-- `_len` is the sum of the lengths of the segments, and none of them is empty. -/
def WellFormed (w : BufferWorld) : Prop :=
  ∀ n, (w.lists n).len = ((w.lists n).buffers.map Ptr.len).sum ∧
    ∀ p ∈ (w.lists n).buffers, 0 < p.len

/-! ## The invariant

What one operation does to its own list is known from the module on areas. Here it is put among the
others: they keep their strings. -/

/-- Every list is well formed, every pointer refers to bytes in use, and no two lists append into the
same raw buffer. -/
structure Valid (used : ℕ → ℕ) (w : BufferWorld) : Prop where
  tidy : Tidy w.heap used
  good : ∀ n, (w.lists n).Good w.heap used
  ptr : ∀ p, (w.ptrs p).In w.heap used
  apart : ∀ n m r, (w.lists n).appendBuffer.raw = some r → (w.lists m).appendBuffer.raw = some r → n = m

variable {alloc page rounds} {used : ℕ → ℕ} {w : BufferWorld}

theorem good_empty (h : Heap) (used : ℕ → ℕ) : ({} : BufferList).Good h used :=
  ⟨fun _ hp ↦ absurd hp List.not_mem_nil, ⟨rfl, fun _ hr ↦ absurd hr (by simp)⟩, rfl⟩

theorem valid_init : Valid (fun _ ↦ 0) {} where
  tidy := fun _ hr ↦ absurd hr (Nat.not_lt_zero _)
  good := fun _ ↦ good_empty [] _
  ptr := fun _ ↦ ⟨fun _ ↦ rfl, fun _ hr ↦ absurd hr (by simp)⟩
  apart := fun _ _ _ hr ↦ absurd hr (by simp)

/-- One list changes, and what the others hold does not. -/
theorem Valid.put {n : ℕ} {h' : Heap} {l' : BufferList} {bs : Bytes} (hw : Valid used w)
    (hb : Becomes w.heap used (w.lists n) h' l' bs) :
    ∃ used', Valid used' (w.put n (h', l')) ∧ (w.put n (h', l')).strings = w.strings.set n bs := by
  obtain ⟨used', hg, hgood, hcontents, hown⟩ := hb
  have hself : (w.put n (h', l')).lists n = l' := Function.update_self ..
  have hne {k : ℕ} (hk : k ≠ n) : (w.put n (h', l')).lists k = w.lists k := Function.update_of_ne hk ..
  -- an `append_buffer` of another list is not the new one
  have hapart {k r : ℕ} (hr : l'.appendBuffer.raw = some r)
      (hk : (w.lists k).appendBuffer.raw = some r) : n = k :=
    hw.apart n k r (hown r ((hw.good k).tail.2 r hk).1 hr) hk
  refine ⟨used', ⟨hg.tidy, fun k ↦ ?_, fun p ↦ (hw.ptr p).grows hg, fun i j r hi hj ↦ ?_⟩, ?_⟩
  · by_cases hk : k = n
    · rw [hk, hself]
      exact hgood
    · rw [hne hk]
      exact (hw.good k).grows hg fun r _ hr heq ↦ hk (hw.apart k n r hr heq)
  · by_cases hin : i = n <;> by_cases hjn : j = n
    · rw [hin, hjn]
    · rw [hin, hself] at hi
      rw [hne hjn] at hj
      exact hin.trans (hapart hi hj)
    · rw [hjn, hself] at hj
      rw [hne hin] at hi
      exact (hjn.trans (hapart hj hi)).symm
    · rw [hne hin] at hi
      rw [hne hjn] at hj
      exact hw.apart i j r hi hj
  · refine Strings.ext (funext fun k ↦ ?_) (funext fun p ↦ (hw.ptr p).bytes_eq hg)
    by_cases hk : k = n
    · simp only [strings, Strings.set, hk, hself, Function.update_self]
      exact hcontents
    · simp only [strings, Strings.set, hne hk, Function.update_of_ne hk]
      exact (hw.good k).contents_eq hg

/-- One pointer changes; the heap may grow. -/
theorem Valid.point {p : ℕ} {h' : Heap} {used' : ℕ → ℕ} {x : Ptr} {bs : Bytes} (hw : Valid used w)
    (hg : Grows none w.heap used h' used') (hx : x.In h' used') (hbytes : x.bytes h' = bs) :
    Valid used' (w.point p (h', x)) ∧ (w.point p (h', x)).strings = w.strings.point p bs := by
  have hself : (w.point p (h', x)).ptrs p = x := Function.update_self ..
  have hne {k : ℕ} (hk : k ≠ p) : (w.point p (h', x)).ptrs k = w.ptrs k := Function.update_of_ne hk ..
  refine ⟨⟨hg.tidy, fun k ↦ (hw.good k).grows hg fun _ _ _ ↦ by simp, fun k ↦ ?_, hw.apart⟩, ?_⟩
  · by_cases hk : k = p
    · rw [hk, hself]
      exact hx
    · rw [hne hk]
      exact (hw.ptr k).grows hg
  · refine Strings.ext (funext fun k ↦ (hw.good k).contents_eq hg) (funext fun k ↦ ?_)
    by_cases hk : k = p
    · simp only [strings, Strings.point, hk, hself, Function.update_self]
      exact hbytes
    · simp only [strings, Strings.point, hne hk, Function.update_of_ne hk]
      exact (hw.ptr k).bytes_eq hg

/-- A list becomes another one without its `append_buffer` or the heap changing. -/
theorem Valid.set {n : ℕ} {l' : BufferList} {bs : Bytes} (hw : Valid used w)
    (hl : l'.Good w.heap used ∧ l'.contents w.heap = bs ∧
      l'.appendBuffer = (w.lists n).appendBuffer) :
    ∃ used', Valid used' (w.put n (w.heap, l')) ∧
      (w.put n (w.heap, l')).strings = w.strings.set n bs := by
  apply hw.put
  rw [← hl.2.1]
  exact hl.1.becomes hw.tidy hl.2.2

/-- Both lists of a claim: one takes over the buffers, the other is left empty. -/
theorem Valid.putBoth {n m : ℕ} {h' : Heap} {l' : BufferList} {bs : Bytes} (hw : Valid used w)
    (hne : n ≠ m) (hb : Becomes w.heap used (w.lists n) h' l' bs) :
    ∃ used', Valid used' (w.putBoth n m (h', l', (w.lists m).clear)) ∧
      (w.putBoth n m (h', l', (w.lists m).clear)).strings = (w.strings.set n bs).set m [] := by
  obtain ⟨used₁, hw₁, hstrings₁⟩ := hw.put hb
  have hsame : (w.put n (h', l')).lists m = w.lists m := Function.update_of_ne hne.symm ..
  have hclear := (hw₁.good m).clear
  rw [hsame] at hclear
  obtain ⟨used₂, hw₂, hstrings₂⟩ := hw₁.set (n := m) ⟨hclear, rfl, by rw [hsame]; rfl⟩
  exact ⟨used₂, hw₂, by rw [← hstrings₁]; exact hstrings₂⟩

theorem lists_swap (w : BufferWorld) (n m k : ℕ) :
    (w.putBoth n m (w.heap, w.lists m, w.lists n)).lists k = w.lists (Equiv.swap n m k) := by
  simp only [BufferWorld.putBoth, BufferWorld.put, Function.update_apply, Equiv.swap_apply_def]
  split_ifs <;> simp_all

/-- **`swap`**: the lists change places, each with its `append_buffer`. -/
theorem Valid.swap (hw : Valid used w) (n m : ℕ) :
    Valid used (w.putBoth n m (w.heap, w.lists m, w.lists n)) ∧
      (w.putBoth n m (w.heap, w.lists m, w.lists n)).strings =
        (w.strings.set n (w.strings.lists m)).set m (w.strings.lists n) := by
  have hlists := lists_swap w n m
  refine ⟨⟨hw.tidy, fun k ↦ ?_, hw.ptr, fun i j r hi hj ↦ ?_⟩, ?_⟩
  · rw [hlists]
    exact hw.good _
  · rw [hlists] at hi hj
    exact (Equiv.swap n m).injective (hw.apart _ _ r hi hj)
  · refine Strings.ext (funext fun k ↦ ?_) rfl
    have hk : (w.putBoth n m (w.heap, w.lists m, w.lists n)).strings.lists k =
        w.strings.lists (Equiv.swap n m k) := congrArg (·.contents w.heap) (hlists k)
    rw [hk]
    simp only [Strings.set, Function.update_apply, Equiv.swap_apply_def]
    split_ifs <;> simp_all

/-! ## Steps

One lemma for each kind of operation: those on a single list, those that take from another one, and
`swap`. -/

/-- An operation that returns a list for `n`. -/
theorem Valid.step_put {n : ℕ} {bs : Bytes} {x : Option (Heap × BufferList)} (hw : Valid used w)
    (hx : ∃ h' l', x = some (h', l') ∧ Becomes w.heap used (w.lists n) h' l' bs) :
    ∃ w' used', x.map (w.put n) = some w' ∧ Valid used' w' ∧ w'.strings = w.strings.set n bs := by
  obtain ⟨h', l', rfl, hb⟩ := hx
  obtain ⟨used', hw', hstrings⟩ := hw.put hb
  exact ⟨_, used', rfl, hw', hstrings⟩

/-- An operation that makes another list of `n`, and touches neither its `append_buffer` nor the heap. -/
theorem Valid.step_set {n : ℕ} {l' : BufferList} {bs : Bytes} (hw : Valid used w)
    (hl : l'.Good w.heap used ∧ l'.contents w.heap = bs ∧
      l'.appendBuffer = (w.lists n).appendBuffer) :
    ∃ w' used', some (w.put n (w.heap, l')) = some w' ∧ Valid used' w' ∧
      w'.strings = w.strings.set n bs := by
  obtain ⟨used', hw', hstrings⟩ := hw.set hl
  exact ⟨_, used', rfl, hw', hstrings⟩

/-- A claim. -/
theorem Valid.step_putBoth {n m : ℕ} {h' : Heap} {l' : BufferList} {bs : Bytes} (hw : Valid used w)
    (hne : n ≠ m) (hb : Becomes w.heap used (w.lists n) h' l' bs) :
    ∃ w' used', some (w.putBoth n m (h', l', (w.lists m).clear)) = some w' ∧ Valid used' w' ∧
      w'.strings = (w.strings.set n bs).set m [] := by
  obtain ⟨used', hw', hstrings⟩ := hw.putBoth hne hb
  exact ⟨_, used', rfl, hw', hstrings⟩

/-- An operation that returns a pointer for `p`. -/
theorem Valid.step_point {p : ℕ} {h' : Heap} {used' : ℕ → ℕ} {x : Ptr} {bs : Bytes} (hw : Valid used w)
    (hg : Grows none w.heap used h' used') (hx : x.In h' used') (hbytes : x.bytes h' = bs) :
    ∃ w' used', some (w.point p (h', x)) = some w' ∧ Valid used' w' ∧
      w'.strings = w.strings.point p bs :=
  ⟨_, used', rfl, hw.point hg hx hbytes⟩

/-- The condition on the rounding, for a length of 32 bits. -/
theorem room_iff (hpage : 0 < page) (hdvd : page ∣ 2 ^ 32) {n : ℕ} (hn : n < 2 ^ 32) :
    n = 0 ∨ n + page ≤ 2 ^ 32 ↔ n = 0 ∨ n ≤ appendLength page n := by
  rcases Nat.eq_zero_or_pos n with rfl | hpos
  · simp
  rcases appendLength_cases hpage hdvd hpos hn with h | h <;> omega

theorem excess_lt {n : ℕ} {src : Bytes} (hop : w.Legal (.appendData n src)) :
    excess w.heap (w.lists n) src < 2 ^ 32 := by
  have hsrc : ((w.expected (.appendData n src)).lists n).length < 2 ^ 32 := hop.2 n
  simp only [expected, Strings.apply, Strings.set, Function.update_self, List.length_append] at hsrc
  rw [excess]
  omega

variable (alloc rounds) in
/-- **One operation.** It returns, keeps the invariant, and changes the byte strings as it should. -/
theorem Valid.step {op : BufferOp} (hpage : 0 < page) (hdvd : page ∣ 2 ^ 32) (hw : Valid used w)
    (hop : w.Legal op) (hroom : w.Room page op) (hfits : ∀ n, (w.strings.lists n).length < 2 ^ 32) :
    ∃ w' used', step alloc page (rounds + 2) w op = some w' ∧ Valid used' w' ∧
      w'.strings = w.expected op := by
  have hsome {n : ℕ} {x : Heap × BufferList} {bs : Bytes}
      (hb : Becomes w.heap used (w.lists n) x.1 x.2 bs) :
      ∃ w' used', some (w.put n x) = some w' ∧ Valid used' w' ∧ w'.strings = w.strings.set n bs :=
    hw.step_put (x := some x) ⟨x.1, x.2, rfl, hb⟩
  have hsame (n : ℕ) : ∃ w' used', some w = some w' ∧ Valid used' w' ∧
      w'.strings = w.strings.set n (w.strings.lists n) :=
    ⟨w, used, rfl, hw, (Strings.set_self w.strings n).symm⟩
  cases op with
  | list n =>
    exact hsome ⟨used, .refl hw.tidy, good_empty _ _, rfl, fun r _ hr ↦ absurd hr (by simp)⟩
  | copyOf n m => exact hsome (copyOf_becomes (hw.good m) hw.tidy)
  | assign n m =>
    by_cases hnm : n = m
    · rw [BufferWorld.step, if_pos hnm, hnm]
      exact hsame m
    · rw [BufferWorld.step, if_neg hnm]
      exact hsome (assign_becomes (hw.good n) (hw.good m) hw.tidy)
  | appendChar n c => exact hw.step_put (appendChar_becomes hpage (hw.good n) hw.tidy c)
  | appendData n src =>
    have hroom' := (room_iff hpage hdvd (excess_lt hop)).mp hroom
    exact hw.step_put (appendData_becomes (hw.good n) hw.tidy hroom')
  | appendPtr n p =>
    rw [BufferWorld.step, appendPtr_eq]
    exact hw.step_set ((hw.good n).pushBack (hw.ptr p) hw.tidy)
  | appendSub n p off len =>
    obtain ⟨l', hl', hspec⟩ := (hw.good n).appendSub off len (hw.ptr p) hw.tidy hop.1.1 hop.1.2
    rw [BufferWorld.step, hl', Option.map_some]
    exact hw.step_set hspec
  | appendList n m =>
    obtain ⟨hgood, hcontents⟩ := (hw.good n).appendList (hw.good m)
    exact hw.step_set ⟨hgood, hcontents, rfl⟩
  | pushBack n p => exact hw.step_set ((hw.good n).pushBack (hw.ptr p) hw.tidy)
  | pushFront n p => exact hw.step_set ((hw.good n).pushFront (hw.ptr p) hw.tidy)
  | claim n m flag => exact hw.step_putBoth hop.1 (claim_becomes (hw.good n) (hw.good m) hw.tidy flag)
  | claimAppend n m flag =>
    exact hw.step_putBoth hop.1 (claimAppend_becomes (hw.good n) (hw.good m) hw.tidy flag)
  | claimPrepend n m flag =>
    exact hw.step_putBoth hop.1 (claimPrepend_becomes (hw.good n) (hw.good m) hw.tidy flag)
  | share n m =>
    by_cases hnm : n = m
    · rw [BufferWorld.step, if_pos hnm, hnm]
      exact hsame m
    · rw [BufferWorld.step, if_neg hnm]
      exact hsome (share_becomes (hw.good n) (hw.good m) hw.tidy)
  | swap n m =>
    obtain ⟨hw', hstrings⟩ := hw.swap n m
    exact ⟨_, used, rfl, hw', hstrings⟩
  | clear n => exact hw.step_set ⟨(hw.good n).clear, rfl, rfl⟩
  | rebuild n =>
    obtain ⟨w', used', hw'⟩ := hw.step_put (rebuild_becomes (hw.good n) hw.tidy (hfits n))
    refine ⟨w', used', hw'.1, hw'.2.1, hw'.2.2.trans (w.strings.set_self n)⟩
  | pointer p src shareable =>
    refine hw.step_point (grows_append _ hw.tidy (le_refl _))
      ⟨fun hnone ↦ absurd hnone (by simp), fun r hr ↦ ?_⟩ ?_
    · have heq : w.heap.length = r := Option.some_inj.mp hr
      rw [← heq, Function.update_self, List.length_append, List.length_singleton]
      exact ⟨Nat.lt_succ_self _, (Nat.zero_add _).le⟩
    · simp only [Ptr.bytes, Heap.bytes_append_self, List.drop_zero, List.take_length]
  | segment p n i =>
    have hbytes : ((w.lists n).buffers[i]?.getD {}).bytes w.heap =
        ((w.lists n).segments w.heap)[i]?.getD [] := by
      rw [segments, List.getElem?_map]
      cases (w.lists n).buffers[i]? <;> rfl
    refine hw.step_point (.refl hw.tidy) ?_ hbytes
    cases hi : (w.lists n).buffers[i]? with
    | none => exact ⟨fun _ ↦ rfl, fun _ hr ↦ absurd hr (by simp)⟩
    | some x => exact ((hw.good n).segment x (List.mem_of_getElem? hi)).1
  | subPtr p q off len =>
    obtain ⟨x, hx⟩ := Ptr.sub_isSome hop.1.1 hop.1.2
    obtain ⟨hin, -, hbytes⟩ := (hw.ptr q).sub hop.1.2 hx
    rw [BufferWorld.step, hx, Option.map_some]
    exact hw.step_point (.refl hw.tidy) hin hbytes

/-- Without room for it an `append` never returns, however many rounds its loop is given. -/
theorem step_of_not_room {op : BufferOp} (hpage : 0 < page) (hdvd : page ∣ 2 ^ 32) (hop : w.Legal op)
    (hroom : ¬w.Room page op) : BufferWorld.step alloc page rounds w op = none := by
  cases op with
  | appendData n src =>
    have hlt := excess_lt hop
    rw [Room, not_or] at hroom
    have hzero := (appendLength_cases hpage hdvd (Nat.pos_of_ne_zero hroom.1) hlt).resolve_left
      fun h ↦ hroom.2 h.1
    rw [BufferWorld.step, appendData_of_overflow (Nat.pos_of_ne_zero hroom.1) hzero.2]
    rfl
  | _ => exact absurd trivial hroom

/-! ## Runs -/

theorem Valid.wellFormed (hw : Valid used w) (hfits : ∀ n, (w.strings.lists n).length < 2 ^ 32) :
    w.WellFormed := by
  intro n
  have hlength := (hw.good n).length_contents hw.tidy
  have hlt : ((w.lists n).contents w.heap).length < 2 ^ 32 := hfits n
  refine ⟨?_, fun p hp ↦ ((hw.good n).segment p hp).2⟩
  rw [(hw.good n).len, ← hlength, Nat.mod_eq_of_lt hlt]

/-- The invariant holds throughout a run of legal operations that return. -/
theorem valid_of_exec (hpage : 0 < page) (hdvd : page ∣ 2 ^ 32) {ops : List BufferOp}
    (hlegal : Run.Meets (step alloc page (rounds + 2)) Legal {} ops)
    (hrun : Run.exec (step alloc page (rounds + 2)) {} ops = some w) :
    (∃ used, Valid used w) ∧ ∀ n, (w.strings.lists n).length < 2 ^ 32 := by
  refine Run.invariant_of_meets (I := fun w ↦ (∃ used, Valid used w) ∧
    ∀ n, (w.strings.lists n).length < 2 ^ 32) (fun w op w' hw hop hstep ↦ ?_)
    ⟨⟨_, valid_init⟩, fun n ↦ by simp [strings, contents]⟩ hlegal hrun
  obtain ⟨⟨used, hvalid⟩, hfits⟩ := hw
  have hroom : w.Room page op := by
    by_contra hroom
    rw [step_of_not_room hpage hdvd hop hroom] at hstep
    exact absurd hstep (by simp)
  obtain ⟨w'', used', hstep', hw', hstrings⟩ := hvalid.step alloc rounds hpage hdvd hop hroom hfits
  rw [hstep, Option.some_inj] at hstep'
  rw [hstep', hstrings]
  exact ⟨⟨used', hw'⟩, hop.2⟩

/-- **Lists are byte strings.** In every state that a run of legal operations reaches, the lists are well
formed; and a further operation returns, keeps them so, and changes all the byte strings as the operation
on byte strings does, if and only if what it has to make room for can be rounded up to whole pages. -/
theorem step_iff_room (hpage : 0 < page) (hdvd : page ∣ 2 ^ 32) {ops : List BufferOp}
    (hlegal : Run.Meets (step alloc page (rounds + 2)) Legal {} ops)
    (hrun : Run.exec (step alloc page (rounds + 2)) {} ops = some w) :
    w.WellFormed ∧ ∀ op, w.Legal op →
      ((∃ w', step alloc page (rounds + 2) w op = some w' ∧ w'.WellFormed ∧
        w'.strings = w.expected op) ↔ w.Room page op) := by
  obtain ⟨⟨used, hvalid⟩, hfits⟩ := valid_of_exec hpage hdvd hlegal hrun
  refine ⟨hvalid.wellFormed hfits, fun op hop ↦ ⟨fun ⟨w', hstep, _⟩ ↦ ?_, fun hroom ↦ ?_⟩⟩
  · by_contra hroom
    rw [step_of_not_room hpage hdvd hop hroom] at hstep
    exact absurd hstep (by simp)
  · obtain ⟨w', used', hstep, hw', hstrings⟩ := hvalid.step alloc rounds hpage hdvd hop hroom hfits
    refine ⟨w', hstep, hw'.wellFormed fun n ↦ ?_, hstrings⟩
    rw [hstrings]
    exact hop.2 n

/-- A list and its copy share the first byte; the list goes on appending. -/
theorem step_iff_room_shared :
    ∃ w, Run.exec (step { address := fun n ↦ 4096 * n, junk := fun _ _ ↦ 0 } 4 2) {}
        [.appendChar 0 97, .copyOf 1 0] = some w ∧
      w.WellFormed ∧ w.Legal (.appendData 0 [98, 99]) ∧
      ∃ w', step { address := fun n ↦ 4096 * n, junk := fun _ _ ↦ 0 } 4 2 w
          (.appendData 0 [98, 99]) = some w' ∧
        w'.WellFormed ∧ w'.strings = w.expected (.appendData 0 [98, 99]) := by
  have hempty (n : ℕ) : ((({} : BufferWorld).strings).lists n).length < 2 ^ 32 := Nat.two_pow_pos 32
  have hfst : ({} : BufferWorld).Legal (.appendChar 0 97) :=
    ⟨trivial, Strings.length_set_lt hempty (Nat.lt_of_le_of_lt (le_refl 1) (by decide))⟩
  have hdvd : 4 ∣ 2 ^ 32 := ⟨2 ^ 30, rfl⟩
  obtain ⟨w₁, hw₁⟩ : ∃ w, Run.exec (step { address := fun n ↦ 4096 * n, junk := fun _ _ ↦ 0 } 4 2)
      {} [.appendChar 0 97] = some w := ⟨_, rfl⟩
  have hlegal₁ : Run.Meets (step { address := fun n ↦ 4096 * n, junk := fun _ _ ↦ 0 } 4 2) Legal {}
      [.appendChar 0 97] := ⟨hfst, fun _ _ ↦ trivial⟩
  have hfits₁ := (valid_of_exec (by decide) hdvd hlegal₁ hw₁).2
  have hsnd : w₁.Legal (.copyOf 1 0) := ⟨trivial, Strings.length_set_lt hfits₁ (hfits₁ 0)⟩
  have hlegal₂ : Run.Meets (step { address := fun n ↦ 4096 * n, junk := fun _ _ ↦ 0 } 4 2) Legal w₁
      [.copyOf 1 0] := ⟨hsnd, fun _ _ ↦ trivial⟩
  have hlegal := Run.Meets.append hw₁ hlegal₁ hlegal₂
  obtain ⟨w, hw, hcontents, hexcess⟩ : ∃ w,
      Run.exec (step { address := fun n ↦ 4096 * n, junk := fun _ _ ↦ 0 } 4 2) {}
        ([.appendChar 0 97] ++ [.copyOf 1 0]) = some w ∧ w.strings.lists 0 = [97] ∧
        excess w.heap (w.lists 0) [98, 99] = 0 := ⟨_, rfl, rfl, rfl⟩
  have hfits := (valid_of_exec (by decide) hdvd hlegal hw).2
  have hthird : w.Legal (.appendData 0 [98, 99]) := by
    refine ⟨trivial, Strings.length_set_lt hfits ?_⟩
    rw [hcontents]
    exact Nat.lt_of_le_of_lt (le_refl 3) (by decide)
  have hmain := step_iff_room (by decide) hdvd hlegal hw
  exact ⟨w, hw, hmain.1, hthird, (hmain.2 _ hthird).mpr (Or.inl hexcess)⟩

/-- An `append` of 2³² - 1 bytes never returns. -/
theorem append_never_returns :
    ({} : BufferWorld).Legal (.appendData 0 (List.replicate (2 ^ 32 - 1) 0)) ∧
      ∀ alloc rounds, step alloc 4096 rounds {}
        (.appendData 0 (List.replicate (2 ^ 32 - 1) 0)) = none := by
  have hempty (n : ℕ) : ((({} : BufferWorld).strings).lists n).length < 2 ^ 32 := Nat.two_pow_pos 32
  have hlegal : ({} : BufferWorld).Legal (.appendData 0 (List.replicate (2 ^ 32 - 1) 0)) := by
    refine ⟨trivial, Strings.length_set_lt hempty ?_⟩
    rw [List.length_append, List.length_replicate]
    exact Nat.lt_of_le_of_lt (Nat.zero_add _).le (by decide)
  refine ⟨hlegal, fun alloc rounds ↦
    step_of_not_room (by decide) ⟨2 ^ 20, by decide⟩ hlegal fun hroom ↦ ?_⟩
  have hexcess : excess ({} : BufferWorld).heap (({} : BufferWorld).lists 0)
      (List.replicate (2 ^ 32 - 1) 0) = 2 ^ 32 - 1 := by
    rw [excess, List.length_replicate]
    rfl
  rw [Room, hexcess] at hroom
  omega

end BufferWorld

end AsyncMessenger
