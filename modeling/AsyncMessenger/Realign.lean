import AsyncMessenger.Slicing

/-!
# Aligning the segments of a list

`rebuild_aligned_size_and_memory` walks through the segments. It keeps a segment that lies at an
aligned address and has an aligned length. Otherwise it takes segments out until what it has taken
has an aligned length and the next segment could be kept, and puts one segment in their place: the
only one if it lies well, and otherwise a copy of their bytes at an aligned address.

## One round

A round of the outer loop either keeps the first segment or merges it with some of those behind.
`Merged` is all that is known of the second case: which segments are taken, that the new one holds
their bytes, where it lies, and why the inner loop has stopped. The bytes of a list, its alignment,
and what becomes of the elements of its `_buffers` are all read off it.

## What comes out

With an allocator that respects the alignment, every segment lies at an aligned address, and every
one but the last has an aligned length (`Aligned`); the bytes are the same (`Stands`). The alignment
is a power of two, since `is_aligned` masks the address.
-/

namespace AsyncMessenger

open Buffer

namespace Buffer.Ptr

/-- `is_aligned`. -/
def isAligned (h : Heap) (align : ℕ) (p : Ptr) : Bool :=
  p.address h &&& ((2 ^ 32 + align - 1) % 2 ^ 32) = 0

/-- `is_n_align_sized`. -/
def isNAlignSized (align : ℕ) (p : Ptr) : Bool := p.len % align = 0

end Buffer.Ptr

namespace BufferList

section

variable (size mem : ℕ)

/-- The inner loop, after its first round: the segments that it takes, and the others. `offset` is how
long those are that it has taken. -/
def gather (h : Heap) : ℕ → List Ptr → List Ptr × List Ptr
  | _, [] => ([], [])
  | offset, p :: ps =>
    if ¬p.isAligned h mem ∨ ¬p.isNAlignSized size ∨ offset % size ≠ 0 then
      let r := gather h (add32 offset p.len) ps
      (p :: r.1, r.2)
    else ([], p :: ps)

variable {size mem}

theorem gather_append (h : Heap) (offset : ℕ) (ps : List Ptr) :
    (gather size mem h offset ps).1 ++ (gather size mem h offset ps).2 = ps := by
  induction ps generalizing offset with
  | nil => rfl
  | cons p ps ih =>
    rw [gather]
    split_ifs
    · exact congrArg (p :: ·) (ih _)
    · rfl

theorem length_gather_le (h : Heap) (offset : ℕ) (ps : List Ptr) :
    (gather size mem h offset ps).2.length ≤ ps.length := by
  have happend : (gather size mem h offset ps).1 ++ (gather size mem h offset ps).2 = ps :=
    gather_append h offset ps
  have hlen := congrArg List.length happend
  rw [List.length_append] at hlen
  omega

variable (size mem) (alloc : Allocator)

/-- What is put in place of the segments that were taken out. -/
def consolidate (h : Heap) (unaligned : BufferList) : Option (Heap × Ptr) :=
  let front := unaligned.buffers.headD {}
  if unaligned.buffers.length = 1 ∧ front.isAligned h mem then some (h, front)
  else
    let x := h.create alloc unaligned.len
    (copyAll x.2 0 x.1 unaligned.buffers).map fun h ↦ (h, x.2)

/-- The outer loop. -/
def realign (h : Heap) : List Ptr → Option (Heap × List Ptr)
  | [] => some (h, [])
  | p :: ps =>
    if p.isAligned h mem ∧ p.isNAlignSized size then
      (realign h ps).map fun x ↦ (x.1, p :: x.2)
    else
      (consolidate mem alloc h ((p :: (gather size mem h p.len ps).1).foldl pushBack {})).bind fun x ↦
        (realign x.1 (gather size mem h p.len ps).2).map fun y ↦ (y.1, x.2 :: y.2)
termination_by ps => ps.length
decreasing_by
  · exact Nat.lt_succ_self _
  · exact Nat.lt_succ_of_le (length_gather_le h p.len ps)

/-- `rebuild_aligned_size_and_memory`. -/
def rebuildAligned (h : Heap) (l : BufferList) : Option (Heap × BufferList) :=
  (realign size mem alloc h l.buffers).map fun x ↦ (x.1, { l with buffers := x.2 })

end

/-- Every segment lies at an aligned address, and every one but the last has an aligned length. -/
def Aligned (size mem : ℕ) (h : Heap) (ps : List Ptr) : Prop :=
  (∀ p ∈ ps, mem ∣ p.address h) ∧ ∀ p ∈ ps.dropLast, size ∣ p.len

variable {size mem : ℕ} {alloc : Allocator} {h h' : Heap} {used : ℕ → ℕ} {l : BufferList} {p : Ptr}
  {ps : List Ptr}

/-! ## Addresses -/

theorem address_append (hp : p.In h used ∧ 0 < p.len) (more : Heap) :
    p.address (h ++ more) = p.address h := by
  obtain ⟨r, hr⟩ := Option.isSome_iff_exists.mp (raw_isSome hp)
  simp only [Ptr.address, hr, List.getElem?_append_left (hp.1.2 r hr).1]

theorem isAligned_iff {k : ℕ} (hmem : mem = 2 ^ k) (hk : k < 32) : p.isAligned h mem ↔ mem ∣ p.address h := by
  have hpos : 0 < 2 ^ k := Nat.two_pow_pos k
  have hlt : 2 ^ k < 2 ^ 32 := Nat.pow_lt_pow_right (by decide) hk
  have hmask : (2 ^ 32 + 2 ^ k - 1) % 2 ^ 32 = 2 ^ k - 1 := by omega
  rw [Ptr.isAligned, hmem, hmask, Nat.and_two_pow_sub_one_eq_mod, decide_eq_true_iff,
    Nat.dvd_iff_mod_eq_zero]

theorem isNAlignSized_iff : p.isNAlignSized size ↔ size ∣ p.len := by
  rw [Ptr.isNAlignSized, decide_eq_true_iff, Nat.dvd_iff_mod_eq_zero]

/-! ## The inner loop -/

/-- It stops at the end of the list, or at an aligned length. -/
theorem gather_stop {offset : ℕ} (hlt : offset + (ps.map Ptr.len).sum < 2 ^ 32) :
    (gather size mem h offset ps).2 = [] ∨
      size ∣ offset + ((gather size mem h offset ps).1.map Ptr.len).sum := by
  induction ps generalizing offset with
  | nil => exact .inl rfl
  | cons p ps ih =>
    rw [List.map_cons, List.sum_cons] at hlt
    rw [gather]
    by_cases hgo : ¬p.isAligned h mem ∨ ¬p.isNAlignSized size ∨ offset % size ≠ 0
    · rw [if_pos hgo]
      dsimp only
      rw [add32_of_lt (by omega), List.map_cons, List.sum_cons, ← Nat.add_assoc]
      exact ih (by omega)
    · rw [if_neg hgo]
      rw [not_or, not_or, not_not, not_not, not_not] at hgo
      exact .inr (Nat.dvd_of_mod_eq_zero hgo.2.2)

theorem foldl_pushBack_eq (hps : ∀ p ∈ ps, 0 < p.len) (hlt : l.len + (ps.map Ptr.len).sum < 2 ^ 32) :
    ps.foldl pushBack l =
      { l with buffers := l.buffers ++ ps, len := l.len + (ps.map Ptr.len).sum } := by
  induction ps generalizing l with
  | nil => simp
  | cons p ps ih =>
    have hp := hps p List.mem_cons_self
    rw [List.map_cons, List.sum_cons] at hlt
    have hpush : l.pushBack p = { l with buffers := l.buffers ++ [p], len := l.len + p.len } := by
      rw [pushBack, if_neg hp.ne', add32_of_lt (by omega)]
    rw [List.foldl_cons, hpush, ih (fun q hq ↦ hps q (List.mem_cons_of_mem p hq)) (by dsimp only; omega)]
    simp only [List.append_assoc, List.singleton_append, List.map_cons, List.sum_cons, Nat.add_assoc]

/-- The segment that is put in place of others holds their bytes. -/
theorem consolidate_spec (mem : ℕ) (alloc : Allocator) (hps : ∀ p ∈ ps, p.In h used ∧ 0 < p.len)
    (htidy : Tidy h used) (hlt : (ps.map Ptr.len).sum < 2 ^ 32) (hne : ps ≠ []) :
    ∃ h' q used', consolidate mem alloc h (ps.foldl pushBack {}) = some (h', q) ∧
      Grows none h used h' used' ∧ (∃ more, h' = h ++ more) ∧ q.In h' used' ∧
      q.len = (ps.map Ptr.len).sum ∧ q.bytes h' = ps.flatMap (Ptr.bytes h) ∧
      (q.isAligned h' mem ∨ ∃ r, q.address h' = alloc.address r) := by
  rw [foldl_pushBack_eq (fun p hp ↦ (hps p hp).2) (by rwa [Nat.zero_add]), consolidate]
  dsimp only
  rw [List.nil_append, Nat.zero_add]
  by_cases hsame : ps.length = 1 ∧ (ps.headD {}).isAligned h mem
  · obtain ⟨q, rfl⟩ := List.length_eq_one_iff.mp hsame.1
    refine ⟨h, q, used, if_pos hsame, .refl htidy, ⟨[], (List.append_nil h).symm⟩,
      (hps q List.mem_cons_self).1, ?_, ?_, .inl hsame.2⟩
    · rw [List.map_singleton, List.sum_singleton]
    · rw [List.flatMap_singleton]
  · obtain ⟨n, hn⟩ : ∃ n, (ps.map Ptr.len).sum = n := ⟨_, rfl⟩
    have hlength := length_flatMap_bytes hps htidy
    have hpos : 0 < n := by
      obtain ⟨p, qs, rfl⟩ := List.exists_cons_of_ne_nil hne
      have hp := (hps p List.mem_cons_self).2
      rw [List.map_cons, List.sum_cons] at hn
      omega
    have hself : ({ raw := some h.length, len := n } : Ptr).In
        (h ++ [{ data := alloc.address h.length, bytes := ps.flatMap (Ptr.bytes h) }])
        (Function.update used h.length n) := by
      refine ⟨fun hnone ↦ absurd hnone (by simp), fun r hr ↦ ?_⟩
      have heq : h.length = r := Option.some_inj.mp hr
      rw [← heq, Function.update_self, List.length_append, List.length_singleton]
      exact ⟨Nat.lt_succ_self _, (Nat.zero_add n).le⟩
    refine ⟨_, { raw := some h.length, len := n }, _, ?_,
      grows_append { data := alloc.address h.length, bytes := ps.flatMap (Ptr.bytes h) } htidy
        (hlength.trans hn).ge, ⟨_, rfl⟩, hself, hn.symm, ?_, .inr ⟨h.length, ?_⟩⟩
    · rw [if_neg hsame, hn, copyAll_create alloc hps htidy hn]
      rfl
    · simp only [Ptr.bytes, Heap.bytes_append_self, List.drop_zero]
      exact List.take_of_length_le (hlength.trans hn).le
    · simp [Ptr.address]

/-! ## The outer loop

The induction is on the number of segments that are left, which each round makes smaller. -/

theorem Aligned.cons {q : Ptr} {qs : List Ptr} (hq : mem ∣ q.address h) (hqs : Aligned size mem h qs)
    (hsize : qs = [] ∨ size ∣ q.len) : Aligned size mem h (q :: qs) := by
  constructor
  · intro p hp
    rcases List.mem_cons.mp hp with rfl | hp
    · exact hq
    · exact hqs.1 p hp
  · intro p hp
    cases qs with
    | nil => exact absurd hp List.not_mem_nil
    | cons q' qs =>
      rw [List.dropLast_cons_cons] at hp
      rcases List.mem_cons.mp hp with rfl | hp
      · exact hsize.resolve_left (List.cons_ne_nil _ _)
      · exact hqs.2 p hp

theorem Stands.append {own : Option ℕ} {h₁ h₂ : Heap} {used₁ used₂ : ℕ → ℕ} {ps₁ ps₂ qs₁ qs₂ : List Ptr}
    (hps : ∀ p ∈ ps₂, p.In h used) (hg₁ : Grows own h used h₁ used₁) (hg₂ : Grows own h₁ used₁ h₂ used₂)
    (hs₁ : Stands h ps₁ h₁ used₁ qs₁) (hs₂ : Stands h₁ ps₂ h₂ used₂ qs₂) :
    Stands h (ps₁ ++ ps₂) h₂ used₂ (qs₁ ++ qs₂) := by
  refine ⟨fun q hq ↦ ?_, ?_, ?_⟩
  · rcases List.mem_append.mp hq with hq | hq
    · exact ⟨(hs₁.segment q hq).1.grows hg₂, (hs₁.segment q hq).2⟩
    · exact hs₂.segment q hq
  · simp only [List.map_append, List.sum_append, hs₁.sum, hs₂.sum]
  · have hold : ps₂.flatMap (Ptr.bytes h₁) = ps₂.flatMap (Ptr.bytes h) := by
      rw [List.flatMap, List.flatMap]
      exact congrArg List.flatten (List.map_congr_left fun q hq ↦ (hps q hq).bytes_eq hg₁)
    have hnew : qs₁.flatMap (Ptr.bytes h₂) = qs₁.flatMap (Ptr.bytes h₁) := by
      rw [List.flatMap, List.flatMap]
      exact congrArg List.flatten (List.map_congr_left fun q hq ↦ (hs₁.segment q hq).1.bytes_eq hg₂)
    rw [List.flatMap_append, List.flatMap_append, hnew, hs₁.bytes, hs₂.bytes, hold]

/-- The first segment does not stay: it is merged with those of `us` into `q`, and `rest` is left to do. -/
structure Merged (size mem : ℕ) (alloc : Allocator) (h : Heap) (used : ℕ → ℕ) (p : Ptr) (ps us rest : List Ptr)
    (h₁ : Heap) (used₁ : ℕ → ℕ) (q : Ptr) : Prop where
  gathers : gather size mem h p.len ps = (us, rest)
  split : us ++ rest = ps
  merge : consolidate mem alloc h ((p :: us).foldl pushBack {}) = some (h₁, q)
  grows : Grows none h used h₁ used₁
  more : ∃ more, h₁ = h ++ more
  stands : Stands h (p :: us) h₁ used₁ [q]
  inside : ∀ x ∈ rest, x.In h used ∧ 0 < x.len
  address : q.isAligned h₁ mem ∨ ∃ r, q.address h₁ = alloc.address r
  stop : rest = [] ∨ size ∣ q.len

theorem exists_merged (size mem : ℕ) (alloc : Allocator) (hps : ∀ x ∈ p :: ps, x.In h used ∧ 0 < x.len)
    (htidy : Tidy h used) (hlt : ((p :: ps).map Ptr.len).sum < 2 ^ 32) :
    ∃ us rest h₁ used₁ q, Merged size mem alloc h used p ps us rest h₁ used₁ q := by
  rw [List.map_cons, List.sum_cons] at hlt
  obtain ⟨⟨us, rest⟩, hgather⟩ : ∃ r, gather size mem h p.len ps = r := ⟨_, rfl⟩
  have hsplit : us ++ rest = ps := by
    have happend : (gather size mem h p.len ps).1 ++ (gather size mem h p.len ps).2 = ps :=
      gather_append h p.len ps
    rwa [hgather] at happend
  have hstop : rest = [] ∨ size ∣ p.len + (us.map Ptr.len).sum := by
    have hstop : (gather size mem h p.len ps).2 = [] ∨
        size ∣ p.len + ((gather size mem h p.len ps).1.map Ptr.len).sum := gather_stop hlt
    rwa [hgather] at hstop
  have hsum := congrArg (fun qs ↦ (qs.map Ptr.len).sum) hsplit
  simp only [List.map_append, List.sum_append] at hsum
  have hus : ∀ x ∈ p :: us, x.In h used ∧ 0 < x.len := fun x hx ↦ hps x (by
    rw [← hsplit]
    exact List.mem_append_left rest hx)
  obtain ⟨h₁, q, used₁, hmerge, hg₁, hmore, hqin, hqlen, hqbytes, hqaddr⟩ :=
    consolidate_spec mem alloc hus htidy (by rw [List.map_cons, List.sum_cons]; omega)
      (List.cons_ne_nil p us)
  have hp := hps p List.mem_cons_self
  refine ⟨us, rest, h₁, used₁, q, hgather, hsplit, hmerge, hg₁, hmore, ⟨fun x hx ↦ ?_, ?_, ?_⟩,
    fun x hx ↦ hps x (List.mem_cons_of_mem p (hsplit ▸ List.mem_append_right us hx)), hqaddr, ?_⟩
  · rw [List.mem_singleton.mp hx, hqlen, List.map_cons, List.sum_cons]
    exact ⟨hqin, by omega⟩
  · rw [List.map_singleton, List.sum_singleton, hqlen]
  · rw [List.flatMap_singleton, hqbytes]
  · rwa [hqlen, List.map_cons, List.sum_cons]

namespace Merged

variable {us rest : List Ptr} {h₁ : Heap} {used₁ : ℕ → ℕ} {q : Ptr}

theorem realign_eq (hm : Merged size mem alloc h used p ps us rest h₁ used₁ q)
    (hkeep : ¬(p.isAligned h mem ∧ p.isNAlignSized size)) :
    realign size mem alloc h (p :: ps) = (realign size mem alloc h₁ rest).map fun y ↦ (y.1, q :: y.2) := by
  rw [realign, if_neg hkeep, hm.gathers]
  dsimp only
  rw [hm.merge, Option.bind_some]

/-- What is left to do is shorter, and still lies in its buffers. -/
theorem later (hm : Merged size mem alloc h used p ps us rest h₁ used₁ q)
    (hlt : ((p :: ps).map Ptr.len).sum < 2 ^ 32) :
    rest.length < (p :: ps).length ∧ (∀ x ∈ rest, x.In h₁ used₁ ∧ 0 < x.len) ∧ Tidy h₁ used₁ ∧
      (rest.map Ptr.len).sum < 2 ^ 32 := by
  have hlen := congrArg List.length hm.split
  have hsum := congrArg (fun qs ↦ (qs.map Ptr.len).sum) hm.split
  simp only [List.map_append, List.sum_append, List.length_append] at hlen hsum
  rw [List.map_cons, List.sum_cons] at hlt
  refine ⟨?_, fun x hx ↦ ⟨(hm.inside x hx).1.grows hm.grows, (hm.inside x hx).2⟩, hm.grows.tidy, by omega⟩
  rw [List.length_cons]
  omega

/-- The segment that takes the place of the others is aligned, if the allocator respects the alignment. -/
theorem dvd_address {k : ℕ} (hm : Merged size mem alloc h used p ps us rest h₁ used₁ q) (hmem : mem = 2 ^ k)
    (hk : k < 32) (halloc : ∀ r, mem ∣ alloc.address r) : mem ∣ q.address h₁ := by
  rcases hm.address with haddr | ⟨r, haddr⟩
  · exact (isAligned_iff hmem hk).mp haddr
  · rw [haddr]
    exact halloc r

end Merged

/-- The loops end, and the segments that are left hold the same bytes. With an allocator that respects the
alignment they are aligned. -/
theorem realign_spec (size mem : ℕ) (alloc : Allocator) (hps : ∀ p ∈ ps, p.In h used ∧ 0 < p.len)
    (htidy : Tidy h used) (hlt : (ps.map Ptr.len).sum < 2 ^ 32) :
    ∃ h' ps' used', realign size mem alloc h ps = some (h', ps') ∧ Grows none h used h' used' ∧
      (∃ more, h' = h ++ more) ∧ Stands h ps h' used' ps' ∧
      ∀ k < 32, mem = 2 ^ k → (∀ r, mem ∣ alloc.address r) → Aligned size mem h' ps' := by
  induction hn : ps.length using Nat.strong_induction_on generalizing ps h used with
  | h n ih =>
    cases ps with
    | nil =>
      exact ⟨h, [], used, by rw [realign], .refl htidy, ⟨[], (List.append_nil h).symm⟩,
        ⟨fun _ hp ↦ absurd hp List.not_mem_nil, rfl, rfl⟩,
        fun _ _ _ _ ↦ ⟨fun _ hp ↦ absurd hp List.not_mem_nil, fun _ hp ↦ absurd hp List.not_mem_nil⟩⟩
    | cons p ps =>
      by_cases hkeep : p.isAligned h mem ∧ p.isNAlignSized size
      · have hps' : ∀ q ∈ ps, q.In h used ∧ 0 < q.len := fun q hq ↦ hps q (List.mem_cons_of_mem p hq)
        rw [List.map_cons, List.sum_cons] at hlt
        rw [List.length_cons] at hn
        obtain ⟨h', ps', used', hrun, hg, ⟨more, hmore⟩, hstands, haligned⟩ :=
          ih ps.length (by omega) hps' htidy (by omega) rfl
        have hself : Stands h [p] h used [p] :=
          ⟨fun q hq ↦ hps q (List.mem_singleton.mp hq ▸ List.mem_cons_self), rfl, rfl⟩
        refine ⟨h', p :: ps', used', ?_, hg, ⟨more, hmore⟩,
          .append (fun q hq ↦ (hps' q hq).1) (.refl htidy) hg hself hstands,
          fun k hk hmem hr ↦ .cons ?_ (haligned k hk hmem hr) (.inr (isNAlignSized_iff.mp hkeep.2))⟩
        · rw [realign, if_pos hkeep, hrun]
          rfl
        · rw [hmore, address_append (hps p List.mem_cons_self)]
          exact (isAligned_iff hmem hk).mp hkeep.1
      · obtain ⟨us, rest, h₁, used₁, q, hm⟩ := exists_merged size mem alloc hps htidy hlt
        obtain ⟨hshort, hrest, htidy₁, hlt₁⟩ := hm.later hlt
        obtain ⟨h', ps', used', hrun, hg, ⟨more, hmore⟩, hstands, haligned⟩ :=
          ih rest.length (hn ▸ hshort) hrest htidy₁ hlt₁ rfl
        obtain ⟨more₁, hmore₁⟩ := hm.more
        refine ⟨h', q :: ps', used', ?_, hm.grows.trans hg fun _ _ heq ↦ heq,
          ⟨more₁ ++ more, by rw [hmore, hmore₁, List.append_assoc]⟩, ?_, fun k hk hmem hr ↦
            .cons ?_ (haligned k hk hmem hr) ?_⟩
        · rw [hm.realign_eq hkeep, hrun]
          rfl
        · have hall := hm.stands.append (fun x hx ↦ (hm.inside x hx).1) hm.grows hg hstands
          rwa [List.cons_append, hm.split] at hall
        · rw [hmore, address_append (hm.stands.segment q List.mem_cons_self)]
          exact hm.dvd_address hmem hk hr
        · refine hm.stop.imp_left fun hnil ↦ ?_
          rw [hnil, realign, Option.some_inj, Prod.mk.injEq] at hrun
          exact hrun.2.symm

theorem In.extent {used : ℕ → ℕ} (hp : p.In h used) (htidy : Tidy h used) : p.In h h.extent :=
  ⟨hp.1, fun r hr ↦ ⟨(hp.2 r hr).1, (hp.2 r hr).2.trans (htidy r (hp.2 r hr).1)⟩⟩

/-- **`rebuild_aligned_size_and_memory`** keeps the bytes and aligns every segment. -/
theorem rebuildAligned_aligned (alloc : Allocator) (hl : l.Proper h) (hmem : ∃ k < 32, mem = 2 ^ k)
    (_hsize : 0 < size) (halloc : ∀ r, mem ∣ alloc.address r) :
    ∃ h' l', rebuildAligned size mem alloc h l = some (h', l') ∧ l'.Proper h' ∧
      l'.contents h' = l.contents h ∧ l'.len = l.len ∧ Aligned size mem h' l'.buffers := by
  obtain ⟨k, hk, hpow⟩ := hmem
  obtain ⟨h', ps, used', hrun, hg, -, hstands, haligned⟩ :=
    realign_spec size mem alloc hl.segment (tidy_extent h) hl.sum_lt
  refine ⟨h', { l with buffers := ps }, by rw [rebuildAligned, hrun]; rfl, ⟨fun p hp ↦ ?_, ?_, hl.lt⟩,
    hstands.bytes, rfl, haligned k hk hpow halloc⟩
  · exact ⟨In.extent (hstands.segment p hp).1 hg.tidy, (hstands.segment p hp).2⟩
  · rw [hstands.sum]
    exact hl.len

/-- The second of two segments does not lie at a multiple of eight. -/
theorem rebuildAligned_twoSegments :
    ∃ h' l', rebuildAligned 2 8 ⟨fun r ↦ 4096 * r, fun _ _ ↦ 0⟩ BufferWorld.twoSegments.heap
        (BufferWorld.twoSegments.lists 1) = some (h', l') ∧ l'.Proper h' ∧
      l'.contents h' = [1, 2, 3, 4, 5] ∧ l'.len = 5 ∧ Aligned 2 8 h' l'.buffers :=
  rebuildAligned_aligned _ (BufferWorld.proper_twoSegments 1) ⟨3, by decide, rfl⟩ (by decide)
    fun r ↦ (show 8 ∣ 4096 by decide).mul_right r

end BufferList

end AsyncMessenger
