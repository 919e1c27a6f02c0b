import AsyncMessenger.BufferArea

/-!
# Sharing, claiming and rebuilding

The operations that hand segments from list to list, and `rebuild`. Segments in a raw buffer that
must not be shared are cloned on the way; `rebuild` copies everything into one new raw buffer. None
of them touches an `append_buffer`.

What such an operation does is one statement, `Stands`: the segments of the one list hold the bytes
of those of the other. It goes through a clone (`makeShareable_spec`), through a list that is put
behind or before another one, and through the copying loop of `rebuild`, so that the theorem about
an operation says only which segments it takes and where it puts them.
-/

namespace AsyncMessenger

open Buffer

namespace Buffer

variable {h h' : Heap} {used used' : ℕ → ℕ} {own : Option ℕ}

theorem Heap.write_append_self (h : Heap) (raw : Raw) (o : ℕ) (src : Bytes) :
    Heap.write (h ++ [raw]) h.length o src =
      h ++ [{ raw with bytes := raw.bytes.take o ++ (src ++ raw.bytes.drop (o + src.length)) }] := by
  rw [Heap.write, List.modify_eq_take_cons_drop (by simp)]
  simp

/-- **`make_shareable`** leaves the bytes of a pointer as they are. -/
theorem Ptr.makeShareable_spec (alloc : Allocator) {p : Ptr} (hp : p.In h used) (htidy : Tidy h used) :
    ∃ used', Grows none h used (p.makeShareable alloc h).1 used' ∧
      (p.makeShareable alloc h).2.In (p.makeShareable alloc h).1 used' ∧
      (p.makeShareable alloc h).2.len = p.len ∧
      (p.makeShareable alloc h).2.bytes (p.makeShareable alloc h).1 = p.bytes h := by
  have hsame : ∃ used', Grows none h used h used' ∧ p.In h used' ∧ p.len = p.len ∧
      p.bytes h = p.bytes h := ⟨used, .refl htidy, hp, rfl, rfl⟩
  cases hr : p.raw with
  | none =>
    rw [show p.makeShareable alloc h = (h, p) by rw [Ptr.makeShareable, hr]]
    exact hsame
  | some r =>
    obtain ⟨hlt, hstop⟩ := hp.2 r hr
    have hget : h[r]? = some h[r] := List.getElem?_eq_getElem hlt
    rw [Ptr.makeShareable, hr]
    dsimp only
    rw [hget]
    dsimp only
    split_ifs
    · exact hsame
    -- the clone is in use as a whole
    have hbytes : h.bytes r = h[r].bytes := by rw [Heap.bytes, hget]; rfl
    have hused := htidy r hlt
    rw [hbytes] at hused
    refine ⟨_, grows_append _ htidy (le_refl _), ⟨fun hnone ↦ absurd hnone (by simp), fun r' hr' ↦ ?_⟩,
      rfl, ?_⟩
    · have heq : h.length = r' := Option.some_inj.mp hr'
      rw [← heq, Function.update_self, List.length_append, List.length_singleton]
      exact ⟨Nat.lt_succ_self _, hstop.trans hused⟩
    · simp only [Ptr.bytes, hr, hbytes, Heap.bytes_append_self]

end Buffer

namespace BufferList

variable {h h' : Heap} {used used' : ℕ → ℕ} {own : Option ℕ} {l o : BufferList} {alloc : Allocator}

/-- These segments hold the bytes of those, and each refers to bytes in use. -/
structure Stands (h : Heap) (ps : List Ptr) (h' : Heap) (used' : ℕ → ℕ) (ps' : List Ptr) : Prop where
  segment : ∀ p ∈ ps', p.In h' used' ∧ 0 < p.len
  sum : (ps'.map Ptr.len).sum = (ps.map Ptr.len).sum
  bytes : ps'.flatMap (Ptr.bytes h') = ps.flatMap (Ptr.bytes h)

theorem Good.stands (ho : o.Good h used) (hg : Grows own h used h' used') :
    Stands h o.buffers h' used' o.buffers :=
  ⟨fun p hp ↦ ⟨(ho.segment p hp).1.grows hg, (ho.segment p hp).2⟩, rfl, ho.contents_eq hg⟩

theorem makeShareable_spec (alloc : Allocator) {ps : List Ptr} (hps : ∀ p ∈ ps, p.In h used ∧ 0 < p.len)
    (htidy : Tidy h used) :
    ∃ used', Grows none h used (makeShareable alloc h ps).1 used' ∧
      Stands h ps (makeShareable alloc h ps).1 used' (makeShareable alloc h ps).2 := by
  induction ps generalizing h used with
  | nil => exact ⟨used, .refl htidy, fun _ hp ↦ absurd hp List.not_mem_nil, rfl, rfl⟩
  | cons p ps ih =>
    obtain ⟨hp, hpos⟩ := hps p List.mem_cons_self
    obtain ⟨used₁, hg₁, hin, hlen, hbytes⟩ := Ptr.makeShareable_spec alloc hp htidy
    have hrest : ∀ q ∈ ps, q.In (p.makeShareable alloc h).1 used₁ ∧ 0 < q.len := fun q hq ↦
      ⟨(hps q (List.mem_cons_of_mem p hq)).1.grows hg₁, (hps q (List.mem_cons_of_mem p hq)).2⟩
    obtain ⟨used₂, hg₂, hstands⟩ := ih hrest hg₁.tidy
    refine ⟨used₂, hg₁.trans hg₂ fun _ _ heq ↦ heq, fun q hq ↦ ?_, ?_, ?_⟩
    · rcases List.mem_cons.mp hq with rfl | hq
      · exact ⟨hin.grows hg₂, hlen ▸ hpos⟩
      · exact hstands.segment q hq
    · simp only [makeShareable, List.map_cons, List.sum_cons, hlen, hstands.sum]
    · have hframe : ps.flatMap (Ptr.bytes (p.makeShareable alloc h).1) = ps.flatMap (Ptr.bytes h) := by
        rw [List.flatMap, List.flatMap]
        exact congrArg List.flatten (List.map_congr_left fun q hq ↦
          (hps q (List.mem_cons_of_mem p hq)).1.bytes_eq hg₁)
      have hhead := (hin.bytes_eq hg₂).trans hbytes
      have htail := hstands.bytes.trans hframe
      simp only [makeShareable, List.flatMap_cons]
      rw [hhead, htail]

/-- The buffers that a list gives away. -/
theorem Good.giveAway (ho : o.Good h used) (alloc : Allocator) (htidy : Tidy h used) (allowNonshareable : Bool) :
    ∃ used', Grows none h used (giveAway alloc h o allowNonshareable).1 used' ∧
      Stands h o.buffers (giveAway alloc h o allowNonshareable).1 used'
        (giveAway alloc h o allowNonshareable).2 := by
  cases allowNonshareable with
  | true =>
    have hg : Grows none h used h used := .refl htidy
    exact ⟨used, hg, ho.stands hg⟩
  | false => exact makeShareable_spec alloc ho.segment htidy

/-- A list whose segments hold the bytes of another one's. -/
theorem Stands.becomes {ps : List Ptr} {l' : BufferList} (hstands : Stands h o.buffers h' used' ps)
    (ho : o.Good h used) (hg : Grows none h used h' used') (hbuffers : l'.buffers = ps)
    (hlen : l'.len = o.len) (htail : l'.appendBuffer.Tail h' used')
    (hown : ∀ r < h.length, l'.appendBuffer.raw = some r → l.appendBuffer.raw = some r) :
    Becomes h used l h' l' (o.contents h) := by
  refine ⟨used', hg.weaken, ⟨fun p hp ↦ hstands.segment p (hbuffers ▸ hp), htail, ?_⟩, ?_, hown⟩
  · rw [hlen, hbuffers, hstands.sum, ho.len]
  · rw [contents, hbuffers, hstands.bytes]
    rfl

theorem Good.tail_grows (hl : l.Good h used) (hg : Grows none h used h' used') :
    l.appendBuffer.Tail h' used' :=
  (hl.grows hg fun _ _ _ ↦ by simp).tail

/-- **`list(other)`**. -/
theorem copyOf_becomes (ho : o.Good h used) (htidy : Tidy h used) :
    Becomes h used l (copyOf alloc h o).1 (copyOf alloc h o).2 (o.contents h) := by
  obtain ⟨used', hg, hstands⟩ := makeShareable_spec alloc ho.segment htidy
  exact hstands.becomes ho hg rfl rfl ⟨rfl, fun r hr ↦ absurd hr (by simp [copyOf])⟩
    fun r _ hr ↦ absurd hr (by simp [copyOf])

/-- **`operator=`**. -/
theorem assign_becomes (hl : l.Good h used) (ho : o.Good h used) (htidy : Tidy h used) :
    Becomes h used l (assign alloc h l o).1 (assign alloc h l o).2 (o.contents h) := by
  obtain ⟨used', hg, hstands⟩ := makeShareable_spec alloc ho.segment htidy
  exact hstands.becomes ho hg rfl rfl (hl.tail_grows hg) fun r _ hr ↦ hr

/-- **`claim_append`**. -/
theorem claimAppend_becomes (hl : l.Good h used) (ho : o.Good h used) (htidy : Tidy h used)
    (allowNonshareable : Bool) :
    Becomes h used l (claimAppend alloc h l o allowNonshareable).1
      (claimAppend alloc h l o allowNonshareable).2.1 (l.contents h ++ o.contents h) := by
  obtain ⟨used', hg, hstands⟩ := ho.giveAway alloc htidy allowNonshareable
  have hsame := hl.stands hg
  refine ⟨used', hg.weaken, ⟨fun p hp ↦ ?_, hl.tail_grows hg, ?_⟩, ?_, fun r _ hr ↦ hr⟩
  · exact (List.mem_append.mp hp).elim (hsame.segment p) (hstands.segment p)
  · simp [claimAppend, add32, hl.len, ho.len, hstands.sum]
  · simp only [contents, claimAppend, List.flatMap_append]
    rw [hsame.bytes, hstands.bytes]

/-- **`claim_prepend`**. -/
theorem claimPrepend_becomes (hl : l.Good h used) (ho : o.Good h used) (htidy : Tidy h used)
    (allowNonshareable : Bool) :
    Becomes h used l (claimPrepend alloc h l o allowNonshareable).1
      (claimPrepend alloc h l o allowNonshareable).2.1 (o.contents h ++ l.contents h) := by
  obtain ⟨used', hg, hstands⟩ := ho.giveAway alloc htidy allowNonshareable
  have hsame := hl.stands hg
  refine ⟨used', hg.weaken, ⟨fun p hp ↦ ?_, hl.tail_grows hg, ?_⟩, ?_, fun r _ hr ↦ hr⟩
  · exact (List.mem_append.mp hp).elim (hstands.segment p) (hsame.segment p)
  · simp [claimPrepend, add32, hl.len, ho.len, hstands.sum, Nat.add_comm]
  · simp only [contents, claimPrepend, List.flatMap_append]
    rw [hsame.bytes, hstands.bytes]

/-- **`claim`**. -/
theorem claim_becomes (hl : l.Good h used) (ho : o.Good h used) (htidy : Tidy h used)
    (allowNonshareable : Bool) :
    Becomes h used l (claim alloc h l o allowNonshareable).1
      (claim alloc h l o allowNonshareable).2.1 (o.contents h) :=
  claimAppend_becomes hl.clear ho htidy allowNonshareable

theorem Good.foldl_pushBack {ps : List Ptr} (hl : l.Good h used)
    (hps : ∀ p ∈ ps, p.In h used ∧ 0 < p.len) (htidy : Tidy h used) :
    (ps.foldl BufferList.pushBack l).Good h used ∧
      (ps.foldl BufferList.pushBack l).contents h = l.contents h ++ ps.flatMap (Ptr.bytes h) ∧
      (ps.foldl BufferList.pushBack l).appendBuffer = l.appendBuffer := by
  induction ps generalizing l with
  | nil => exact ⟨hl, by simp, rfl⟩
  | cons p ps ih =>
    obtain ⟨hgood, hcontents, hsame⟩ := hl.pushBack (hps p List.mem_cons_self).1 htidy
    obtain ⟨hgood', hcontents', hsame'⟩ := ih hgood fun q hq ↦ hps q (List.mem_cons_of_mem p hq)
    refine ⟨hgood', ?_, hsame'.trans hsame⟩
    rw [List.foldl_cons, hcontents', hcontents, List.flatMap_cons, List.append_assoc]

/-- **`share`**. -/
theorem share_becomes (hl : l.Good h used) (ho : o.Good h used) (htidy : Tidy h used) :
    Becomes h used l h (share l o) (o.contents h) := by
  obtain ⟨hgood, hcontents, hsame⟩ := hl.clear.foldl_pushBack ho.segment htidy
  have hbecomes := hgood.becomes (l := l) htidy hsame
  rwa [hcontents] at hbecomes

/-- The loop of `rebuild` fills the new raw buffer from the front. -/
theorem copyAll_append {ps : List Ptr} (raw : Raw) (before rest : Bytes) {n : ℕ}
    (hps : ∀ p ∈ ps, p.In h used ∧ 0 < p.len) (htidy : Tidy h used)
    (hrest : rest.length = (ps.map Ptr.len).sum) (hn : before.length + rest.length = n)
    (hraw : raw.bytes = before ++ rest) :
    copyAll { raw := some h.length, len := n } before.length (h ++ [raw]) ps =
      some (h ++ [{ raw with bytes := before ++ ps.flatMap (Ptr.bytes h) }]) := by
  induction ps generalizing raw before rest with
  | nil =>
    have hnil : rest = [] := List.eq_nil_of_length_eq_zero hrest
    rw [copyAll, List.flatMap_nil, ← hnil, ← hraw]
  | cons p ps ih =>
    obtain ⟨hp, -⟩ := hps p List.mem_cons_self
    rw [List.map_cons, List.sum_cons] at hrest
    have hlen : (p.bytes h).length = p.len := hp.length_bytes htidy
    have hbytes : p.bytes (h ++ [raw]) = p.bytes h :=
      hp.bytes_eq (grows_append _ htidy (Nat.zero_le _))
    have hwrite : Ptr.copyIn (h ++ [raw]) { raw := some h.length, len := n } before.length (p.bytes h) =
        some (h ++ [{ raw with bytes := before ++ p.bytes h ++ rest.drop p.len }]) := by
      simp only [Ptr.copyIn]
      rw [if_pos (by rw [hlen]; omega), Nat.zero_add, Heap.write_append_self, hraw, hlen,
        List.take_left, List.drop_append, ← List.append_assoc, List.append_assoc before]
      simp
    rw [copyAll, hbytes, hwrite, Option.bind_some, ← hlen, ← List.length_append]
    rw [ih _ _ (rest.drop p.len) (fun q hq ↦ hps q (List.mem_cons_of_mem p hq))
      (by rw [List.length_drop]; omega)
      (by rw [List.length_append, List.length_drop, hlen]; omega) (by rw [hlen])]
    simp only [List.flatMap_cons, List.append_assoc]

/-- A new raw buffer that is as long as all of the segments holds their bytes after the loop. -/
theorem copyAll_create {ps : List Ptr} (alloc : Allocator) (hps : ∀ p ∈ ps, p.In h used ∧ 0 < p.len)
    (htidy : Tidy h used) {n : ℕ} (hn : (ps.map Ptr.len).sum = n) :
    copyAll (h.create alloc n).2 0 (h.create alloc n).1 ps =
      some (h ++ [{ data := alloc.address h.length, bytes := ps.flatMap (Ptr.bytes h) }]) :=
  copyAll_append { data := alloc.address h.length, bytes := (List.range n).map (alloc.junk h.length) } []
    ((List.range n).map (alloc.junk h.length)) hps htidy (by simp [hn]) (by simp) rfl

/-- What `rebuild` makes of a list that is not empty. -/
theorem rebuild_eq (hps : ∀ p ∈ l.buffers, p.In h used ∧ 0 < p.len) (htidy : Tidy h used)
    (hlen : (l.buffers.map Ptr.len).sum = l.len) (hne : l.len ≠ 0) :
    rebuild alloc h l = some (h ++ [{ data := alloc.address h.length, bytes := l.contents h }],
      { l with buffers := [{ raw := some h.length, len := l.len }] }) := by
  have hnew : ¬(h.create alloc l.len).2.len = 0 := hne
  rw [rebuild, if_neg hne]
  dsimp only
  rw [copyAll_create alloc hps htidy hlen, Option.map_some, if_neg hnew]
  rfl

/-- **`rebuild`**. -/
theorem rebuild_becomes (hl : l.Good h used) (htidy : Tidy h used)
    (hfits : (l.contents h).length < 2 ^ 32) :
    ∃ h' l', rebuild alloc h l = some (h', l') ∧ Becomes h used l h' l' (l.contents h) := by
  have hlength := hl.length_contents htidy
  have hlen : l.len = (l.contents h).length := by
    rw [hl.len, ← hlength, Nat.mod_eq_of_lt hfits]
  by_cases hzero : l.len = 0
  · -- an empty list has no segments, so dropping them changes nothing
    have hnil : l.contents h = [] := List.eq_nil_of_length_eq_zero (hlen.symm.trans hzero)
    refine ⟨h, { l with buffers := [] }, if_pos hzero, used, .refl htidy,
      ⟨fun _ hp ↦ absurd hp List.not_mem_nil, hl.tail, ?_⟩, ?_, fun r _ hr ↦ hr⟩
    · exact hzero
    · rw [hnil]
      rfl
  · have hg := grows_append
      { data := alloc.address h.length, bytes := l.contents h } htidy (le_refl _)
    refine ⟨_, _, rebuild_eq hl.segment htidy (hlength.symm.trans hlen.symm) hzero, _, hg.weaken,
      ⟨fun p hp ↦ ?_, hl.tail_grows hg, ?_⟩, ?_, fun r _ hr ↦ hr⟩
    · rw [List.mem_singleton.mp hp]
      refine ⟨⟨fun hnone ↦ absurd hnone (by simp), fun r hr ↦ ?_⟩, Nat.pos_of_ne_zero hzero⟩
      have heq : h.length = r := Option.some_inj.mp hr
      rw [← heq, Function.update_self, List.length_append, List.length_singleton]
      exact ⟨Nat.lt_succ_self _, by rw [Ptr.stop, Nat.zero_add, hlen]⟩
    · rw [List.map_singleton, List.sum_singleton, hlen, Nat.mod_eq_of_lt hfits]
    · simp only [contents, List.flatMap_cons, List.flatMap_nil, List.append_nil, Ptr.bytes,
        Heap.bytes_append_self, List.drop_zero]
      exact List.take_of_length_le hlen.ge

end BufferList

end AsyncMessenger
