import AsyncMessenger.Buffers

/-!
# Who may write where

A raw buffer has a part that is in use, which segments refer to and nobody writes any more, and, if
it is some list's `append_buffer`, a part behind it that only this list writes. `used` says for
every raw buffer how long the first part is. An operation of a list may move the boundary of its own
`append_buffer`, and may add raw buffers; it leaves alone what was in use.

This is the frame rule of the buffer lists: what a pointer in use refers to does not change
(`In.bytes_eq`), so that the strings of all lists but one stay as they are whatever the one does.
For the one list it is enough to say what it becomes (`Becomes`), and such statements compose.
-/

namespace AsyncMessenger

namespace Buffer

/-! ## The heap -/

namespace Heap

theorem bytes_append_left {h : Heap} {r : ℕ} (hr : r < h.length) (h' : Heap) :
    bytes (h ++ h') r = h.bytes r := by
  rw [bytes, bytes, List.getElem?_append_left hr]

theorem bytes_append_self (h : Heap) (raw : Raw) : bytes (h ++ [raw]) h.length = raw.bytes := by
  simp [bytes]

theorem length_write (h : Heap) (r o : ℕ) (src : Bytes) : (h.write r o src).length = h.length :=
  List.length_modify ..

theorem bytes_write_of_ne {h : Heap} {r r' : ℕ} (hne : r' ≠ r) (o : ℕ) (src : Bytes) :
    (h.write r o src).bytes r' = h.bytes r' := by
  simp only [bytes, write, List.getElem?_modify, if_neg (Ne.symm hne)]
  cases h[r']? <;> rfl

theorem bytes_write_self {h : Heap} {r : ℕ} (hr : r < h.length) (o : ℕ) (src : Bytes) :
    (h.write r o src).bytes r =
      (h.bytes r).take o ++ (src ++ (h.bytes r).drop (o + src.length)) := by
  simp only [bytes, write, List.getElem?_modify, if_true, List.getElem?_eq_getElem hr]
  rfl

theorem length_bytes_write {h : Heap} {r r' o : ℕ} {src : Bytes} (hr : r < h.length)
    (hfits : o + src.length ≤ (h.bytes r).length) :
    ((h.write r o src).bytes r').length = (h.bytes r').length := by
  by_cases heq : r' = r
  · rw [heq, bytes_write_self hr]
    simp only [List.length_append, List.length_take, List.length_drop]
    omega
  · rw [bytes_write_of_ne heq]

end Heap

/-! ## Areas

`Grows` relates two heaps, of which the second may have more raw buffers and other bytes behind what
is in use. It is reflexive and transitive. -/

variable {h h' h'' : Heap} {used used' used'' : ℕ → ℕ} {own own' : Option ℕ}

/-- The pointer refers to bytes in use. -/
def Ptr.In (h : Heap) (used : ℕ → ℕ) (p : Ptr) : Prop :=
  (p.raw = none → p.len = 0) ∧ ∀ r, p.raw = some r → r < h.length ∧ p.stop ≤ used r

/-- The pointer is an `append_buffer`: it ends where the part in use ends. -/
def Ptr.Tail (h : Heap) (used : ℕ → ℕ) (t : Ptr) : Prop :=
  t.off = 0 ∧ ∀ r, t.raw = some r → r < h.length ∧ t.len = used r

/-- No more is in use than there is. -/
def Tidy (h : Heap) (used : ℕ → ℕ) : Prop := ∀ r < h.length, used r ≤ (h.bytes r).length

/-- The heap changes, but only behind what is in use, and only the boundary in the raw buffer `own`
moves. -/
structure Grows (own : Option ℕ) (h : Heap) (used : ℕ → ℕ) (h' : Heap) (used' : ℕ → ℕ) : Prop where
  length_le : h.length ≤ h'.length
  kept : ∀ r < h.length, (h'.bytes r).take (used r) = (h.bytes r).take (used r)
  used_le : ∀ r < h.length, used r ≤ used' r
  used_eq : ∀ r < h.length, own ≠ some r → used' r = used r
  tidy : Tidy h' used'

theorem Grows.refl (htidy : Tidy h used) : Grows own h used h used :=
  ⟨le_rfl, fun _ _ ↦ rfl, fun _ _ ↦ le_rfl, fun _ _ _ ↦ rfl, htidy⟩

theorem Grows.trans (hg : Grows own h used h' used') (hg' : Grows own' h' used' h'' used'')
    (hown : ∀ r < h.length, own' = some r → own = some r) : Grows own h used h'' used'' := by
  have hlt {r : ℕ} (hr : r < h.length) : r < h'.length := hr.trans_le hg.length_le
  refine ⟨hg.length_le.trans hg'.length_le, fun r hr ↦ ?_, fun r hr ↦ ?_, fun r hr hne ↦ ?_, hg'.tidy⟩
  · have htake := congrArg (List.take (used r)) (hg'.kept r (hlt hr))
    rw [List.take_take, List.take_take, Nat.min_eq_left (hg.used_le r hr)] at htake
    rw [htake, hg.kept r hr]
  · exact (hg.used_le r hr).trans (hg'.used_le r (hlt hr))
  · rw [hg'.used_eq r (hlt hr) fun heq ↦ hne (hown r hr heq), hg.used_eq r hr hne]

/-- What may change without a boundary moving may change with one. -/
theorem Grows.weaken (hg : Grows none h used h' used') : Grows own h used h' used' :=
  ⟨hg.length_le, hg.kept, hg.used_le, fun r hr _ ↦ hg.used_eq r hr (by simp), hg.tidy⟩

namespace Ptr

variable {p : Ptr}

theorem In.grows (hp : p.In h used) (hg : Grows own h used h' used') : p.In h' used' :=
  ⟨hp.1, fun r hr ↦ ⟨(hp.2 r hr).1.trans_le hg.length_le,
    (hp.2 r hr).2.trans (hg.used_le r (hp.2 r hr).1)⟩⟩

/-- The bytes of a pointer are in the part in use. -/
theorem bytes_eq_take {r : ℕ} (hr : p.raw = some r) (hp : p.In h used) :
    p.bytes h = (((h.bytes r).take (used r)).drop p.off).take p.len := by
  have hstop := (hp.2 r hr).2
  rw [stop] at hstop
  rw [bytes, hr, List.drop_take, List.take_take, Nat.min_eq_left (by omega)]

/-- **The frame rule**: what a pointer refers to does not change. -/
theorem In.bytes_eq (hp : p.In h used) (hg : Grows own h used h' used') : p.bytes h' = p.bytes h := by
  cases hr : p.raw with
  | none => simp only [bytes, hr]
  | some r =>
    have hp' : p.In h' used := ⟨hp.1, fun r hr ↦ ⟨(hp.2 r hr).1.trans_le hg.length_le, (hp.2 r hr).2⟩⟩
    rw [bytes_eq_take hr hp', bytes_eq_take hr hp, hg.kept r (hp.2 r hr).1]

theorem In.length_bytes (hp : p.In h used) (htidy : Tidy h used) : (p.bytes h).length = p.len := by
  cases hr : p.raw with
  | none => simp only [bytes, hr, hp.1 hr, List.length_nil]
  | some r =>
    obtain ⟨hlt, hstop⟩ := hp.2 r hr
    have hused := htidy r hlt
    rw [stop] at hstop
    simp only [bytes, hr, List.length_take, List.length_drop]
    omega

theorem sub_isSome {o l : ℕ} (hraw : p.raw.isSome) (hle : o + l ≤ p.len) : ∃ q, p.sub o l = some q :=
  ⟨_, if_pos ⟨(Nat.mod_le ..).trans hle, hraw⟩⟩

/-- A part of a pointer. -/
theorem In.sub {q : Ptr} {o l : ℕ} (hp : p.In h used) (hle : o + l ≤ p.len) (hq : p.sub o l = some q) :
    q.In h used ∧ q.len = l ∧ q.bytes h = ((p.bytes h).drop o).take l := by
  rw [Ptr.sub, Option.ite_none_right_eq_some, Option.some_inj] at hq
  obtain ⟨⟨-, hraw⟩, rfl⟩ := hq
  refine ⟨⟨fun hnone ↦ ?_, fun r hr ↦ ?_⟩, rfl, ?_⟩
  · have hnone' : p.raw = none := hnone
    rw [hnone'] at hraw
    exact absurd hraw Bool.false_ne_true
  · obtain ⟨hlt, hstop⟩ := hp.2 r hr
    refine ⟨hlt, le_trans ?_ hstop⟩
    simp only [stop]
    omega
  · cases hr : p.raw with
    | none => simp [bytes, hr]
    | some r =>
      simp only [bytes, hr]
      rw [List.drop_take, List.take_take, List.drop_drop, Nat.min_eq_left (by omega)]

end Ptr

/-! ## Allocation -/

/-- A raw buffer is added, with so much of it in use. -/
theorem grows_append (raw : Raw) (htidy : Tidy h used) {n : ℕ}
    (hn : n ≤ raw.bytes.length) :
    Grows none h used (h ++ [raw]) (Function.update used h.length n) := by
  have hne {r : ℕ} (hr : r < h.length) : r ≠ h.length := Nat.ne_of_lt hr
  refine ⟨by simp, fun r hr ↦ ?_, fun r hr ↦ ?_, fun r hr _ ↦ ?_, fun r hr ↦ ?_⟩
  · rw [Heap.bytes_append_left hr]
  · rw [Function.update_of_ne (hne hr)]
  · rw [Function.update_of_ne (hne hr)]
  · rcases Nat.lt_or_ge r h.length with hlt | hge
    · rw [Function.update_of_ne (hne hlt), Heap.bytes_append_left hlt]
      exact htidy r hlt
    · have heq : r = h.length := by
        rw [List.length_append, List.length_singleton] at hr
        omega
      rw [heq, Function.update_self, Heap.bytes_append_self]
      exact hn

end Buffer

open Buffer

namespace BufferList

variable {h h' h'' : Heap} {used used' used'' : ℕ → ℕ} {own own' : Option ℕ} {l l' o : BufferList}
  {p q : Ptr}

/-- The list is well formed: no segment is empty, the segments refer to bytes in use, and `_len` is the
sum of their lengths. -/
structure Good (h : Heap) (used : ℕ → ℕ) (l : BufferList) : Prop where
  segment : ∀ p ∈ l.buffers, p.In h used ∧ 0 < p.len
  tail : l.appendBuffer.Tail h used
  len : l.len = (l.buffers.map Ptr.len).sum % 2 ^ 32

theorem Good.contents_eq (hl : l.Good h used) (hg : Grows own h used h' used') :
    l.contents h' = l.contents h := by
  rw [contents, contents, List.flatMap, List.flatMap]
  exact congrArg List.flatten (List.map_congr_left fun p hp ↦ (hl.segment p hp).1.bytes_eq hg)

/-- A change elsewhere leaves a list well formed. -/
theorem Good.grows (hl : l.Good h used) (hg : Grows own h used h' used')
    (hown : ∀ r < h.length, l.appendBuffer.raw = some r → own ≠ some r) : l.Good h' used' := by
  refine ⟨fun p hp ↦ ⟨(hl.segment p hp).1.grows hg, (hl.segment p hp).2⟩,
    ⟨hl.tail.1, fun r hr ↦ ?_⟩, hl.len⟩
  obtain ⟨hlt, hlen⟩ := hl.tail.2 r hr
  exact ⟨hlt.trans_le hg.length_le, hlen.trans (hg.used_eq r hlt (hown r hlt hr)).symm⟩

/-- What concerns the segments: none is empty, they refer to bytes in use, and `_len` is the sum of their
lengths. -/
structure Sound (h : Heap) (used : ℕ → ℕ) (l : BufferList) : Prop where
  segment : ∀ p ∈ l.buffers, p.In h used ∧ 0 < p.len
  len : l.len = (l.buffers.map Ptr.len).sum % 2 ^ 32

theorem Good.sound (hl : l.Good h used) : l.Sound h used := ⟨hl.segment, hl.len⟩

theorem Sound.good (hl : l.Sound h used) (htail : l.appendBuffer.Tail h used) : l.Good h used :=
  ⟨hl.segment, htail, hl.len⟩

theorem length_flatMap_bytes {ps : List Ptr} (hps : ∀ p ∈ ps, p.In h used ∧ 0 < p.len)
    (htidy : Tidy h used) : (ps.flatMap (Ptr.bytes h)).length = (ps.map Ptr.len).sum := by
  rw [List.length_flatMap]
  exact congrArg List.sum (List.map_congr_left fun p hp ↦ (hps p hp).1.length_bytes htidy)

theorem Sound.length_contents (hl : l.Sound h used) (htidy : Tidy h used) :
    (l.contents h).length = (l.buffers.map Ptr.len).sum :=
  length_flatMap_bytes hl.segment htidy

theorem Good.length_contents (hl : l.Good h used) (htidy : Tidy h used) :
    (l.contents h).length = (l.buffers.map Ptr.len).sum :=
  hl.sound.length_contents htidy

/-! ## Operations without memory

These only move segments and pointers. Nothing has to be said about the heap. -/

theorem Good.clear (hl : l.Good h used) : l.clear.Good h used :=
  ⟨fun _ hp ↦ absurd hp List.not_mem_nil, hl.tail, rfl⟩

theorem Sound.pushBack (hl : l.Sound h used) (hp : p.In h used) (htidy : Tidy h used) :
    (l.pushBack p).Sound h used ∧ (l.pushBack p).contents h = l.contents h ++ p.bytes h ∧
      (l.pushBack p).appendBuffer = l.appendBuffer := by
  rw [BufferList.pushBack]
  split_ifs with hzero
  · have hnil : p.bytes h = [] := List.eq_nil_of_length_eq_zero ((hp.length_bytes htidy).trans hzero)
    exact ⟨hl, by rw [hnil, List.append_nil], rfl⟩
  · refine ⟨⟨fun q hq ↦ ?_, ?_⟩, by simp [contents], rfl⟩
    · rcases List.mem_append.mp hq with hq | hq
      · exact hl.segment q hq
      · rw [List.mem_singleton.mp hq]
        exact ⟨hp, Nat.pos_of_ne_zero hzero⟩
    · simp [add32, hl.len]

theorem Good.pushBack (hl : l.Good h used) (hp : p.In h used) (htidy : Tidy h used) :
    (l.pushBack p).Good h used ∧ (l.pushBack p).contents h = l.contents h ++ p.bytes h ∧
      (l.pushBack p).appendBuffer = l.appendBuffer := by
  obtain ⟨hsound, hcontents, hsame⟩ := hl.sound.pushBack hp htidy
  exact ⟨hsound.good (hsame ▸ hl.tail), hcontents, hsame⟩

theorem Good.pushFront (hl : l.Good h used) (hp : p.In h used) (htidy : Tidy h used) :
    (l.pushFront p).Good h used ∧ (l.pushFront p).contents h = p.bytes h ++ l.contents h ∧
      (l.pushFront p).appendBuffer = l.appendBuffer := by
  rw [BufferList.pushFront]
  split_ifs with hzero
  · have hnil : p.bytes h = [] := List.eq_nil_of_length_eq_zero ((hp.length_bytes htidy).trans hzero)
    exact ⟨hl, by rw [hnil, List.nil_append], rfl⟩
  · refine ⟨⟨fun q hq ↦ ?_, hl.tail, ?_⟩, by simp [contents], rfl⟩
    · rcases List.mem_cons.mp hq with rfl | hq
      · exact ⟨hp, Nat.pos_of_ne_zero hzero⟩
      · exact hl.segment q hq
    · simp [add32, hl.len, Nat.add_comm]

theorem appendPtr_eq (l : BufferList) (p : Ptr) : l.appendPtr p = l.pushBack p := by
  rw [appendPtr, BufferList.pushBack]
  split_ifs <;> rfl

/-- Part of a pointer is appended; it may extend the last segment. -/
theorem Sound.appendSub (off len : ℕ) (hl : l.Sound h used) (hp : p.In h used) (htidy : Tidy h used)
    (hraw : p.raw.isSome) (hle : off + len ≤ p.len) :
    ∃ l', l.appendSub p off len = some l' ∧ l'.Sound h used ∧
      l'.contents h = l.contents h ++ ((p.bytes h).drop off).take len ∧
      l'.appendBuffer = l.appendBuffer := by
  obtain ⟨q, hq⟩ := Ptr.sub_isSome hraw hle
  obtain ⟨hqin, -, hqbytes⟩ := hp.sub hle hq
  have hpush := hl.pushBack hqin htidy
  rw [hqbytes] at hpush
  have hfits : ¬p.len < add32 len off := Nat.not_lt.mpr ((Nat.mod_le ..).trans (by omega))
  rw [BufferList.appendSub, if_neg hfits, hq]
  cases hlast : l.buffers.getLast? with
  | none => exact ⟨l.pushBack q, rfl, hpush⟩
  | some last =>
    dsimp only
    split_ifs with hmerge
    · -- the bytes follow the last segment in memory
      obtain ⟨hsame, hstop⟩ := hmerge
      obtain ⟨r, hr⟩ := Option.isSome_iff_exists.mp hraw
      obtain ⟨front, hfront⟩ := List.getLast?_eq_some_iff.mp hlast
      have hlast_mem : last ∈ l.buffers := by simp [hfront]
      obtain ⟨hlast_in, hlast_pos⟩ := hl.segment last hlast_mem
      have hlast_raw : last.raw = some r := hsame.trans hr
      have hbytes : Ptr.bytes h { last with len := last.len + len } =
          last.bytes h ++ ((p.bytes h).drop off).take len := by
        rw [Ptr.stop] at hstop
        simp only [Ptr.bytes, hlast_raw, hr]
        rw [List.take_add, List.drop_drop, List.drop_take, List.take_take, List.drop_drop,
          Nat.min_eq_left (by omega), hstop]
      rw [hfront, List.dropLast_concat]
      refine ⟨_, rfl, ⟨fun x hx ↦ ?_, ?_⟩, ?_, rfl⟩
      · rcases List.mem_append.mp hx with hx | hx
        · exact hl.segment x (by simp [hfront, hx])
        · rw [List.mem_singleton.mp hx]
          refine ⟨⟨fun hnone ↦ absurd (hlast_raw.symm.trans hnone) (by simp), fun r' hr' ↦ ?_⟩,
            Nat.lt_of_lt_of_le hlast_pos (Nat.le_add_right ..)⟩
          obtain ⟨hlt, hpstop⟩ := hp.2 r' (hsame.symm.trans hr')
          refine ⟨hlt, le_trans ?_ hpstop⟩
          simp only [Ptr.stop] at hstop ⊢
          omega
      · have hlen := hl.len
        rw [hfront] at hlen
        simp only [List.map_append, List.map_cons, List.map_nil, List.sum_append, List.sum_cons,
          List.sum_nil, add32] at hlen ⊢
        omega
      · simp only [contents, hfront, List.flatMap_append, List.flatMap_cons, List.flatMap_nil,
          List.append_nil, List.append_assoc, hbytes]
    · exact ⟨l.pushBack q, rfl, hpush⟩

theorem Good.appendSub (off len : ℕ) (hl : l.Good h used) (hp : p.In h used) (htidy : Tidy h used)
    (hraw : p.raw.isSome) (hle : off + len ≤ p.len) :
    ∃ l', l.appendSub p off len = some l' ∧ l'.Good h used ∧
      l'.contents h = l.contents h ++ ((p.bytes h).drop off).take len ∧
      l'.appendBuffer = l.appendBuffer := by
  obtain ⟨l', hl', hsound, hcontents, hsame⟩ := hl.sound.appendSub off len hp htidy hraw hle
  exact ⟨l', hl', hsound.good (hsame ▸ hl.tail), hcontents, hsame⟩

theorem Good.appendList (hl : l.Good h used) (ho : o.Good h used) :
    (l.appendList o).Good h used ∧ (l.appendList o).contents h = l.contents h ++ o.contents h := by
  refine ⟨⟨fun p hp ↦ ?_, hl.tail, ?_⟩, by simp [contents, BufferList.appendList]⟩
  · exact (List.mem_append.mp hp).elim (hl.segment p) (ho.segment p)
  · simp [BufferList.appendList, add32, hl.len, ho.len]

/-! ## Operations that write

`append` fills up the `append_buffer` and makes a new one for what is left. It returns after at most
two rounds; in 32 bits the length of the new buffer may come out as 0, and then it never does. -/

/-- The list becomes another one, with contents `bs`: no bytes in use change, and its `append_buffer` is
the old one or a new one. -/
def Becomes (h : Heap) (used : ℕ → ℕ) (l : BufferList) (h' : Heap) (l' : BufferList) (bs : Bytes) :
    Prop :=
  ∃ used', Grows l.appendBuffer.raw h used h' used' ∧ l'.Good h' used' ∧ l'.contents h' = bs ∧
    ∀ r < h.length, l'.appendBuffer.raw = some r → l.appendBuffer.raw = some r

theorem Good.becomes (hl : l'.Good h used) (htidy : Tidy h used)
    (hsame : l'.appendBuffer = l.appendBuffer) : Becomes h used l h l' (l'.contents h) :=
  ⟨used, .refl htidy, hl, rfl, fun r _ hr ↦ by rwa [hsame] at hr⟩

/-- Bytes that fit into the `append_buffer`. -/
theorem fill_becomes (src : Bytes) (hl : l.Good h used) (htidy : Tidy h used) (hne : src ≠ [])
    (hfits : src.length ≤ l.appendBuffer.unusedTailLength h) :
    ∃ h' l', fill h l src = some (h', l') ∧ Becomes h used l h' l' (l.contents h ++ src) := by
  have hpos := List.length_pos_iff.mpr hne
  obtain ⟨r, hr⟩ : ∃ r, l.appendBuffer.raw = some r := by
    cases hraw : l.appendBuffer.raw with
    | none => simp only [Ptr.unusedTailLength, hraw] at hfits; omega
    | some r => exact ⟨r, rfl⟩
  obtain ⟨hoff, htail⟩ := hl.tail
  obtain ⟨hlt, hlen⟩ := htail r hr
  have hstop : l.appendBuffer.stop = used r := by rw [Ptr.stop, hoff, hlen, Nat.zero_add]
  have hroom : used r + src.length ≤ (h.bytes r).length := by
    have hused := htidy r hlt
    simp only [Ptr.unusedTailLength, hr, hstop] at hfits
    omega
  -- the heap with the bytes in it, and the longer buffer
  have hself := Heap.bytes_write_self hlt (used r) src
  have htake : ((h.bytes r).take (used r)).length = used r := by
    rw [List.length_take]
    omega
  have hg : Grows l.appendBuffer.raw h used (h.write r (used r) src)
      (Function.update used r (used r + src.length)) := by
    refine ⟨(Heap.length_write ..).ge, fun x hx ↦ ?_, fun x hx ↦ ?_, fun x hx hown ↦ ?_, fun x hx ↦ ?_⟩
    · by_cases heq : x = r
      · rw [heq, hself, List.take_left' htake]
      · rw [Heap.bytes_write_of_ne heq]
    · by_cases heq : x = r
      · rw [heq, Function.update_self]
        exact Nat.le_add_right ..
      · rw [Function.update_of_ne heq]
    · rw [Function.update_of_ne fun heq ↦ hown (by rw [hr, heq])]
    · rw [Heap.length_bytes_write hlt hroom]
      by_cases heq : x = r
      · rw [heq, Function.update_self]
        exact hroom
      · rw [Function.update_of_ne heq]
        exact htidy x (by rwa [Heap.length_write] at hx)
  have happend : l.appendBuffer.append h src = some (h.write r (used r) src,
      { l.appendBuffer with len := l.appendBuffer.len + src.length }) := by
    simp only [Ptr.append, hr, if_pos hfits, hstop]
  generalize hbuf : ({ l.appendBuffer with len := l.appendBuffer.len + src.length } : Ptr) = buf
  have hbuf_raw : buf.raw = some r := by rw [← hbuf]; exact hr
  have hbuf_off : buf.off = 0 := by rw [← hbuf]; exact hoff
  have hbuf_len : buf.len = used r + src.length := by rw [← hbuf, ← hlen]
  have hbuf_tail : buf.Tail (h.write r (used r) src) (Function.update used r (used r + src.length)) := by
    refine ⟨hbuf_off, fun x hx ↦ ?_⟩
    rw [hbuf_raw, Option.some_inj] at hx
    rw [← hx, Function.update_self, Heap.length_write]
    exact ⟨hlt, hbuf_len⟩
  have hbuf_in : buf.In (h.write r (used r) src) (Function.update used r (used r + src.length)) := by
    refine ⟨fun hnone ↦ absurd (hbuf_raw.symm.trans hnone) (by simp), fun x hx ↦ ?_⟩
    obtain ⟨hx', hlen'⟩ := hbuf_tail.2 x hx
    refine ⟨hx', ?_⟩
    rw [Ptr.stop, hbuf_off, hlen', Nat.zero_add]
  have hgood : ({ l with appendBuffer := buf } : BufferList).Good (h.write r (used r) src)
      (Function.update used r (used r + src.length)) :=
    ⟨fun p hp ↦ ⟨(hl.segment p hp).1.grows hg, (hl.segment p hp).2⟩, hbuf_tail, hl.len⟩
  have hoffset : buf.stop - src.length = used r := by
    rw [Ptr.stop, hbuf_off, hbuf_len]
    omega
  obtain ⟨l', hl', hgood', hcontents, hsame⟩ := hgood.appendSub (used r) src.length
    hbuf_in hg.tidy (by rw [hbuf_raw]; rfl) (by omega)
  refine ⟨h.write r (used r) src, l', ?_, _, hg, hgood', ?_, fun x _ hx ↦ ?_⟩
  · rw [fill, happend, hbuf]
    simp only [Option.bind_some, hoffset, hl', Option.map_some]
  · have hnew : ((buf.bytes (h.write r (used r) src)).drop (used r)).take src.length = src := by
      simp only [Ptr.bytes, hbuf_raw, hbuf_off, hbuf_len, List.drop_zero, hself]
      rw [List.drop_take, List.drop_left' htake, Nat.add_sub_cancel_left, List.take_take, Nat.min_self,
        List.take_left]
    have hold : ({ l with appendBuffer := buf } : BufferList).contents (h.write r (used r) src) =
        l.contents h := hl.contents_eq hg
    rw [hcontents, hold, hnew]
  · rw [hsame, hbuf_raw] at hx
    rw [hr, ← hx]

theorem Becomes.trans {h₁ : Heap} {used₁ : ℕ → ℕ} {l₁ : BufferList} {bs : Bytes}
    (hg : Grows l.appendBuffer.raw h used h₁ used₁)
    (hown : ∀ r < h.length, l₁.appendBuffer.raw = some r → l.appendBuffer.raw = some r)
    (hb : Becomes h₁ used₁ l₁ h' l' bs) : Becomes h used l h' l' bs := by
  obtain ⟨used', hg', hgood, hcontents, hown'⟩ := hb
  exact ⟨used', hg.trans hg' hown, hgood, hcontents,
    fun r hr hraw ↦ hown r hr (hown' r (hr.trans_le hg.length_le) hraw)⟩

section Append

variable {alloc : Allocator} {page : ℕ}

variable (alloc) in
/-- A new `append_buffer`. -/
theorem newAppendBuffer_spec (hl : l.Good h used) (htidy : Tidy h used) (alen : ℕ) :
    ∃ used', Grows none h used (newAppendBuffer alloc h l alen).1 used' ∧
      (newAppendBuffer alloc h l alen).2.Good (newAppendBuffer alloc h l alen).1 used' ∧
      (newAppendBuffer alloc h l alen).2.contents (newAppendBuffer alloc h l alen).1 = l.contents h ∧
      (newAppendBuffer alloc h l alen).2.appendBuffer.raw = some h.length ∧
      (newAppendBuffer alloc h l alen).2.appendBuffer.unusedTailLength
        (newAppendBuffer alloc h l alen).1 = alen := by
  have hg : Grows none h used (newAppendBuffer alloc h l alen).1 (Function.update used h.length 0) :=
    grows_append _ htidy (Nat.zero_le _)
  refine ⟨_, hg, ⟨fun p hp ↦ ⟨(hl.segment p hp).1.grows hg, (hl.segment p hp).2⟩, ⟨rfl, fun r hr ↦ ?_⟩,
    hl.len⟩, hl.contents_eq hg, rfl, ?_⟩
  · have heq : h.length = r := Option.some_inj.mp hr
    rw [← heq, Function.update_self]
    exact ⟨by simp [newAppendBuffer, Heap.create], rfl⟩
  · simp [newAppendBuffer, Heap.create, Ptr.unusedTailLength, Heap.bytes_append_self, Ptr.stop]

/-- `append(c)`. -/
theorem appendChar_becomes (hpage : 0 < page) (hl : l.Good h used) (htidy : Tidy h used) (c : UInt8) :
    ∃ h' l', appendChar alloc page h l c = some (h', l') ∧
      Becomes h used l h' l' (l.contents h ++ [c]) := by
  rw [appendChar]
  split_ifs with hfull
  · obtain ⟨used₁, hg, hgood, hcontents, hraw, hroom⟩ :=
      newAppendBuffer_spec alloc hl htidy page
    obtain ⟨h', l', hfill, hbecomes⟩ := fill_becomes [c] hgood hg.tidy (by simp)
      (by rw [hroom]; exact hpage)
    rw [hcontents] at hbecomes
    refine ⟨h', l', hfill, .trans hg.weaken (fun r hr heq ↦ ?_) hbecomes⟩
    rw [hraw, Option.some_inj] at heq
    omega
  · exact fill_becomes [c] hl htidy (by simp) (Nat.pos_of_ne_zero hfull)

theorem appendData_succ {src : Bytes} (hne : src ≠ []) (fuel : ℕ) (h : Heap) (l : BufferList) :
    appendData alloc page (fuel + 1) h l src =
      (if 0 < min (l.appendBuffer.unusedTailLength h) src.length then
        fill h l (src.take (min (l.appendBuffer.unusedTailLength h) src.length))
      else some (h, l)).bind fun x ↦
        if src.drop (min (l.appendBuffer.unusedTailLength h) src.length) = [] then some x
        else
          let y := newAppendBuffer alloc x.1 x.2
            (appendLength page (src.drop (min (l.appendBuffer.unusedTailLength h) src.length)).length)
          appendData alloc page fuel y.1 y.2
            (src.drop (min (l.appendBuffer.unusedTailLength h) src.length)) := by
  cases src with
  | nil => exact absurd rfl hne
  | cons b bs => rfl

/-- `append(data, len)` when everything fits into the `append_buffer`. -/
theorem appendData_of_fits (alloc : Allocator) (page : ℕ) (src : Bytes) (fuel : ℕ) (hl : l.Good h used) (htidy : Tidy h used)
    (hfits : src.length ≤ l.appendBuffer.unusedTailLength h) :
    ∃ h' l', appendData alloc page (fuel + 1) h l src = some (h', l') ∧
      Becomes h used l h' l' (l.contents h ++ src) := by
  by_cases hne : src = []
  · rw [hne, List.append_nil]
    exact ⟨h, l, rfl, hl.becomes htidy rfl⟩
  obtain ⟨h', l', hfill, hbecomes⟩ := fill_becomes src hl htidy hne hfits
  refine ⟨h', l', ?_, hbecomes⟩
  rw [appendData_succ hne, Nat.min_eq_right hfits, List.take_length, List.drop_length,
    if_pos (List.length_pos_iff.mpr hne), hfill, Option.bind_some, if_pos rfl]

/-- So many bytes do not fit into the `append_buffer`. -/
def excess (h : Heap) (l : BufferList) (src : Bytes) : ℕ :=
  src.length - l.appendBuffer.unusedTailLength h

/-- The length of a new `append_buffer`: it has room for what is left, unless the 32 bits overflow. -/
theorem appendLength_cases (hpage : 0 < page) (hdvd : page ∣ 2 ^ 32) {n : ℕ} (hn : 0 < n)
    (hlt : n < 2 ^ 32) :
    n + page ≤ 2 ^ 32 ∧ n ≤ appendLength page n ∨ 2 ^ 32 < n + page ∧ appendLength page n = 0 := by
  obtain ⟨k, hk⟩ := hdvd
  have hdiv := Nat.div_add_mod (n - 1) page
  have hmod := Nat.mod_lt (n - 1) hpage
  rw [appendLength, Nat.mul_add, Nat.mul_one]
  generalize hq : (n - 1) / page = q at hdiv ⊢
  rcases Nat.lt_or_ge (q + 1) k with hlt' | hge
  · have hmul : page * (q + 2) ≤ page * k := Nat.mul_le_mul_left page hlt'
    have hsplit : page * (q + 2) = page * q + page + page := by
      rw [Nat.mul_add, Nat.mul_two, Nat.add_assoc]
    rw [Nat.mod_eq_of_lt (by omega)]
    exact Or.inl ⟨by omega, by omega⟩
  · have hle : page * q < page * k := by omega
    have hqk : q < k := Nat.lt_of_mul_lt_mul_left hle
    have heq : page * q + page = 2 ^ 32 := by
      rw [hk, show k = q + 1 by omega, Nat.mul_add, Nat.mul_one]
    rw [heq, Nat.mod_self]
    exact Or.inr ⟨by omega, rfl⟩

/-- **`append(data, len)`** returns after at most two rounds, if a buffer can be made for the excess. -/
theorem appendData_becomes {src : Bytes} {fuel : ℕ} (hl : l.Good h used) (htidy : Tidy h used)
    (hroom : excess h l src = 0 ∨ excess h l src ≤ appendLength page (excess h l src)) :
    ∃ h' l', appendData alloc page (fuel + 2) h l src = some (h', l') ∧
      Becomes h used l h' l' (l.contents h ++ src) := by
  rcases Nat.lt_or_ge (l.appendBuffer.unusedTailLength h) src.length with hlt | hfits
  swap
  · exact appendData_of_fits alloc page src _ hl htidy hfits
  generalize hgap : l.appendBuffer.unusedTailLength h = gap at hlt
  have hexcess : excess h l src = (src.drop gap).length := by
    rw [excess, hgap, List.length_drop]
  have hdrop : src.drop gap ≠ [] := List.ne_nil_of_length_pos (by rw [List.length_drop]; omega)
  have hdrop_pos := List.length_pos_iff.mpr hdrop
  rw [hexcess] at hroom
  replace hroom := hroom.resolve_left (by omega)
  -- the first round fills the buffer
  obtain ⟨h₁, l₁, used₁, hfirst, hg₁, hgood₁, hcontents₁, hown₁⟩ : ∃ h₁ l₁ used₁,
      (if 0 < gap then fill h l (src.take gap) else some (h, l)) = some (h₁, l₁) ∧
      Grows l.appendBuffer.raw h used h₁ used₁ ∧ l₁.Good h₁ used₁ ∧
      l₁.contents h₁ = l.contents h ++ src.take gap ∧
      ∀ r < h.length, l₁.appendBuffer.raw = some r → l.appendBuffer.raw = some r := by
    split_ifs with hpos
    · have htake : (src.take gap).length = gap := by
        rw [List.length_take]
        omega
      obtain ⟨h₁, l₁, hfill, used₁, hg, hgood, hcontents, hown⟩ :=
        fill_becomes (src.take gap) hl htidy (List.ne_nil_of_length_pos (by omega))
          (by rw [htake, hgap])
      exact ⟨h₁, l₁, used₁, hfill, hg, hgood, hcontents, hown⟩
    · refine ⟨h, l, used, rfl, .refl htidy, hl, ?_, fun r _ hr ↦ hr⟩
      rw [Nat.eq_zero_of_not_pos hpos, List.take_zero, List.append_nil]
  -- the second round puts the rest into a new one
  obtain ⟨used₂, hg₂, hgood₂, hcontents₂, hraw₂, hroom₂⟩ :=
    newAppendBuffer_spec alloc hgood₁ hg₁.tidy (appendLength page (src.drop gap).length)
  obtain ⟨h', l', hsecond, hbecomes⟩ := appendData_of_fits alloc page
    (src.drop gap) fuel hgood₂ hg₂.tidy (by rw [hroom₂]; exact hroom)
  refine ⟨h', l', ?_, ?_⟩
  · have hsrc : src ≠ [] := List.ne_nil_of_length_pos (by omega)
    rw [appendData_succ hsrc, hgap, Nat.min_eq_left hlt.le, hfirst, Option.bind_some, if_neg hdrop]
    exact hsecond
  · rw [hcontents₂, hcontents₁, List.append_assoc, List.take_append_drop] at hbecomes
    refine .trans (hg₁.trans hg₂ fun r _ hr ↦ absurd hr (by simp)) (fun r hr heq ↦ ?_)
      hbecomes
    rw [hraw₂, Option.some_inj] at heq
    have := hg₁.length_le
    omega

theorem newAppendBuffer_zero (h : Heap) (l : BufferList) :
    (newAppendBuffer alloc h l 0).2.appendBuffer.unusedTailLength (newAppendBuffer alloc h l 0).1 = 0 := by
  simp [newAppendBuffer, Heap.create, Ptr.unusedTailLength, Heap.bytes_append_self, Ptr.stop]

/-- With a buffer of length 0 the loop never ends. -/
theorem appendData_of_empty {src : Bytes} (hsrc : src ≠ []) (hfull : l.appendBuffer.unusedTailLength h = 0)
    (hzero : appendLength page src.length = 0) (fuel : ℕ) : appendData alloc page fuel h l src = none := by
  induction fuel generalizing h l with
  | zero =>
    cases src with
    | nil => exact absurd rfl hsrc
    | cons b bs => rfl
  | succ fuel ih =>
    rw [appendData_succ hsrc, hfull, Nat.zero_min, if_neg (Nat.lt_irrefl 0), Option.bind_some,
      List.drop_zero, if_neg hsrc, hzero]
    exact ih (newAppendBuffer_zero h l)

/-- So does one that has to make a buffer of length 0. -/
theorem appendData_of_overflow {src : Bytes} (hpos : 0 < excess h l src)
    (hzero : appendLength page (excess h l src) = 0) (fuel : ℕ) :
    appendData alloc page fuel h l src = none := by
  rw [excess] at hpos hzero
  have hsrc : src ≠ [] := List.ne_nil_of_length_pos (by omega)
  cases fuel with
  | zero =>
    cases src with
    | nil => exact absurd rfl hsrc
    | cons b bs => rfl
  | succ fuel =>
    have hmin : min (l.appendBuffer.unusedTailLength h) src.length =
        l.appendBuffer.unusedTailLength h := Nat.min_eq_left (by omega)
    have hdrop : src.drop (l.appendBuffer.unusedTailLength h) ≠ [] :=
      List.ne_nil_of_length_pos (by rw [List.length_drop]; exact hpos)
    rw [appendData_succ hsrc, hmin, Option.bind_eq_none_iff]
    intro x _
    rw [if_neg hdrop]
    refine appendData_of_empty hdrop ?_ ?_ fuel
    · rw [List.length_drop, hzero]
      exact newAppendBuffer_zero x.1 x.2
    · rw [List.length_drop, hzero]

end Append

end BufferList

end AsyncMessenger
