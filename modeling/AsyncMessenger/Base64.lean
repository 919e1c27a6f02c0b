import AsyncMessenger.Armor
import AsyncMessenger.Slicing

/-!
# Base64 of buffer lists

`encode_base64` and `decode_base64` bring the bytes of a list together with `c_str`, and write what
they make of them to a new buffer. How long it is they compute from the length of the list, in
unsigned arithmetic that rounds down.

The two have everything but the conversion in common (`fillFrom`): the list becomes one segment, a
buffer is made, `armor` or `unarmor` fills it from the front, and it becomes a segment of the other
list. So the round trip of lists rests on that of texts, and on the two lengths, which must be large
enough for what is written and give back what was read.
-/

namespace AsyncMessenger

open Buffer Armor

namespace BufferList

/-- How `decode_base64` fails. -/
inductive DecodeError
  | malformedInput
  | assertion
  /-- `unarmor` has read a byte that is not one of the list, or has not returned. -/
  | stray
  deriving DecidableEq, Repr

section

variable (alloc : Allocator)

/-- `c_str`: the memory, the list, and where its bytes begin. -/
def cStr (h : Heap) (l : BufferList) : Option (Heap × BufferList × Ptr) :=
  match l.buffers with
  | [] => some (h, l, {})
  | [p] => some (h, l, p)
  | _ => (rebuild alloc h l).map fun x ↦ (x.1, x.2, x.2.buffers.headD {})

/-- What the two functions have in common: a new buffer of `size` bytes is written to by `convert`, which
is given `dst_end`, the source and the destination. -/
def fillFrom {ρ : Type} (convert : ℕ → Bytes → Dst → ρ × Dst) (size : ℕ) (h : Heap) (l : BufferList) :
    Option (Heap × BufferList × Ptr × ρ) :=
  let x := h.create alloc size
  (cStr alloc x.1 l).map fun y ↦
    let r := convert size (Ptr.bytes y.1 { y.2.2 with len := l.len }) ⟨y.1.bytes h.length, 0⟩
    (y.1.write h.length 0 r.2.mem, y.2.1, x.2, r.1)

/-- `encode_base64`: the memory, this list, the other list, and what `armor` has returned. -/
def encodeBase64 (h : Heap) (l o : BufferList) : Option (Heap × BufferList × BufferList × ℤ) :=
  (fillFrom alloc armor (add32 (l.len * 4 % 2 ^ 32 / 3) 3) h l).map fun x ↦
    (x.1, x.2.1, o.pushBack { x.2.2.1 with len := (x.2.2.2 % 2 ^ 32).toNat }, x.2.2.2)

/-- `decode_base64`: the memory, the other list, and this list. -/
def decodeBase64 (h : Heap) (l e : BufferList) : Except DecodeError (Heap × BufferList × BufferList) :=
  match fillFrom alloc unarmor (add32 4 (e.len * 3 % 2 ^ 32 / 4)) h e with
  | none => .error .assertion
  | some (h, e, bp, .returned r) =>
    if r < 0 then .error .malformedInput
    else if Armor.int bp.len < r then .error .assertion
    else .ok (h, e, l.pushBack { bp with len := r.toNat })
  | some _ => .error .stray

end

variable {h : Heap} {l : BufferList}

/-! ## `c_str` -/

theorem In.extent_append {p : Ptr} (hp : p.In h h.extent) (more : Heap) :
    p.In (h ++ more) (h ++ more).extent :=
  ⟨hp.1, fun r hr ↦ ⟨by rw [List.length_append]; exact Nat.lt_add_right _ (hp.2 r hr).1, by
    rw [Heap.extent, Heap.bytes_append_left (hp.2 r hr).1]
    exact (hp.2 r hr).2⟩⟩

theorem Proper.append (hl : l.Proper h) (more : Heap) :
    l.Proper (h ++ more) ∧ l.contents (h ++ more) = l.contents h := by
  refine ⟨⟨fun p hp ↦ ⟨In.extent_append (hl.segment p hp).1 more, (hl.segment p hp).2⟩, hl.len, hl.lt⟩, ?_⟩
  rw [contents, contents, List.flatMap, List.flatMap]
  refine congrArg List.flatten (List.map_congr_left fun p hp ↦ ?_)
  rw [Ptr.bytes, Ptr.bytes]
  cases hr : p.raw with
  | none => rfl
  | some r =>
    dsimp only
    rw [Heap.bytes_append_left ((hl.segment p hp).1.2 r hr).1]

/-- **`c_str`** brings the bytes of the list together. -/
theorem Proper.cStr (hl : l.Proper h) (alloc : Allocator) :
    ∃ more l' front, BufferList.cStr alloc h l = some (h ++ more, l', front) ∧
      Ptr.bytes (h ++ more) { front with len := l.len } = l.contents h := by
  rw [BufferList.cStr]
  match hb : l.buffers with
  | [] =>
    have hnil : l.contents h = [] := by rw [contents, hb, List.flatMap_nil]
    exact ⟨[], l, {}, by rw [List.append_nil], hnil.symm⟩
  | [p] =>
    have hlen : l.len = p.len := by rw [hl.len, hb, List.map_singleton, List.sum_singleton]
    refine ⟨[], l, p, by rw [List.append_nil], ?_⟩
    rw [List.append_nil, contents, hb, List.flatMap_singleton, hlen]
  | p :: q :: ps =>
    have hp := (hl.segment p (hb ▸ List.mem_cons_self)).2
    have hne : l.len ≠ 0 := by
      rw [hl.len, hb, List.map_cons, List.sum_cons]
      omega
    refine ⟨[{ data := alloc.address h.length, bytes := l.contents h }],
      { l with buffers := [{ raw := some h.length, len := l.len }] },
      { raw := some h.length, len := l.len }, ?_, ?_⟩
    · dsimp only
      rw [rebuild_eq hl.segment (tidy_extent h) hl.len.symm hne, Option.map_some]
      rfl
    · simp only [Ptr.bytes, Heap.bytes_append_self, List.drop_zero]
      exact List.take_of_length_le hl.length_contents.le

/-! ## The new buffer -/

/-- The new buffer is filled from the bytes of the list, and nothing else is needed of the memory. -/
theorem Proper.fillFrom {ρ : Type} {convert : ℕ → Bytes → Dst → ρ × Dst} {size : ℕ} {text : Bytes}
    {r : ρ} (hl : l.Proper h) (alloc : Allocator) (hsize : text.length ≤ size) (hlt : size < 2 ^ 32)
    (hconvert : ∀ d : Dst, d.pos = 0 → d.mem.length = size →
      convert size (l.contents h) d = (r, d.put text)) :
    ∃ h' l' bp, BufferList.fillFrom alloc convert size h l = some (h', l', bp, r) ∧ bp.len = size ∧
      (({} : BufferList).pushBack { bp with len := text.length }).Proper h' ∧
      (({} : BufferList).pushBack { bp with len := text.length }).contents h' = text := by
  obtain ⟨raw, hnew, hbytes⟩ : ∃ raw : Raw,
      h.create alloc size = (h ++ [raw], { raw := some h.length, len := size }) ∧
        raw.bytes.length = size := ⟨_, rfl, by rw [List.length_map, List.length_range]⟩
  obtain ⟨hproper, hcontents⟩ := hl.append [raw]
  obtain ⟨more, l', front, hstr, hsource⟩ := hproper.cStr alloc
  -- The memory of the new buffer, before and after.
  have hold : ((h ++ [raw]) ++ more).bytes h.length = raw.bytes := by
    rw [Heap.bytes_append_left (by simp), Heap.bytes_append_self]
  have hindex : h.length < ((h ++ [raw]) ++ more).length := by
    simp only [List.length_append, List.length_singleton]
    omega
  have hfits : (⟨raw.bytes, 0⟩ : Dst).pos + text.length ≤ (⟨raw.bytes, 0⟩ : Dst).mem.length := by
    dsimp only
    omega
  have hlen : (Dst.put ⟨raw.bytes, 0⟩ text).mem.length = size := (Dst.length_put hfits).trans hbytes
  have hwritten : (((h ++ [raw]) ++ more).write h.length 0 (Dst.put ⟨raw.bytes, 0⟩ text).mem).bytes
      h.length = (Dst.put ⟨raw.bytes, 0⟩ text).mem := by
    rw [Heap.bytes_write_self hindex, hold, List.take_zero, List.nil_append, Nat.zero_add, hlen,
      List.drop_of_length_le hbytes.le, List.append_nil]
  refine ⟨((h ++ [raw]) ++ more).write h.length 0 (Dst.put ⟨raw.bytes, 0⟩ text).mem, l',
    { raw := some h.length, len := size }, ?_, rfl, ?_⟩
  · rw [BufferList.fillFrom, hnew]
    dsimp only
    rw [hstr, Option.map_some]
    dsimp only
    rw [hsource, hcontents, hold, hconvert _ rfl hbytes]
  have hlength := Heap.length_write ((h ++ [raw]) ++ more) h.length 0 (Dst.put ⟨raw.bytes, 0⟩ text).mem
  generalize ((h ++ [raw]) ++ more).write h.length 0 (Dst.put ⟨raw.bytes, 0⟩ text).mem = h'
    at hwritten hlength ⊢
  have hin : ({ raw := some h.length, len := text.length } : Ptr).In h' h'.extent := by
    refine ⟨fun hnone ↦ absurd hnone (by simp), fun r hr ↦ ?_⟩
    obtain rfl : h.length = r := Option.some_inj.mp hr
    rw [Heap.extent, hwritten, hlen, Ptr.stop, Nat.zero_add]
    exact ⟨hlength ▸ hindex, hsize⟩
  have htext : Ptr.bytes h' { raw := some h.length, len := text.length } = text := by
    have hout : (Dst.put ⟨raw.bytes, 0⟩ text).mem.take text.length = text := by
      have hput := Dst.written_put hfits text.length le_rfl
      rw [List.take_length] at hput
      exact hput
    simp only [Ptr.bytes, hwritten, List.drop_zero, hout]
  have hempty : ({} : BufferList).Sound h' h'.extent := ⟨fun _ hp ↦ absurd hp List.not_mem_nil, rfl⟩
  obtain ⟨hsound, hpushed, -⟩ := hempty.pushBack hin (tidy_extent h')
  rw [htext] at hpushed
  exact ⟨hsound.proper (by rw [hpushed]; exact hsize.trans_lt hlt), hpushed⟩

/-! ## The round trip -/

/-- The list is encoded, and a list with the bytes of the result, however they are cut, is decoded to the
bytes of the first. Neither call returns an error. -/
def Base64RoundTrips (alloc : Allocator) (h : Heap) (l : BufferList) : Prop :=
  ∃ (h₁ : Heap) (l₁ o : BufferList) (n : ℕ), encodeBase64 alloc h l {} = some (h₁, l₁, o, (n : ℤ)) ∧
    o.Proper h₁ ∧ ∀ (alloc' : Allocator) (h₂ : Heap) (e : BufferList), e.Proper h₂ →
      e.contents h₂ = o.contents h₁ →
      ∃ (h₃ : Heap) (e₁ d : BufferList), decodeBase64 alloc' h₂ {} e = .ok (h₃, e₁, d) ∧
        d.contents h₃ = l.contents h

theorem textLength_zero (n : ℕ) : textLength n 0 = 4 * groups n := by
  rw [textLength, if_neg fun h ↦ h.1 rfl, Nat.add_zero]

/-- The size that `encode_base64` computes is that of the text at least. -/
theorem textLength_le {n : ℕ} (hn : n < 2 ^ 30) :
    textLength n 0 ≤ add32 (n * 4 % 2 ^ 32 / 3) 3 ∧ textLength n 0 < 2 ^ 31 := by
  have hmul : n * 4 % 2 ^ 32 = n * 4 := Nat.mod_eq_of_lt (by omega)
  have hadd : add32 (n * 4 / 3) 3 = n * 4 / 3 + 3 := Nat.mod_eq_of_lt (by omega)
  rw [textLength_zero, groups, hmul, hadd]
  omega

/-- The size that `decode_base64` computes from a text is that of the source at least. -/
theorem le_textLength {n : ℕ} (hn : n < 2 ^ 30) :
    n ≤ add32 4 (textLength n 0 * 3 % 2 ^ 32 / 4) ∧
      add32 4 (textLength n 0 * 3 % 2 ^ 32 / 4) < 2 ^ 31 := by
  have hmul : 4 * groups n * 3 % 2 ^ 32 = 4 * (groups n * 3) := by
    rw [Nat.mul_assoc, groups]
    exact Nat.mod_eq_of_lt (by omega)
  have hadd : add32 4 (groups n * 3) = 4 + groups n * 3 := Nat.mod_eq_of_lt (by rw [groups]; omega)
  rw [textLength_zero, hmul, Nat.mul_div_cancel_left _ (by decide), hadd, groups]
  omega

/-- **Lists of fewer than `2^30` bytes make the round trip.** -/
theorem Proper.base64RoundTrips (hl : l.Proper h) (alloc : Allocator) (hlen : l.len < 2 ^ 30) :
    Base64RoundTrips alloc h l := by
  have hlength := hl.length_contents
  obtain ⟨hsize, hint⟩ := textLength_le hlen
  obtain ⟨hsize', hlt'⟩ := le_textLength hlen
  have htext : (text (0 : ℕ) (l.contents h) 0).length = textLength l.len 0 := by
    rw [length_text (by decide), hlength]
  have hself (n : ℕ) (hn : n < 2 ^ 31) : Armor.int n = n := int_of_lt (Int.natCast_nonneg n) (by omega)
  have harmor (d : Dst) (hpos : d.pos = 0)
      (hmem : d.mem.length = add32 (l.len * 4 % 2 ^ 32 / 3) 3) :
      armor (add32 (l.len * 4 % 2 ^ 32 / 3) 3) (l.contents h) d =
        ((textLength l.len 0 : ℤ), d.put (text (0 : ℕ) (l.contents h) 0)) := by
    have hput := @armorLineBreak_put 0 _ (l.contents h) d (by decide)
      (by rw [hlength, hpos, Nat.zero_add]; exact hsize) hmem.ge
    rw [hlength, hself _ hint] at hput
    exact hput
  obtain ⟨h₁, l₁, bp, hfill, -, hproper, hcontents⟩ :=
    hl.fillFrom alloc (htext.trans_le hsize) (Nat.mod_lt _ (by decide)) harmor
  refine ⟨h₁, l₁, _, textLength l.len 0, ?_, hproper, fun alloc' h₂ e he hsame ↦ ?_⟩
  · have hmod : ((textLength l.len 0 : ℤ) % 2 ^ 32).toNat = textLength l.len 0 := by omega
    rw [encodeBase64, hfill, Option.map_some]
    dsimp only
    rw [hmod, ← htext]
  · rw [hcontents] at hsame
    have helen : e.len = textLength l.len 0 := by
      rw [← he.length_contents, hsame, htext]
    have hunarmor (d : Dst) (hpos : d.pos = 0)
        (hmem : d.mem.length = add32 4 (textLength l.len 0 * 3 % 2 ^ 32 / 4)) :
        unarmor (add32 4 (textLength l.len 0 * 3 % 2 ^ 32 / 4)) (e.contents h₂) d =
          (.returned (l.len : ℤ), d.put (l.contents h)) := by
      rw [hsame, unarmor_text _ (by rw [hlength, hpos, Nat.zero_add]; exact hsize') hmem.ge, hlength,
        hself _ (by omega)]
    obtain ⟨h₃, e₁, bp', hfill', hbp, -, hback⟩ :=
      he.fillFrom alloc' (hlength.trans_le hsize') (by omega) hunarmor
    have hroom : ¬Armor.int bp'.len < (l.len : ℤ) := by
      rw [hbp, hself _ hlt']
      omega
    refine ⟨h₃, e₁, _, ?_, hback⟩
    rw [decodeBase64, helen, hfill']
    dsimp only
    rw [if_neg (by omega), if_neg hroom, Int.toNat_natCast, hlength]

/-- **Base64.** A list of fewer than `2^30` bytes makes the round trip, however it is cut. Any bytes make
it at any line width exactly if the length of their text is an `int`. And whatever the source is, `unarmor`
reads within it and writes within the destination. -/
theorem base64_comesBack (src : Bytes) {lineWidth : ℕ} (hwidth : lineWidth < 2 ^ 31) :
    (∀ alloc h l, Proper h l → l.len < 2 ^ 30 → Base64RoundTrips alloc h l) ∧
    (RoundTrips src lineWidth ↔ textLength src.length lineWidth < 2 ^ 31) ∧
    ∀ stop source d, Armor.Returns stop d (unarmor stop source d) :=
  ⟨fun alloc _ _ hl hlen ↦ hl.base64RoundTrips alloc hlen, roundTrips_iff hwidth, unarmor_returns⟩

/-- A list of two segments makes the round trip, and so do three bytes in lines of eight. -/
theorem base64_twoSegments :
    Base64RoundTrips ⟨fun r ↦ 4096 * r, fun _ _ ↦ 0⟩ BufferWorld.twoSegments.heap
        (BufferWorld.twoSegments.lists 1) ∧ RoundTrips [1, 2, 3] 8 :=
  have hbase := @base64_comesBack [1, 2, 3] 8 (by decide)
  ⟨hbase.1 _ _ _ (BufferWorld.proper_twoSegments 1) (by decide), hbase.2.1.mpr (by decide)⟩

/-- **`3 * 2^29` bytes have a text of `2^31` characters**: what `armor_line_break` returns is not its
length. -/
theorem long_text_does_not_return :
    ¬∀ (src : Bytes) (lineWidth : ℕ), lineWidth < 2 ^ 31 → RoundTrips src lineWidth := by
  intro hall
  have hshort := (roundTrips_iff (by decide)).mp (hall (List.replicate (3 * 2 ^ 29) 0) 0 (by decide))
  rw [List.length_replicate] at hshort
  exact absurd hshort (by decide)

end BufferList

end AsyncMessenger
