import AsyncMessenger.Writing

/-!
# Round trips

A value is encoded into an empty list, something follows, and the list is cut into segments anew.
What is decoded from its start is the value, and the iterator is where the rest begins, exactly if
the value and the rest fit (`Ty.Fits`). An encoding that breaks off ends in `end_of_buffer`.

## The conditions

The offsets of iterators are unsigned, but `advance` takes an `int`. That is where each condition
comes from, apart from the one on the length of a list: a string of `2^31` bytes or more is copied
out of one segment with an `advance` by a negative number, the count of a list is filled in at a
position that is sought with `advance`, and a read that finds the iterator at the end seeks its
offset once more, even if there is nothing to read.

## The two directions

That what fits comes back follows from what encoders write (`Writes`) and decoders make of it
(`Returns`). For the other direction the list is cut in the way that is worst for it: into single
bytes, so that every offset is met, or not at all, so that a long string lies in one segment.
-/

namespace AsyncMessenger

open Reading Iter

/-- The segments hold the bytes. None is empty, and the length of each is an `unsigned`. -/
structure Segmented (segs : List Bytes) (bs : Bytes) : Prop where
  flatten : segs.flatten = bs
  sizes : ∀ s ∈ segs, s ≠ [] ∧ s.length < 2 ^ 32

/-- A list with nothing in it; it may have an `append_buffer`. -/
structure Writer.Empty (w : Writer) : Prop where
  segs : w.segs = []
  lastP : w.lastP = { p := none }

theorem Writer.Empty.bytes {w : Writer} (h : w.Empty) : w.bytes = [] := by
  rw [Writer.bytes, h.segs, List.flatten_nil]

theorem Writer.Empty.valid {w : Writer} (h : w.Empty) : w.Valid where
  nonempty s hs := absurd (h.segs ▸ hs) List.not_mem_nil
  lastP := .inl (by rw [h.lastP])
  behind := .inl (by rw [h.lastP]; rfl)

theorem Segmented.begin {segs : List Bytes} {bs : Bytes} (h : Segmented segs bs) :
    medium.At segs (ofBegin segs) 0 :=
  ⟨fun s hs ↦ (h.sizes s hs).1, At.ofBegin fun s hs ↦ (h.sizes s hs).1⟩

/-- Each byte in a segment of its own. -/
theorem segmented_singles (bs : Bytes) : Segmented (bs.map fun b ↦ [b]) bs where
  flatten := by
    induction bs with
    | nil => rfl
    | cons b bs ih => exact congrArg (b :: ·) ih
  sizes s hs := by
    obtain ⟨b, -, rfl⟩ := List.mem_map.mp hs
    exact ⟨List.cons_ne_nil b [], Nat.one_lt_two_pow (by omega)⟩

/-- All bytes but the rest in one segment. -/
theorem segmented_solid {bs : Bytes} (rest : Bytes) (hbs : bs ≠ []) (hlen : bs.length < 2 ^ 32) :
    Segmented (bs :: rest.map fun b ↦ [b]) (bs ++ rest) where
  flatten := congrArg (bs ++ ·) (segmented_singles rest).flatten
  sizes s hs := by
    rcases List.mem_cons.mp hs with rfl | hs
    · exact ⟨hbs, hlen⟩
    · exact (segmented_singles rest).sizes s hs

/-! ## What comes back

First for any encoder and decoder of one text; the versioned encodings and the shared pointers need
it as well. -/

/-- What is encoded into the list is decoded as `x` with `rest` behind it, in whatever segments, and the
iterator is then at the start of `rest`. A decoder may depend on more than the segments. -/
def ComesBack {ι α : Type} (encode : Writer → Except Stop Writer) (decode : ι → Decode α)
    (w₀ : Writer) (rest : Bytes) (x : α) : Prop :=
  ∃ w, encode w₀ = .ok w ∧ ∀ segs i, Segmented segs (w.bytes ++ rest) →
    ∃ it, decode i segs (ofBegin segs) = .ok (x, it) ∧ it.At segs w.bytes.length

section ComesBack

variable {ι α : Type} {encode : Writer → Except Stop Writer} {decode : ι → Decode α} {w₀ : Writer}
  {rest bs : Bytes} {starts : ℕ → Prop} {light hollow : Prop} {a x : α}

theorem Writer.Empty.length_bytes {w : Writer} (h : w.Empty) : w.bytes.length = 0 := by
  rw [h.bytes, List.length_nil]

/-- The encoder succeeds on an empty list, and the list then holds the text. -/
theorem Writes.into_empty (hwrites : Writes encode bs starts light) (hempty : w₀.Empty)
    (hlt : bs.length < 2 ^ 32) (hstarts : starts 0) (hlight : light) :
    ∃ w, encode w₀ = .ok w ∧ w.bytes = bs := by
  have hroom : w₀.bytes.length + bs.length < 2 ^ 32 := by
    rw [hempty.length_bytes, Nat.zero_add]
    exact hlt
  obtain ⟨w, hw⟩ := hwrites.ok hempty.valid hroom (hempty.length_bytes.symm ▸ hstarts) hlight
  refine ⟨w, hw, ?_⟩
  rw [(hwrites.wrote hempty.valid hroom hw).1.bytes, hempty.bytes, List.nil_append]

/-- A text that is written and read comes back. -/
theorem ComesBack.of_reads (hwrites : Writes encode bs starts light) (hempty : w₀.Empty)
    (hlt : bs.length < 2 ^ 32) (hstarts : starts 0) (hlight : light)
    (hfirm : rest = [] → hollow → bs.length < 2 ^ 31)
    (hreads : ∀ i, Returns medium (decode i) bs a hollow) : ComesBack encode decode w₀ rest a := by
  obtain ⟨w, hw, hbytes⟩ := hwrites.into_empty hempty hlt hstarts hlight
  refine ⟨w, hw, fun segs i hsegs ↦ ?_⟩
  have hcontent : (medium.content segs).drop 0 = bs ++ rest := hbytes ▸ hsegs.flatten
  obtain ⟨it, hdecode, -, hat⟩ := (hreads i).whole hsegs.begin hcontent
    (by rw [Nat.zero_add]; exact hlt) fun hrest hends ↦ by rw [Nat.zero_add]; exact hfirm hrest hends
  rw [Nat.zero_add, ← hbytes] at hat
  exact ⟨it, hdecode, hat⟩

/-- **What comes back.** A value comes back exactly if its text is shorter than `2^32` bytes, nothing in
it is too large or starts too late, a read of nothing at its end succeeds, and the value is the one that
the decoder makes of the text. -/
theorem comesBack_iff [Nonempty ι] (hwrites : Writes encode bs starts light) (hempty : w₀.Empty)
    (hne : bs ≠ []) (hreads : bs.length < 2 ^ 32 → light → ∀ i, Returns medium (decode i) bs a hollow)
    (hchokes : bs.length < 2 ^ 32 → ¬light → ∀ i, Chokes medium (decode i) bs) :
    ComesBack encode decode w₀ rest x ↔
      (bs.length < 2 ^ 32 ∧ starts 0 ∧ light ∧ (rest = [] → hollow → bs.length < 2 ^ 31)) ∧ a = x := by
  constructor
  · rintro ⟨w, hw, hdecode⟩
    obtain ⟨i⟩ := ‹Nonempty ι›
    have hlength : w.bytes.length = bs.length := by
      rw [hwrites.length hw, hempty.length_bytes, Nat.zero_add]
    -- The final offset is an `unsigned`.
    have hlt : bs.length < 2 ^ 32 := by
      obtain ⟨it, -, hat⟩ := hdecode _ i (segmented_singles (w.bytes ++ rest))
      exact hlength ▸ hat.lt
    obtain ⟨hwrote, hstarts⟩ := hwrites.wrote hempty.valid
      (by rw [hempty.length_bytes, Nat.zero_add]; exact hlt) hw
    rw [hempty.length_bytes] at hstarts
    have hbytes : w.bytes = bs := by rw [hwrote.bytes, hempty.bytes, List.nil_append]
    subst hbytes
    have hlimit : 0 + w.bytes.length < medium.limit := by
      rw [Nat.zero_add]
      exact hlt
    have hlight : light := by
      by_contra hheavy
      have hsegs := segmented_solid rest hne hlt
      obtain ⟨it, hok, -⟩ := hdecode _ i hsegs
      have herror := hchokes hlt hheavy i hsegs.begin hsegs.flatten hlimit
        ⟨w.bytes, _, rfl, by rw [Nat.zero_add]⟩
      exact absurd (hok.symm.trans herror) (by rintro ⟨⟩)
    have hsegs := segmented_singles (w.bytes ++ rest)
    obtain ⟨it, hok, -⟩ := hdecode _ i hsegs
    have hfirm : rest = [] → hollow → w.bytes.length < 2 ^ 31 := by
      refine fun hrest hends ↦ Nat.not_le.mp fun hlong ↦ ?_
      have hcontent := hsegs.flatten.trans (by rw [hrest, List.append_nil])
      have herror := (hreads hlt hlight i).stuck hsegs.begin hcontent hlimit hends
        (by rw [Nat.zero_add]; exact Nat.not_lt.mpr hlong)
      exact absurd (hok.symm.trans herror) (by rintro ⟨⟩)
    refine ⟨⟨hlt, hstarts, hlight, hfirm⟩, ?_⟩
    obtain ⟨it', hok', -⟩ := (hreads hlt hlight i).whole hsegs.begin hsegs.flatten hlimit
      fun hrest hends ↦ by rw [Nat.zero_add]; exact hfirm hrest hends
    exact congrArg Prod.fst (Except.ok.inj (hok'.symm.trans hok))
  · rintro ⟨⟨hlt, hstarts, hlight, hfirm⟩, rfl⟩
    exact .of_reads hwrites hempty hlt hstarts hlight hfirm (hreads hlt hlight)

end ComesBack

namespace Ty

variable {page : ℕ} {t : Ty} {w₀ : Writer} {x : t.Val Pieces} {rest : Bytes}

/-- What is encoded into the list can be decoded with `rest` behind it, in whatever segments and into
whatever target, and not if it breaks off. -/
def RoundTrips (page : ℕ) (t : Ty) (w₀ : Writer) (x : t.Val Pieces) (rest : Bytes) : Prop :=
  ∃ w, t.encode page x w₀ = .ok w ∧
    (∀ segs prev, Segmented segs (w.bytes ++ rest) →
      ∃ it, t.decode prev segs (ofBegin segs) = .ok (t.contents x, it) ∧ it.At segs w.bytes.length) ∧
    ∀ segs prev bs, Segmented segs bs → bs <+: w.bytes → bs ≠ w.bytes →
      t.decode prev segs (ofBegin segs) = .error .endOfBuffer

/-- The encoding is shorter than `2^32` bytes, strings and buffer lists inside are shorter than `2^31`
bytes, non-empty lists begin below `2^31`, and an encoding of `2^31` bytes or more does not end with
an empty string or buffer list unless something follows. -/
structure Fits (t : Ty) (x : t.Val Bytes) (rest : Bytes) : Prop where
  length : (t.wire x).length < 2 ^ 32
  light : t.Light x
  low : t.ListsLow x 0
  firm : rest = [] → t.EndsEmpty x → (t.wire x).length < 2 ^ 31

/-- What fits makes the round trip. -/
theorem roundTrips_of_fits (hdvd : page ∣ 2 ^ 31) (hempty : w₀.Empty) (hwf : t.Wf (t.contents x))
    (hfits : t.Fits (t.contents x) rest) : t.RoundTrips page w₀ x rest := by
  have hwrites := t.writes_encode hdvd x
  have hreads := t.reads_decode hwf hfits.light
  obtain ⟨w, hw, hdecode⟩ := ComesBack.of_reads hwrites hempty hfits.length hfits.low hfits.light
    hfits.firm fun prev ↦ (hreads prev).toReturns
  obtain ⟨w', hw', hbytes⟩ := hwrites.into_empty hempty hfits.length hfits.low hfits.light
  obtain rfl := Except.ok.inj (hw.symm.trans hw')
  refine ⟨w, hw, hdecode, fun segs prev bs hsegs hinit hne ↦ ?_⟩
  have hcontent : (medium.content segs).drop 0 = bs := hsegs.flatten
  exact (hreads prev).short hsegs.begin (by rw [hcontent, ← hbytes]; exact hinit)
    (by rw [hcontent, ← hbytes]; exact hne) (by rw [Nat.zero_add]; exact hfits.length)

/-- Only what fits does. -/
theorem fits_of_roundTrips (hdvd : page ∣ 2 ^ 31) (hempty : w₀.Empty) (hwf : t.Wf (t.contents x))
    (hround : t.RoundTrips page w₀ x rest) : t.Fits (t.contents x) rest := by
  have : Nonempty (t.Val Bytes) := ⟨t.fresh⟩
  obtain ⟨w, hw, hdecode, -⟩ := hround
  have hback : ComesBack (t.encode page x) t.decode w₀ rest (t.contents x) := ⟨w, hw, hdecode⟩
  obtain ⟨⟨hlt, hlow, hlight, hfirm⟩, -⟩ := (comesBack_iff (t.writes_encode hdvd x) hempty
    (t.wire_ne_nil _) (fun _ hlight prev ↦ (t.reads_decode hwf hlight prev).toReturns)
    (fun _ hheavy ↦ t.chokes_decode hwf hheavy)).mp hback
  exact ⟨hlt, hlight, hlow, hfirm⟩

/-- **Round trip.** A value comes back, whatever follows it, however the list is cut and whatever the
target held, and an encoding that breaks off ends in `end_of_buffer`, exactly if the value fits. -/
theorem roundTrips_iff_fits (hdvd : page ∣ 2 ^ 31) (hempty : w₀.Empty)
    (hwf : t.Wf (t.contents x)) : t.RoundTrips page w₀ x rest ↔ t.Fits (t.contents x) rest :=
  ⟨fits_of_roundTrips hdvd hempty hwf, roundTrips_of_fits hdvd hempty hwf⟩

/-- The type of the maps from strings to lists. -/
def listMap : Ty := assoc .map string (seq .list (int .int32))

/-- The map with one key. -/
def oneList : listMap.Val Pieces := ([([1], [7#32, 8#32])] : List (Bytes × List (BitVec 32)))

/-- A map from a string to a list makes the round trip. -/
theorem roundTrips_oneList : listMap.RoundTrips 4096 {} oneList [0] := by
  have hwf : listMap.Wf (listMap.contents oneList) := by
    refine ⟨by decide, List.pairwise_singleton _ _, List.forall_mem_singleton.mpr ⟨?_, ?_⟩⟩
    · exact (by decide : 1 < 2 ^ 32)
    · exact ⟨by decide, trivial, fun _ _ ↦ trivial⟩
  have hfits : listMap.Fits (listMap.contents oneList) [0] := by
    refine ⟨by decide, List.forall_mem_singleton.mpr ⟨?_, fun _ _ ↦ trivial⟩, ?_, ?_⟩
    · exact (by decide : 1 < 2 ^ 31)
    · exact ⟨⟨trivial, fun _ _ ↦ by decide, trivial, trivial, trivial⟩, trivial⟩
    · exact fun h ↦ absurd h (by decide)
  exact (roundTrips_iff_fits (by decide) ⟨rfl, rfl⟩ hwf).mpr hfits

/-- A string of `2^31` bytes or more does not come back. -/
theorem not_roundTrips_string {s : Bytes} (hs : 2 ^ 31 ≤ s.length) (hlt : s.length < 2 ^ 32)
    (rest : Bytes) : ¬string.RoundTrips 4096 {} s rest := fun hround ↦
  have hfits : string.Fits s rest := fits_of_roundTrips (by decide) ⟨rfl, rfl⟩ hlt hround
  absurd hfits.light (Nat.not_lt.mpr hs)

/-- **A string of `2^31` bytes is encoded, but it cannot be decoded from one segment.** -/
theorem long_string_does_not_return :
    ¬∀ (t : Ty) (x : t.Val Pieces) (rest : Bytes), t.Wf (t.contents x) →
      t.RoundTrips 4096 {} x rest := by
  intro hall
  have hlen : (List.replicate (2 ^ 31) (0 : UInt8)).length = 2 ^ 31 := List.length_replicate
  have hlt : (List.replicate (2 ^ 31) (0 : UInt8)).length < 2 ^ 32 := by rw [hlen]; decide
  exact not_roundTrips_string hlen.ge hlt [] (hall string _ [] hlt)

end Ty

end AsyncMessenger
