import AsyncMessenger.WireFormat

/-!
# Writing the wire format

An append leaves what the list holds in place: the last segment becomes longer, or segments are added.
So an iterator that is not at the end stays where it is (`Writer.Grows`). A `copy_in` keeps how the list
is cut.

`Writes` says what is known of an encoder. It writes its bytes or it does not return, and it returns if
its strings are light and the patched counts start below `2^31`; `starts` is that condition, given where
the encoder begins.
-/

namespace AsyncMessenger

open Reading Iter Buffer

namespace Writer

/-- The list is larger by `bs`. -/
structure Grows (w w' : Writer) (bs : Bytes) : Prop where
  bytes : w'.bytes = w.bytes ++ bs
  nonempty : (∀ s ∈ w.segs, s ≠ []) → ∀ s ∈ w'.segs, s ≠ []
  at_of : ∀ {it : Iter} {o}, it.At w.segs o → it.p ≠ none → it.At w'.segs o
  lastP : w'.lastP = w.lastP

variable {w w' w'' : Writer} {bs bs' : Bytes}

theorem Grows.refl (w : Writer) : w.Grows w [] where
  bytes := (List.append_nil _).symm
  nonempty h := h
  at_of h _ := h
  lastP := rfl

theorem Grows.trans (h : w.Grows w' bs) (h' : w'.Grows w'' bs') : w.Grows w'' (bs ++ bs') where
  bytes := by rw [h'.bytes, h.bytes, List.append_assoc]
  nonempty hne := h'.nonempty (h.nonempty hne)
  at_of hat hp := h'.at_of (h.at_of hat hp) hp
  lastP := h'.lastP.trans h.lastP

theorem grows_renew (w : Writer) (alen : ℕ) : w.Grows (w.renew alen) [] :=
  ⟨(List.append_nil _).symm, fun h ↦ h, fun h _ ↦ h, rfl⟩

/-- Segments are added. -/
theorem grows_of_segs {more : List Bytes} (hmore : ∀ s ∈ more, s ≠ [])
    (hsegs : w'.segs = w.segs ++ more) (hlast : w'.lastP = w.lastP) : w.Grows w' more.flatten where
  bytes := by rw [Writer.bytes, hsegs, List.flatten_append, Writer.bytes]
  nonempty hne s hs := by
    rw [hsegs] at hs
    exact (List.mem_append.mp hs).elim (hne s) (hmore s)
  at_of hat hp := hsegs ▸ hat.append hp more
  lastP := hlast

theorem grows_addTail (w : Writer) {piece : Bytes} (hpiece : piece ≠ []) :
    w.Grows (w.addTail piece) piece := by
  rw [addTail]
  split
  · next s hjoined hlast =>
    have hsegs : w.segs.dropLast ++ [s] = w.segs := List.dropLast_append_getLast? s hlast
    refine ⟨?_, fun hne t ht ↦ ?_, fun hat hp ↦ ?_, rfl⟩
    · rw [Writer.bytes, Writer.bytes, ← hsegs, List.flatten_append, List.flatten_append,
        List.flatten_singleton, List.flatten_singleton, List.append_assoc, hsegs]
    · rcases List.mem_append.mp ht with ht | ht
      · exact hne t (hsegs ▸ List.mem_append_left _ ht)
      · rw [List.mem_singleton.mp ht]
        exact List.append_ne_nil_of_right_ne_nil _ hpiece
    · rw [← hsegs] at hat
      exact hat.extend hp piece
  · have hmore : ∀ s ∈ [piece], s ≠ [] := fun s hs ↦ List.mem_singleton.mp hs ▸ hpiece
    have hgrows : w.Grows { w with
        segs := w.segs ++ [piece], gap := w.gap - piece.length, joined := true } [piece].flatten :=
      grows_of_segs hmore rfl rfl
    rwa [List.flatten_singleton] at hgrows

theorem grows_appendList (w : Writer) (l : Pieces) : w.Grows (w.appendList l) l.bytes :=
  grows_of_segs l.nonempty rfl rfl

section Append

variable {page : ℕ}

theorem appendLoop_succ {data : Bytes} (hdata : data ≠ []) (fuel : ℕ) (w : Writer) :
    appendLoop page (fuel + 1) w data =
      if data.drop (min w.gap data.length) = [] then
        .ok (if 0 < min w.gap data.length then w.addTail (data.take (min w.gap data.length)) else w)
      else
        appendLoop page fuel
          ((if 0 < min w.gap data.length then w.addTail (data.take (min w.gap data.length))
            else w).renew
            (BufferList.appendLength page (data.drop (min w.gap data.length)).length))
          (data.drop (min w.gap data.length)) := by
  cases data with
  | nil => exact absurd rfl hdata
  | cons b data => rfl

/-- What is put into the rest of the `append_buffer`. -/
theorem grows_fill {data : Bytes} (hdata : data ≠ []) (w : Writer) :
    w.Grows (if 0 < min w.gap data.length then w.addTail (data.take (min w.gap data.length)) else w)
      (data.take (min w.gap data.length)) := by
  by_cases hgap : 0 < min w.gap data.length
  · rw [if_pos hgap]
    refine w.grows_addTail fun hnil ↦ ?_
    rcases List.take_eq_nil_iff.mp hnil with hzero | hnil
    · omega
    · exact hdata hnil
  · rw [if_neg hgap, Nat.eq_zero_of_not_pos hgap, List.take_zero]
    exact Grows.refl w

/-- If the loop ends, the data are in the list. -/
theorem grows_appendLoop {fuel : ℕ} {data : Bytes} (h : appendLoop page fuel w data = .ok w') :
    w.Grows w' data := by
  induction fuel generalizing w data with
  | zero =>
    cases data with
    | nil => exact Except.ok.inj h ▸ Grows.refl w
    | cons b data => exact absurd h (by rintro ⟨⟩)
  | succ fuel ih =>
    by_cases hdata : data = []
    · subst hdata
      exact Except.ok.inj h ▸ Grows.refl w
    · rw [appendLoop_succ hdata] at h
      have hfill := grows_fill hdata w
      have hsplit := List.take_append_drop (min w.gap data.length) data
      by_cases hrest : data.drop (min w.gap data.length) = []
      · rw [if_pos hrest] at h
        rw [hrest, List.append_nil] at hsplit
        rw [hsplit] at hfill h
        exact Except.ok.inj h ▸ hfill
      · rw [if_neg hrest] at h
        have hall := (hfill.trans (grows_renew _ _)).trans (ih h)
        rwa [List.append_nil, hsplit] at hall

/-- The data fit into the `append_buffer`: one round. -/
theorem appendLoop_of_fits {data : Bytes} (hdata : data ≠ []) (fuel : ℕ)
    (hfits : data.length ≤ w.gap) : appendLoop page (fuel + 1) w data = .ok (w.addTail data) := by
  have hpos : 0 < data.length := List.length_pos_of_ne_nil hdata
  rw [appendLoop_succ hdata, Nat.min_eq_right hfits, List.drop_length, if_pos rfl, if_pos hpos,
    List.take_length]

/-- Fewer than `2^31` bytes are appended after at most two rounds. -/
theorem append_ok (hdvd : page ∣ 2 ^ 31) {data : Bytes} (hlt : data.length < 2 ^ 31) (w : Writer) :
    ∃ w', w.append page data = .ok w' := by
  by_cases hdata : data = []
  · exact ⟨w, by rw [append, hdata, appendLoop]⟩
  · rw [append, appendLoop_succ hdata]
    by_cases hrest : data.drop (min w.gap data.length) = []
    · exact ⟨_, if_pos hrest⟩
    · rw [if_neg hrest]
      have hle : page ≤ 2 ^ 31 := Nat.le_of_dvd (by decide) hdvd
      have hpos : 0 < (data.drop (min w.gap data.length)).length := List.length_pos_of_ne_nil hrest
      have hdrop : (data.drop (min w.gap data.length)).length ≤ data.length := by
        rw [List.length_drop]
        omega
      -- The new buffer has room for all that is left.
      have hroom : (data.drop (min w.gap data.length)).length ≤
          BufferList.appendLength page (data.drop (min w.gap data.length)).length := by
        rcases BufferList.appendLength_cases (Nat.pos_of_dvd_of_pos hdvd (by decide))
          (hdvd.trans ⟨2, rfl⟩) hpos (by omega) with hcase | hcase
        · exact hcase.2
        · omega
      exact ⟨_, appendLoop_of_fits hrest data.length hroom⟩

end Append

/-! ## Patching

`copy_in` with `last_p`, as the counts of lists and of structures are filled in. It can be brought
to any offset below `2^31`. -/

/-- What holds of a list while it is written. -/
structure Valid (w : Writer) : Prop where
  nonempty : ∀ s ∈ w.segs, s ≠ []
  lastP : w.lastP.p = none ∨ ∃ o, w.lastP.At w.segs o
  behind : w.lastP.off.toNat = 0 ∨ w.lastP.off.toNat < w.bytes.length

theorem Grows.valid (h : w.Grows w' bs) (hw : w.Valid) : w'.Valid where
  nonempty := h.nonempty hw.nonempty
  lastP := by
    rw [h.lastP]
    by_cases hp : w.lastP.p = none
    · exact .inl hp
    · obtain ⟨o, hat⟩ := hw.lastP.resolve_left hp
      exact .inr ⟨o, h.at_of hat hp⟩
  behind := by
    rw [h.lastP, h.bytes, List.length_append]
    rcases hw.behind with hzero | hlt
    · exact .inl hzero
    · exact .inr (by omega)

/-- `copy_in` keeps how the list is cut, however it is called. -/
theorem sameShape_copyIn {off : ℕ} {src : Bytes} (h : w.copyIn off src = .ok w') :
    SameShape w.segs w'.segs := by
  rw [copyIn] at h
  by_cases hguard : w.length < (off + src.length) % 2 ^ 32
  · rw [if_pos hguard] at h
    exact absurd h (by rintro ⟨⟩)
  · rw [if_neg hguard] at h
    cases hposition : w.position off with
    | error e =>
      rw [hposition] at h
      exact absurd h (by rintro ⟨⟩)
    | ok it =>
      rw [hposition, Except.bind, Iter.copyIn] at h
      cases hresume : it.resume w.segs with
      | error e =>
        rw [hresume] at h
        exact absurd h (by rintro ⟨⟩)
      | ok it' =>
        rw [hresume, Except.bind] at h
        cases hloop : copyInLoop src.length src w.segs it' with
        | error e =>
          rw [hloop] at h
          exact absurd h (by rintro ⟨⟩)
        | ok r =>
          rw [hloop] at h
          exact Except.ok.inj h ▸ sameShape_copyInLoop hloop

/-- `last_p` can be brought to an offset below `2^31`. -/
theorem Valid.position (hw : w.Valid) {off : ℕ} (hlt : off < w.bytes.length) (hoff : off < 2 ^ 31) :
    ∃ it it', w.position off = .ok it ∧ it.resume w.segs = .ok it' ∧ it'.At w.segs off := by
  have hnat : (UInt32.ofNat off).toNat = off := by
    rw [UInt32.toNat_ofNat', Nat.mod_eq_of_lt (by omega)]
  have hle : (UInt32.ofNat off).toNat ≤ w.segs.flatten.length := hnat.symm ▸ hlt.le
  obtain ⟨it, hseek, hat⟩ := seek_eq hw.nonempty hle (hnat.symm ▸ hoff)
  rw [hnat] at hat
  by_cases hsame : w.lastP.off.toNat ≠ off
  · obtain ⟨it', hresume, hat'⟩ := hat.resume hw.nonempty fun _ ↦ hoff
    exact ⟨it, it', by rw [Writer.position, if_pos hsame, hseek], hresume, hat'⟩
  · have hoffset : w.lastP.off = .ofNat off := by
      rw [← UInt32.toNat_inj, hnat]
      exact not_not.mp hsame
    by_cases hp : w.lastP.p = none
    · exact ⟨w.lastP, it, if_neg hsame, by rw [Iter.resume, if_pos hp, hoffset, hseek], hat⟩
    · obtain ⟨o, hlast⟩ := hw.lastP.resolve_left hp
      have ho : o = off := hlast.off_eq.symm.trans (not_not.mp hsame)
      exact ⟨w.lastP, w.lastP, if_neg hsame, if_neg hp, ho ▸ hlast⟩

/-- A patch below `2^31` replaces the bytes. -/
theorem Valid.copyIn (hw : w.Valid) {off : ℕ} {src : Bytes} (hsrc : src ≠ [])
    (hle : off + src.length ≤ w.bytes.length) (hlen : w.bytes.length < 2 ^ 32)
    (hsmall : src.length < 2 ^ 31) (hoff : off < 2 ^ 31) :
    ∃ w', w.copyIn off src = .ok w' ∧ w'.bytes = patch w.bytes off src ∧
      SameShape w.segs w'.segs ∧ w'.lastP.At w'.segs (off + src.length) := by
  have hpos : 0 < src.length := List.length_pos_of_ne_nil hsrc
  obtain ⟨it, it', hposition, hresume, hat⟩ := hw.position (by omega) hoff
  obtain ⟨segs', it'', hcopy, hpatch, hat'⟩ := hat.copyInLoop hw.nonempty (Nat.le_refl _) hle
    (by omega) hsmall
  have hguard : ¬w.length < (off + src.length) % 2 ^ 32 := by
    rw [Writer.length, Nat.mod_eq_of_lt hlen]
    omega
  refine ⟨{ w with segs := segs', lastP := it'' }, ?_, hpatch, sameShape_copyInLoop hcopy, hat'⟩
  rw [Writer.copyIn, if_neg hguard, hposition, Except.bind, Iter.copyIn, hresume, Except.bind,
    hcopy]
  rfl

/-- A patch from `2^31` on throws, unless `last_p` is there. -/
theorem Valid.copyIn_error (hw : w.Valid) {off : ℕ} (src : Bytes) (hoff : 2 ^ 31 ≤ off)
    (hlt : off < 2 ^ 32) (hlast : w.lastP.off.toNat ≠ off) :
    w.copyIn off src = .error .endOfBuffer := by
  have hnat : (UInt32.ofNat off).toNat = off := by rw [UInt32.toNat_ofNat', Nat.mod_eq_of_lt hlt]
  have hseek : Iter.seek w.segs (.ofNat off) = .error .endOfBuffer :=
    seek_error hw.nonempty (hnat.symm ▸ hoff)
  rw [Writer.copyIn]
  by_cases hguard : w.length < (off + src.length) % 2 ^ 32
  · exact if_pos hguard
  · rw [if_neg hguard, Writer.position, if_pos hlast, hseek]
    rfl

end Writer

/-! ## Encoders

`Writes` composes: an encoder after another one writes both texts, and it starts if the first one
starts and the second one starts where that has ended. -/

/-- What an encoder has done to a list: `last_p` is where it was, or behind the first four bytes of what
has been written. -/
structure Wrote (w w' : Writer) (bs : Bytes) : Prop where
  bytes : w'.bytes = w.bytes ++ bs
  valid : w'.Valid
  at_of : ∀ {it : Iter} {o}, it.At w.segs o → it.p ≠ none → it.At w'.segs o
  lastP : w'.lastP = w.lastP ∨ w.bytes.length + 4 ≤ w'.lastP.off.toNat

/-- What is known of an encoder. -/
structure Writes (m : Writer → Except Stop Writer) (bs : Bytes) (starts : ℕ → Prop) (light : Prop) :
    Prop where
  length : ∀ {w w'}, m w = .ok w' → w'.bytes.length = w.bytes.length + bs.length
  wrote : ∀ {w w'}, w.Valid → w.bytes.length + bs.length < 2 ^ 32 → m w = .ok w' →
    Wrote w w' bs ∧ starts w.bytes.length
  ok : ∀ {w}, w.Valid → w.bytes.length + bs.length < 2 ^ 32 → starts w.bytes.length → light →
    ∃ w', m w = .ok w'

section Writes

variable {m m' : Writer → Except Stop Writer} {bs bs' : Bytes} {starts starts' : ℕ → Prop}
  {light light' : Prop} {w w' w'' : Writer}

theorem Writer.Grows.wrote (h : w.Grows w' bs) (hw : w.Valid) : Wrote w w' bs :=
  ⟨h.bytes, h.valid hw, h.at_of, .inl h.lastP⟩

theorem Wrote.trans (h : Wrote w w' bs) (h' : Wrote w' w'' bs') : Wrote w w'' (bs ++ bs') where
  bytes := by rw [h'.bytes, h.bytes, List.append_assoc]
  valid := h'.valid
  at_of hat hp := h'.at_of (h.at_of hat hp) hp
  lastP := by
    have hlen := congrArg List.length h.bytes
    rw [List.length_append] at hlen
    rcases h'.lastP with hsame | hlater
    · exact hsame ▸ h.lastP
    · exact .inr (by omega)

theorem Writes.of_iff (hm : Writes m bs starts light) (hstarts : ∀ o, starts o ↔ starts' o)
    (hlight : light ↔ light') : Writes m bs starts' light' := by
  obtain rfl : starts = starts' := funext fun o ↦ propext (hstarts o)
  exact propext hlight ▸ hm

/-- An encoder that only appends. -/
theorem Writes.of_grows (hgrows : ∀ {w w'}, m w = .ok w' → w.Grows w' bs)
    (hok : light → ∀ w, ∃ w', m w = .ok w') : Writes m bs (fun _ ↦ True) light where
  length h := by rw [(hgrows h).bytes, List.length_append]
  wrote hw _ h := ⟨(hgrows h).wrote hw, trivial⟩
  ok _ _ _ hlight := hok hlight _

theorem Writes.nothing : Writes .ok [] (fun _ ↦ True) True :=
  .of_grows (fun h ↦ Except.ok.inj h ▸ Writer.Grows.refl _) fun _ w ↦ ⟨w, rfl⟩

/-- One encoder after the other. -/
theorem Writes.andThen (hm : Writes m bs starts light) (hm' : Writes m' bs' starts' light') :
    Writes (fun w ↦ (m w).bind m') (bs ++ bs') (fun o ↦ starts o ∧ starts' (o + bs.length))
      (light ∧ light') where
  length {w w''} h := by
    cases hw : m w with
    | error e =>
      rw [hw] at h
      exact absurd h (by rintro ⟨⟩)
    | ok w' =>
      rw [hw] at h
      rw [hm'.length h, hm.length hw, List.length_append, Nat.add_assoc]
  wrote {w w''} hvalid hlen h := by
    rw [List.length_append, ← Nat.add_assoc] at hlen
    cases hw : m w with
    | error e =>
      rw [hw] at h
      exact absurd h (by rintro ⟨⟩)
    | ok w' =>
      rw [hw] at h
      obtain ⟨hwrote, hstarts⟩ := hm.wrote hvalid (by omega) hw
      have hlen' := hm.length hw
      obtain ⟨hwrote', hstarts'⟩ := hm'.wrote hwrote.valid (by omega) h
      exact ⟨hwrote.trans hwrote', hstarts, hlen' ▸ hstarts'⟩
  ok {w} hvalid hlen hstarts hlight := by
    rw [List.length_append, ← Nat.add_assoc] at hlen
    obtain ⟨w', hw⟩ := hm.ok hvalid (by omega) hstarts.1 hlight.1
    have hlen' := hm.length hw
    obtain ⟨w'', hw'⟩ := hm'.ok (hm.wrote hvalid (by omega) hw).1.valid (by omega)
      (hlen'.symm ▸ hstarts.2) hlight.2
    exact ⟨w'', by rw [hw]; exact hw'⟩

/-! ### The members of the family

One lemma for each kind of encoder of the code. All of them come together in `Ty.writes_encode`, by
induction on the type. -/

variable {page : ℕ} (hdvd : page ∣ 2 ^ 31)
include hdvd

theorem writes_append (data : Bytes) :
    Writes (Writer.append page data) data (fun _ ↦ True) (data.length < 2 ^ 31) :=
  .of_grows Writer.grows_appendLoop fun hlt w ↦ w.append_ok hdvd hlt

theorem writes_encodeInt (width n : ℕ) (hwidth : width < 2 ^ 31) :
    Writes (encodeInt page width n) (LittleEndian.encode width n) (fun _ ↦ True) True :=
  (writes_append hdvd _).of_iff (fun _ ↦ Iff.rfl)
    (iff_true_intro (by rw [LittleEndian.length_encode]; exact hwidth))

theorem writes_u32 (n : ℕ) : Writes (encodeInt page 4 n) (u32 n) (fun _ ↦ True) True :=
  writes_encodeInt hdvd 4 n (by decide)

theorem writes_encodeString (s : Bytes) :
    Writes (encodeString page s) (wireBytes s) (fun _ ↦ True) (s.length < 2 ^ 31) :=
  ((writes_u32 hdvd s.length).andThen (writes_append hdvd s)).of_iff (fun _ ↦ and_self_iff)
    (iff_of_eq (true_and _))

theorem writes_encodeBufferlist (l : Pieces) :
    Writes (encodeBufferlist page l) (wireBytes l.bytes) (fun _ ↦ True) (l.bytes.length < 2 ^ 31) := by
  have happend : Writes (fun w ↦ .ok (w.appendList l)) l.bytes (fun _ ↦ True)
      (l.bytes.length < 2 ^ 31) :=
    .of_grows (fun h ↦ Except.ok.inj h ▸ Writer.grows_appendList _ l) fun _ w ↦ ⟨_, rfl⟩
  exact ((writes_u32 hdvd l.bytes.length).andThen happend).of_iff (fun _ ↦ and_self_iff)
    (iff_of_eq (true_and _))

section Containers

omit hdvd

variable {α β : Type} {encode : α → Writer → Except Stop Writer} {wire : α → Bytes}
  {low : α → ℕ → Prop} {lightOf : α → Prop}

/-- The elements are written one after the other. -/
theorem writes_encodeEach (xs : List α)
    (hencode : AllOf (fun x ↦ Writes (encode x) (wire x) (low x) (lightOf x)) xs) :
    Writes (encodeEach encode xs) (xs.flatMap wire) (EachAt low wire xs) (AllOf lightOf xs) := by
  induction xs with
  | nil =>
    exact (Writes.nothing).of_iff (fun _ ↦ Iff.rfl)
      (iff_of_true trivial fun x hx ↦ absurd hx List.not_mem_nil)
  | cons x xs ih =>
    have hrest := ih fun y hy ↦ hencode y (List.mem_cons_of_mem x hy)
    exact ((hencode x List.mem_cons_self).andThen hrest).of_iff (fun _ ↦ Iff.rfl)
      List.forall_mem_cons.symm

include hdvd

theorem writes_encodeSized (xs : List α)
    (hencode : AllOf (fun x ↦ Writes (encode x) (wire x) (low x) (lightOf x)) xs) :
    Writes (encodeSized page encode xs) (wireSized wire xs) (fun o ↦ EachAt low wire xs (o + 4))
      (AllOf lightOf xs) :=
  ((writes_u32 hdvd xs.length).andThen (writes_encodeEach xs hencode)).of_iff
    (fun o ↦ by rw [length_u32, true_and]) (iff_of_eq (true_and _))

/-- What precedes the patch of a `std::list`: four bytes for the count, and the elements. -/
theorem writes_unpatched (xs : List α)
    (hencode : AllOf (fun x ↦ Writes (encode x) (wire x) (low x) (lightOf x)) xs) :
    Writes (fun w ↦ (encodeInt page 4 0 w).bind (encodeEach encode xs)) (u32 0 ++ xs.flatMap wire)
      (fun o ↦ EachAt low wire xs (o + 4)) (AllOf lightOf xs) :=
  ((writes_u32 hdvd 0).andThen (writes_encodeEach xs hencode)).of_iff
    (fun o ↦ by rw [length_u32, true_and]) (iff_of_eq (true_and _))

omit hdvd in
theorem encodeList_eq (xs : List α) (hxs : xs ≠ []) (w : Writer) :
    encodeList page encode xs w = ((encodeInt page 4 0 w).bind (encodeEach encode xs)).bind fun w' ↦
      w'.copyIn w.length (u32 xs.length) := by
  rw [encodeList, if_neg hxs]
  cases encodeInt page 4 0 w <;> rfl

omit hdvd in
/-- **The count of a `std::list` can be patched exactly if it is below `2^31`.** -/
theorem patch_count {n : ℕ} {elems : Bytes} (hw : w.Valid) (hwrote : Wrote w w' (u32 0 ++ elems))
    (helems : elems ≠ []) (hlen : w'.bytes.length < 2 ^ 32) :
    (w.bytes.length < 2 ^ 31 → ∃ w'', w'.copyIn w.length (u32 n) = .ok w'') ∧
      ∀ w'', w'.copyIn w.length (u32 n) = .ok w'' →
        Wrote w w'' (u32 n ++ elems) ∧ w.bytes.length < 2 ^ 31 := by
  have hpos : 0 < elems.length := List.length_pos_of_ne_nil helems
  have htotal : w'.bytes.length = w.bytes.length + 4 + elems.length := by
    rw [hwrote.bytes, List.length_append, List.length_append, length_u32, Nat.add_assoc]
  have hoff : w.length = w.bytes.length := Nat.mod_eq_of_lt (by omega)
  rw [hoff]
  -- Below `2^31` the patch is made.
  have hpatch (hlow : w.bytes.length < 2 ^ 31) :
      ∃ w'', w'.copyIn w.bytes.length (u32 n) = .ok w'' ∧ Wrote w w'' (u32 n ++ elems) := by
    obtain ⟨w'', hcopy, hbytes, hshape, hat⟩ := hwrote.valid.copyIn (u32_ne_nil n)
      (by rw [length_u32]; omega) hlen (by rw [length_u32]; omega) hlow
    have hcount : (u32 0).length = (u32 n).length := by simp
    have hmiddle := patch_middle w.bytes (u32 0) elems hcount
    have hbytes' : w''.bytes = w.bytes ++ (u32 n ++ elems) := by
      rw [hbytes, hwrote.bytes, ← List.append_assoc, hmiddle, List.append_assoc]
    rw [length_u32] at hat
    refine ⟨w'', hcopy, hbytes', ⟨hshape.nonempty hwrote.valid.nonempty, .inr ⟨_, hat⟩, .inr ?_⟩,
      fun hat hp ↦ (hwrote.at_of hat hp).of_shape hshape, .inr hat.off_eq.ge⟩
    rw [hat.off_eq, hbytes', List.length_append, List.length_append, length_u32]
    omega
  refine ⟨fun hlow ↦ ⟨_, (hpatch hlow).choose_spec.1⟩, fun w'' hcopy ↦ ?_⟩
  by_cases hlow : w.bytes.length < 2 ^ 31
  · obtain ⟨w₁, hcopy₁, hwrote₁⟩ := hpatch hlow
    obtain rfl : w₁ = w'' := Except.ok.inj (hcopy₁.symm.trans hcopy)
    exact ⟨hwrote₁, hlow⟩
  · -- `last_p` is before or behind the count, so it has to seek.
    have hlast : w'.lastP.off.toNat ≠ w.bytes.length := by
      rcases hwrote.lastP with hsame | hlater
      · rw [hsame]
        rcases hw.behind with hzero | hlt <;> omega
      · omega
    rw [hwrote.valid.copyIn_error (u32 n) (Nat.not_lt.mp hlow) (by omega) hlast] at hcopy
    exact absurd hcopy (by rintro ⟨⟩)

/-- A `std::list` is written if its elements are, and if its count is below `2^31`. -/
theorem writes_encodeList (xs : List α) (hne : AllOf (fun x ↦ wire x ≠ []) xs)
    (hencode : AllOf (fun x ↦ Writes (encode x) (wire x) (low x) (lightOf x)) xs) :
    Writes (encodeList page encode xs) (wireSized wire xs)
      (fun o ↦ (xs ≠ [] → o < 2 ^ 31) ∧ EachAt low wire xs (o + 4)) (AllOf lightOf xs) := by
  by_cases hxs : xs = []
  · have hsized := writes_encodeSized hdvd xs hencode
    have heq : encodeList page encode xs = encodeSized page encode xs :=
      funext fun w ↦ if_pos hxs
    rw [heq]
    exact hsized.of_iff (fun o ↦ (and_iff_right fun hne ↦ absurd hxs hne).symm) Iff.rfl
  · have hunpatched := writes_unpatched hdvd xs hencode
    have helems : xs.flatMap wire ≠ [] := by
      obtain ⟨x, ys, rfl⟩ := List.exists_cons_of_ne_nil hxs
      exact List.append_ne_nil_of_left_ne_nil (hne x List.mem_cons_self) _
    have hsame : (u32 0 ++ xs.flatMap wire).length = (wireSized wire xs).length := by
      simp [wireSized]
    refine ⟨fun {w w''} h ↦ ?_, fun {w w''} hvalid hlen h ↦ ?_, fun {w} hvalid hlen hstarts hlight ↦ ?_⟩
    · rw [encodeList_eq xs hxs] at h
      cases hw : (encodeInt page 4 0 w).bind (encodeEach encode xs) with
      | error e =>
        rw [hw] at h
        exact absurd h (by rintro ⟨⟩)
      | ok w' =>
        rw [hw] at h
        rw [← hsame, ← hunpatched.length hw]
        exact (Writer.sameShape_copyIn h).length_flatten
    · rw [encodeList_eq xs hxs] at h
      rw [← hsame] at hlen
      cases hw : (encodeInt page 4 0 w).bind (encodeEach encode xs) with
      | error e =>
        rw [hw] at h
        exact absurd h (by rintro ⟨⟩)
      | ok w' =>
        rw [hw] at h
        obtain ⟨hwrote, hstarts⟩ := hunpatched.wrote hvalid hlen hw
        obtain ⟨hpatched, hlow⟩ := (patch_count hvalid hwrote helems
          (by rw [hunpatched.length hw]; exact hlen)).2 w'' h
        exact ⟨hpatched, fun _ ↦ hlow, hstarts⟩
    · rw [← hsame] at hlen
      obtain ⟨w', hw⟩ := hunpatched.ok hvalid hlen hstarts.2 hlight
      obtain ⟨hwrote, -⟩ := hunpatched.wrote hvalid hlen hw
      obtain ⟨w'', hcopy⟩ := (patch_count hvalid hwrote helems
        (by rw [hunpatched.length hw]; exact hlen)).1 (hstarts.1 hxs)
      exact ⟨w'', by rw [encodeList_eq xs hxs, hw]; exact hcopy⟩

end Containers

section Types

omit hdvd

theorem wireSized_map {α β : Type} (f : α → β) (wire : β → Bytes) (xs : List α) :
    wireSized wire (xs.map f) = wireSized (fun x ↦ wire (f x)) xs := by
  rw [wireSized, wireSized, List.length_map, List.flatMap_map]

theorem eachAt_map {α β : Type} (f : α → β) (P : β → ℕ → Prop) (wire : β → Bytes) (xs : List α)
    (o : ℕ) : EachAt P wire (xs.map f) o ↔ EachAt (fun x ↦ P (f x)) (fun x ↦ wire (f x)) xs o := by
  induction xs generalizing o with
  | nil => exact Iff.rfl
  | cons x xs ih => exact and_congr_right fun _ ↦ ih _

theorem allOf_map {α β : Type} (f : α → β) (P : β → Prop) (xs : List α) :
    AllOf P (xs.map f) ↔ AllOf (fun x ↦ P (f x)) xs :=
  List.forall_mem_map

include hdvd

/-- **Every encoder writes the wire format.** -/
theorem Ty.writes_encode (t : Ty) (x : t.Val Pieces) :
    Writes (t.encode page x) (t.wire (t.contents x)) (t.ListsLow (t.contents x))
      (t.Light (t.contents x)) := by
  induction t with
  | int k => exact writes_encodeInt hdvd k.width (BitVec.toNat x) (by cases k <;> decide)
  | bool => exact writes_encodeInt hdvd 1 (Bool.toNat x) (by decide)
  | string => exact writes_encodeString hdvd x
  | bufferlist => exact writes_encodeBufferlist hdvd x
  | pair a b iha ihb => exact (iha x.1).andThen (ihb x.2)
  | seq c t ih =>
    have hne : AllOf (fun y ↦ t.wire (t.contents y) ≠ []) x := fun y _ ↦ t.wire_ne_nil _
    have heach : AllOf (fun y ↦ Writes (t.encode page y) (t.wire (t.contents y))
      (t.ListsLow (t.contents y)) (t.Light (t.contents y))) x := fun y _ ↦ ih y
    have hwire := wireSized_map t.contents t.wire x
    have hlight := (allOf_map t.contents t.Light x).symm
    have hlow (o : ℕ) := (eachAt_map t.contents t.ListsLow t.wire x o).symm
    change Writes _ (wireSized t.wire (List.map t.contents x)) _ _
    rw [hwire]
    by_cases hc : c = .list
    · subst hc
      refine (writes_encodeList hdvd x hne heach).of_iff (fun o ↦ and_congr ?_ (hlow _)) hlight
      exact ⟨fun h _ hx ↦ h fun hnil ↦ hx (hnil ▸ rfl), fun h hx ↦ h rfl fun hnil ↦
        hx (List.map_eq_nil_iff.mp hnil)⟩
    · have heq : (seq c t).encode page x = encodeSized page (t.encode page) x := by
        cases c <;> first | rfl | exact absurd rfl hc
      rw [heq]
      exact (writes_encodeSized hdvd x heach).of_iff
        (fun o ↦ (hlow _).trans (and_iff_right fun h ↦ absurd h hc).symm) hlight
  | assoc c k v ihk ihv =>
    have heach : AllOf (fun e ↦ Writes (fun w ↦ (k.encode page e.1 w).bind (v.encode page e.2))
      (wirePair k.wire v.wire (k.contents e.1, v.contents e.2))
      (BothAt k.ListsLow v.ListsLow k.wire (k.contents e.1, v.contents e.2))
      (BothOf k.Light v.Light (k.contents e.1, v.contents e.2))) x :=
      fun e _ ↦ (ihk e.1).andThen (ihv e.2)
    have hwire := wireSized_map (fun e ↦ (k.contents e.1, v.contents e.2))
      (wirePair k.wire v.wire) x
    have hlight := (allOf_map (fun e ↦ (k.contents e.1, v.contents e.2)) (BothOf k.Light v.Light)
      x).symm
    have hlow (o : ℕ) := (eachAt_map (fun e ↦ (k.contents e.1, v.contents e.2))
      (BothAt k.ListsLow v.ListsLow k.wire) (wirePair k.wire v.wire) x o).symm
    change Writes _ (wireSized (wirePair k.wire v.wire)
      (List.map (fun e ↦ (k.contents e.1, v.contents e.2)) x)) _ _
    rw [hwire]
    exact (writes_encodeSized hdvd x heach).of_iff (fun o ↦ hlow _) hlight

end Types

end Writes

end AsyncMessenger
