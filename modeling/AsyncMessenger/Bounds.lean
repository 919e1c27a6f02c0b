import AsyncMessenger.Cursor

/-!
# The checks at the end of a list

`substr_of`, `copy`, `copy_in` and `get_contiguous` check their arguments with `off + len > length()`. The
sum is 32 bits wide, so arguments that go far beyond the end pass the check when it overflows. The copies
then throw at the end of the list after they have copied what there is, unless they cannot even seek; the
other two go on with bytes that are not there. `splice` has no such check: it takes what there is, but in
the segment where it begins it adds the place and the length, and that sum may overflow as well.

The copies have a second limit. An iterator moves by an `int`: from `2^31` on it can neither seek an
offset nor pass a piece of a segment, and throws on bytes that are there.

## The exact condition

For each of the functions the condition is exact: where it fails, the function does something else
than throw, or throws on bytes that are there. The conditions are put together in
`bounds_exact_iff`. A cursor that is stale is left out of it, since what a call does with one has
been told before.
-/

namespace AsyncMessenger

open Buffer

namespace BufferList

variable (alloc : Allocator)

/-- `get_contiguous`: the memory, the list, and the address or how it has failed. -/
def getContiguous (h : Heap) (l : BufferList) (off len : ℕ) :
    (Heap × BufferList) × Except Halt (Option (Option ℕ × ℕ)) :=
  if l.len < add32 off len then ((h, l), .error .endOfBuffer)
  else if len = 0 then ((h, l), .ok none)
  else
    match skip .stray l.buffers off with
    | .error e => ((h, l), .error e)
    | .ok (_, [], _) => ((h, l), .error .stray)
    | .ok (_, p :: _, o) =>
      if p.len < add32 o len then
        match rebuild alloc h l with
        | none => ((h, l), .error .assertion)
        | some x =>
          let front := x.2.buffers.headD {}
          (x, .ok (some (front.raw, front.off + off)))
      else ((h, l), .ok (some (p.raw, p.off + o)))

/-- `substr_of` throws if and only if the part goes beyond the end, and then the list is as before. -/
def SubstrExact (a b : BufferList) (off len : ℕ) : Prop :=
  ((a.substrOf b off len).2 = some .endOfBuffer ↔ b.len < off + len) ∧
    ((a.substrOf b off len).2 = some .endOfBuffer → (a.substrOf b off len).1 = a)

/-- The same for `get_contiguous`. -/
def ContiguousExact (h : Heap) (l : BufferList) (off len : ℕ) : Prop :=
  ((getContiguous alloc h l off len).2 = .error .endOfBuffer ↔ l.len < off + len) ∧
    ((getContiguous alloc h l off len).2 = .error .endOfBuffer →
      (getContiguous alloc h l off len).1 = (h, l))

/-- `splice` removes the part, up to the end of the list. -/
def SpliceExact (h : Heap) (l : BufferList) (off len : ℕ) (claimBy : Option BufferList) : Prop :=
  ∃ l' c', l.splice off len claimBy = .ok (l', c') ∧
    l'.contents h = (l.contents h).take off ++ (l.contents h).drop (min (off + len) l.len)

/-- The check sees that the part goes beyond the end. -/
def Fits (length off len : ℕ) : Prop := off + len < 2 ^ 32 ∨ length < off + len - 2 ^ 32

instance {length off len : ℕ} : Decidable (Fits length off len) := inferInstanceAs (Decidable (_ ∨ _))

variable {alloc} {h : Heap} {used : ℕ → ℕ} {a b l : BufferList} {ps : List Ptr} {off len : ℕ}

theorem lt_add32_iff (hl : l.len < 2 ^ 32) (hoff : off < 2 ^ 32) (hlen : len < 2 ^ 32) :
    (l.len < add32 off len ↔ l.len < off + len) ↔ Fits l.len off len := by
  rw [Fits, add32]
  omega

/-! ## `substr_of` and `get_contiguous` -/

theorem skip_error (past e : Halt) (h : skip past ps off = .error e) : e = past := by
  induction ps generalizing off with
  | nil =>
    rw [skip] at h
    split_ifs at h
    exact (Except.error.inj h).symm
  | cons p ps ih =>
    rw [skip] at h
    split_ifs at h with hskip
    cases hrest : skip past ps (off - p.len) with
    | ok x =>
      rw [hrest] at h
      cases h
    | error e' =>
      rw [hrest] at h
      cases h
      exact ih hrest

theorem takeParts_ne : (takeParts ps off len a).2 ≠ some .endOfBuffer := by
  induction ps generalizing off len a with
  | nil =>
    rw [takeParts]
    split_ifs <;> rintro ⟨⟩
  | cons p ps ih =>
    rw [takeParts]
    split_ifs
    · rintro ⟨⟩
    · split <;> rintro ⟨⟩
    · split
      · rintro ⟨⟩
      · exact ih

/-- The check is the only place where `substr_of` throws. -/
theorem substrOf_throws (a b : BufferList) (off len : ℕ) :
    ((a.substrOf b off len).2 = some .endOfBuffer ↔ b.len < add32 off len) ∧
      ((a.substrOf b off len).2 = some .endOfBuffer → (a.substrOf b off len).1 = a) := by
  rw [substrOf]
  by_cases hcheck : b.len < add32 off len
  · rw [if_pos hcheck]
    exact ⟨⟨fun _ ↦ hcheck, fun _ ↦ rfl⟩, fun _ ↦ rfl⟩
  rw [if_neg hcheck]
  cases hskip : skip .stray b.buffers off with
  | error e =>
    obtain rfl := skip_error _ _ hskip
    exact ⟨⟨by rintro ⟨⟩, fun hlt ↦ absurd hlt hcheck⟩, by rintro ⟨⟩⟩
  | ok x =>
    dsimp only
    split_ifs
    · exact ⟨⟨by rintro ⟨⟩, fun hlt ↦ absurd hlt hcheck⟩, by rintro ⟨⟩⟩
    · exact ⟨⟨fun hthrow ↦ absurd hthrow takeParts_ne, fun hlt ↦ absurd hlt hcheck⟩,
        fun hthrow ↦ absurd hthrow takeParts_ne⟩

theorem substrExact_iff (a : BufferList) (hb : b.len < 2 ^ 32) (hoff : off < 2 ^ 32)
    (hlen : len < 2 ^ 32) : a.SubstrExact b off len ↔ Fits b.len off len := by
  obtain ⟨hthrows, hsame⟩ := substrOf_throws a b off len
  rw [SubstrExact, hthrows, ← lt_add32_iff hb hoff hlen]
  exact ⟨And.left, fun hiff ↦ ⟨hiff, fun hlt ↦ hsame (hthrows.mpr hlt)⟩⟩

theorem getContiguous_throws (alloc : Allocator) (h : Heap) (l : BufferList) (off len : ℕ) :
    ((getContiguous alloc h l off len).2 = .error .endOfBuffer ↔ l.len < add32 off len) ∧
      ((getContiguous alloc h l off len).2 = .error .endOfBuffer →
        (getContiguous alloc h l off len).1 = (h, l)) := by
  rw [getContiguous]
  by_cases hcheck : l.len < add32 off len
  · rw [if_pos hcheck]
    exact ⟨⟨fun _ ↦ hcheck, fun _ ↦ rfl⟩, fun _ ↦ rfl⟩
  rw [if_neg hcheck]
  by_cases hzero : len = 0
  · rw [if_pos hzero]
    exact ⟨⟨by rintro ⟨⟩, fun hlt ↦ absurd hlt hcheck⟩, by rintro ⟨⟩⟩
  rw [if_neg hzero]
  split
  · rename_i e hskip
    obtain rfl := skip_error _ _ hskip
    exact ⟨⟨by rintro ⟨⟩, fun hlt ↦ absurd hlt hcheck⟩, by rintro ⟨⟩⟩
  · exact ⟨⟨by rintro ⟨⟩, fun hlt ↦ absurd hlt hcheck⟩, by rintro ⟨⟩⟩
  · split_ifs
    · split
      · exact ⟨⟨by rintro ⟨⟩, fun hlt ↦ absurd hlt hcheck⟩, by rintro ⟨⟩⟩
      · exact ⟨⟨by rintro ⟨⟩, fun hlt ↦ absurd hlt hcheck⟩, by rintro ⟨⟩⟩
    · exact ⟨⟨by rintro ⟨⟩, fun hlt ↦ absurd hlt hcheck⟩, by rintro ⟨⟩⟩

theorem contiguousExact_iff (alloc : Allocator) (h : Heap) (hl : l.len < 2 ^ 32) (hoff : off < 2 ^ 32)
    (hlen : len < 2 ^ 32) : ContiguousExact alloc h l off len ↔ Fits l.len off len := by
  obtain ⟨hthrows, hsame⟩ := getContiguous_throws alloc h l off len
  rw [ContiguousExact, hthrows, ← lt_add32_iff hl hoff hlen]
  exact ⟨And.left, fun hiff ↦ ⟨hiff, fun hlt ↦ hsame (hthrows.mpr hlt)⟩⟩

/-! ## `splice` -/

/-- The sum overflows: less is removed from the first segment than is kept of it. -/
theorem cut_overflow {p : Ptr} {qs : List Ptr} {o n : ℕ} {d : Option BufferList}
    {y : List Ptr × ℕ × Option BufferList} (ho : o < p.len) (hp : p.len < 2 ^ 32) (hlen : len < 2 ^ 32)
    (hover : 2 ^ 32 ≤ o + len) (hcut : cut (p :: qs) o len n d = .ok y) :
    y.1 = { p with off := o + len - 2 ^ 32 + p.off, len := p.len - (o + len - 2 ^ 32) } :: qs := by
  have hsum : add32 o len = o + len - 2 ^ 32 := by
    rw [add32]
    omega
  have hswap : add32 len o = o + len - 2 ^ 32 := by
    rw [add32]
    omega
  rw [cut, if_neg (by omega), if_pos (by rw [hsum]; omega), hsum, hswap,
    sub32_of_le hp (by omega)] at hcut
  cases hgive : give d p o len with
  | error e =>
    rw [hgive] at hcut
    cases hcut
  | ok d' =>
    rw [hgive] at hcut
    cases hcut
    rfl

theorem spliceExact_iff (hl : l.Proper h) {claimBy : Option BufferList}
    (hd : ∀ c ∈ claimBy, c.Proper h) (hoff : off < l.len) (hpos : 0 < len) (hlen : len < 2 ^ 32) :
    SpliceExact h l off len claimBy ↔ inner l.buffers off + len < 2 ^ 32 := by
  have htidy := tidy_extent h
  have hlensum := hl.len
  have hlt := hl.lt
  have htotal := hl.length_contents
  constructor
  · rintro ⟨l', c', hsplice, hcontents⟩
    by_contra hover
    obtain ⟨before, rest, o, hskip, hlands⟩ := hl.sound.lands .assertion (hlensum ▸ hoff.le)
    rw [inner, hskip] at hover
    dsimp only at hover
    have hooff := hlands.off_eq
    -- the offset is inside of a segment, in which the sum wraps
    rcases hlands.within with ⟨hnil, ho⟩ | ⟨p, qs, hcons, ho⟩
    · omega
    obtain ⟨front, hfront, -, -, hfrontBytes⟩ :=
      frontBit_eq htidy hlands.segment_rest hlands.within
    have hp := hlands.segment_rest p (by rw [hcons]; exact List.mem_cons_self)
    have hplen : p.len < 2 ^ 32 := by
      have hsum := hlands.sum_eq
      rw [hcons, List.map_cons, List.sum_cons] at hsum
      omega
    rw [splice, if_neg (by omega), if_neg (by omega), hskip] at hsplice
    have hsplice' : (frontBit rest o).bind (fun front ↦
        (cut rest o len (add32 l.len o) claimBy).map fun x ↦
          (({ l with buffers := before ++ front ++ x.1, len := x.2.1 } : BufferList), x.2.2)) =
        .ok (l', c') := hsplice
    rw [hfront, Except.bind, hcons] at hsplice'
    cases hcut : cut (p :: qs) o len (add32 l.len o) claimBy with
    | error e =>
      rw [hcut] at hsplice'
      cases hsplice'
    | ok y =>
      rw [hcut] at hsplice'
      have hl' := (Prod.mk.inj (Except.ok.inj hsplice')).1
      have hy := cut_overflow ho hplen hlen (Nat.not_lt.mp hover) hcut
      obtain ⟨-, hqpos, hqbytes⟩ := shorten_spec (k := o + len - 2 ^ 32) hp (by omega)
      have hlong := congrArg List.length hcontents
      rw [← hl', contents, hy, List.flatMap_append, List.flatMap_append, hfrontBytes,
        List.flatMap_cons, hqbytes, ← hlands.take_eq htidy] at hlong
      simp only [List.length_append, List.length_take, List.length_drop, hp.1.length_bytes htidy] at hlong
      omega
  · intro hfits
    obtain ⟨l', d', hsplice, -, hcontents, -⟩ := splice_eq hl.sound htidy hl.sum_lt
      (fun c hc ↦ (hd c hc).sound) hpos (hlensum ▸ hoff) hfits
    refine ⟨l', d', hsplice, ?_⟩
    rw [hcontents]
    rcases Nat.le_total (off + len) l.len with hle | hge
    · rw [Nat.min_eq_left hle]
    · rw [Nat.min_eq_right hge, List.drop_eq_nil_of_le (by omega), List.drop_eq_nil_of_le (by omega)]

/-! ## The copies

The copies begin at the cursor or seek. After the check has been passed by an overflow they go
through the list to its end, and throw there. -/

theorem Proper.segments_ne (hl : l.Proper h) : ∀ s ∈ l.segments h, s ≠ [] := by
  intro s hs
  obtain ⟨p, hp, rfl⟩ := List.mem_map.mp hs
  obtain ⟨hin, hpos⟩ := hl.segment p hp
  apply List.ne_nil_of_length_pos
  rw [hin.length_bytes (tidy_extent h)]
  exact hpos

theorem Proper.length_flatten (hl : l.Proper h) : (l.segments h).flatten.length = l.len :=
  hl.length_contents

end BufferList

namespace CachedList

open Iter BufferList

/-- A call throws if and only if the part goes beyond the end, and then nothing has been copied. -/
def Exact (call : Option Traversal) (length off len : ℕ) : Prop :=
  ∃ c, call = some c ∧ c.stop = (if length < off + len then some .endOfBuffer else none) ∧
    (length < off + len → c.parts = [])

/-- The iterator can go to the offset, and through the pieces; or the check sees that the part goes beyond
the end, or the call throws before anything is copied: at the end of the list, or while it seeks. -/
def Reached (h : Heap) (x : CachedList) (off len : UInt32) : Prop :=
  if off.toNat + len.toNat ≤ x.list.len then
    (x.Resumes off ∨ off.toNat < 2 ^ 31) ∧ Small (x.list.segments h) off.toNat len.toNat
  else
    Fits x.list.len off.toNat len.toNat ∨ x.list.len ≤ off.toNat ∨
      2 ^ 31 ≤ off.toNat ∧ ¬x.Resumes off

variable {h : Heap} {x : CachedList} {off len : UInt32}

theorem exact_of_check (strict : Bool) (hpass : x.list.len < (off + len).toNat) :
    Exact (x.visit strict h off len) x.list.len off.toNat len.toNat ↔
      x.list.len < off.toNat + len.toNat := by
  rw [visit, if_pos hpass]
  constructor
  · rintro ⟨c, hc, hstop, -⟩
    by_contra hno
    rw [if_neg hno] at hstop
    cases hc
    cases hstop
  · intro hlt
    exact ⟨_, rfl, (if_pos hlt).symm, fun _ ↦ rfl⟩

theorem visitExact_iff (strict : Bool) (hx : x.list.Proper h) (hcursor : x.lastP.off = off → x.InPlace h) :
    Exact (x.visit strict h off len) x.list.len off.toNat len.toNat ↔ x.Reached h off len := by
  have hne := hx.segments_ne
  have htotal := hx.length_flatten
  have hlt := hx.lt
  have hoff := off.toNat_lt
  have hlen := len.toNat_lt
  have hsum : (off + len).toNat = (off.toNat + len.toNat) % 2 ^ 32 := UInt32.toNat_add ..
  rw [Reached]
  -- inside the list the check passes, and the copy is exact once the iterator gets there
  by_cases hin : off.toNat + len.toNat ≤ x.list.len
  · rw [if_pos hin]
    have hpass : ¬x.list.len < (off + len).toNat := by omega
    have hno : ¬x.list.len < off.toNat + len.toNat := Nat.not_lt.mpr hin
    constructor
    · rintro ⟨c, hc, hstop, -⟩
      rw [if_neg hno] at hstop
      have hgo : x.Resumes off ∨ off.toNat < 2 ^ 31 := by
        by_contra hlost
        rw [not_or] at hlost
        obtain ⟨c', hc', -, hstop'⟩ := visit_lost strict hne hpass hcursor hlost.1
          (.inr (Nat.not_lt.mp hlost.2))
        cases Option.some_inj.mp (hc.symm.trans hc')
        cases hstop.symm.trans hstop'
      refine ⟨hgo, ?_⟩
      by_contra hsmall
      obtain ⟨it, hat, hvisit⟩ := visit_arrives strict hne hpass hcursor
        (hgo.imp_right fun hlow ↦ ⟨by omega, hlow⟩)
      have hlarge := hat.walk_large hne strict le_rfl (by omega) (by omega) hsmall
      cases Option.some_inj.mp (hc.symm.trans hvisit)
      cases hstop.symm.trans hlarge
    · rintro ⟨hgo, hsmall⟩
      obtain ⟨it, hat, hvisit⟩ := visit_arrives strict hne hpass hcursor
        (hgo.imp_right fun hlow ↦ ⟨by omega, hlow⟩)
      obtain ⟨parts, it', hwalk, -⟩ := hat.walk_ok hne strict (le_refl len.toNat) (by omega) (by omega)
        hsmall
      rw [hwalk] at hvisit
      exact ⟨_, hvisit, (if_neg hno).symm, fun hlt ↦ absurd hlt hno⟩
  · rw [if_neg hin]
    have hover : x.list.len < off.toNat + len.toNat := Nat.not_le.mp hin
    -- beyond the end the check sees it, unless the sum wraps
    by_cases hfits : Fits x.list.len off.toNat len.toNat
    · have hpass : x.list.len < (off + len).toNat := by
        rw [Fits] at hfits
        omega
      rw [exact_of_check strict hpass]
      exact ⟨fun _ ↦ .inl hfits, fun _ ↦ hover⟩
    have hpass : ¬x.list.len < (off + len).toNat := by
      rw [Fits] at hfits
      omega
    -- the sum has wrapped: the walk finds the end of the list only after it has copied up to it
    by_cases hgo : x.Resumes off ∨ off.toNat ≤ (x.list.segments h).flatten.length ∧ off.toNat < 2 ^ 31
    · obtain ⟨it, hat, hvisit⟩ := visit_arrives strict hne hpass hcursor hgo
      have hle := hat.le
      obtain ⟨hstop, hparts⟩ := hat.walk_short hne strict (le_refl len.toNat) (by omega) (by omega)
      have hexact : Exact (x.visit strict h off len) x.list.len off.toNat len.toNat ↔
          off.toNat = x.list.len := by
        rw [htotal] at hparts
        rw [← hparts]
        constructor
        · rintro ⟨c, hc, -, hnil⟩
          cases Option.some_inj.mp (hc.symm.trans hvisit)
          exact hnil hover
        · intro hnil
          exact ⟨_, hvisit, hstop.trans (if_pos hover).symm, fun _ ↦ hnil⟩
      rw [hexact]
      constructor
      · exact fun heq ↦ .inr (.inl heq.ge)
      · rintro (hfits' | hge | ⟨hlarge, hno⟩)
        · exact absurd hfits' hfits
        · omega
        · have hlow := hgo.resolve_left hno
          omega
    · rw [not_or] at hgo
      obtain ⟨c, hc, hparts, hstop⟩ := visit_lost strict hne hpass hcursor hgo.1 (by omega)
      refine ⟨fun _ ↦ ?_, fun _ ↦ ⟨c, hc, hstop.trans (if_pos hover).symm, fun _ ↦ hparts⟩⟩
      by_cases hge : x.list.len ≤ off.toNat
      · exact .inr (.inl hge)
      · exact .inr (.inr ⟨by omega, hgo.1⟩)

theorem copy_call (h : Heap) (x : CachedList) (off len : UInt32) :
    (x.copy h off len).map Prod.snd = x.visit true h off len := by
  rw [copy, Option.map_map]
  exact Option.map_id'

theorem copyTo_call (h : Heap) (x : CachedList) (off len : UInt32) (dest : BufferList) :
    (x.copyTo h off len dest).map Prod.snd = x.visit false h off len := by
  rw [copyTo, Option.map_map]
  exact Option.map_id'

theorem copyIn_call (h : Heap) (x : CachedList) (off len : UInt32) {src : Bytes}
    (hsrc : src.length = len.toNat) : (x.copyIn h off src).map Prod.snd = x.visit false h off len := by
  rw [copyIn, Option.map_map, hsrc, UInt32.ofNat_toNat]
  exact Option.map_id'

/-- The checks are exact, and `splice` removes what there is. -/
structure BoundsExact (alloc : Allocator) (h : Heap) (x : CachedList) (a dest : BufferList) (src : Bytes)
    (claimBy : Option BufferList) (off len : UInt32) : Prop where
  substrOf : a.SubstrExact x.list off.toNat len.toNat
  getContiguous : ContiguousExact alloc h x.list off.toNat len.toNat
  copy : Exact ((x.copy h off len).map Prod.snd) x.list.len off.toNat len.toNat
  copyTo : Exact ((x.copyTo h off len dest).map Prod.snd) x.list.len off.toNat len.toNat
  copyIn : Exact ((x.copyIn h off src).map Prod.snd) x.list.len off.toNat len.toNat
  splice : off.toNat < x.list.len → 0 < len.toNat → SpliceExact h x.list off.toNat len.toNat claimBy

/-- **The checks are exact** where the sums do not overflow, or the check sees it nevertheless, and where
the iterator can go. -/
theorem bounds_exact_iff (alloc : Allocator) (hx : x.list.Proper h)
    (hcursor : x.lastP.off = off → x.InPlace h) (a dest : BufferList) {src : Bytes}
    (hsrc : src.length = len.toNat) {claimBy : Option BufferList} (hd : ∀ c ∈ claimBy, c.Proper h) :
    BoundsExact alloc h x a dest src claimBy off len ↔
      Fits x.list.len off.toNat len.toNat ∧ x.Reached h off len ∧
        (off.toNat < x.list.len → 0 < len.toNat →
          inner x.list.buffers off.toNat + len.toNat < 2 ^ 32) := by
  have hsubstr := substrExact_iff a hx.lt off.toNat_lt len.toNat_lt
  have hcontiguous := contiguousExact_iff alloc h hx.lt off.toNat_lt len.toNat_lt
  have hvisit (strict : Bool) :
      Exact (x.visit strict h off len) x.list.len off.toNat len.toNat ↔ x.Reached h off len :=
    visitExact_iff strict hx hcursor
  constructor
  · intro hexact
    refine ⟨hsubstr.mp hexact.substrOf, (hvisit true).mp ?_, fun hoff hpos ↦ ?_⟩
    · rw [← copy_call]
      exact hexact.copy
    · exact (spliceExact_iff hx hd hoff hpos len.toNat_lt).mp (hexact.splice hoff hpos)
  · rintro ⟨hfits, hreached, hsplice⟩
    refine ⟨hsubstr.mpr hfits, hcontiguous.mpr hfits, ?_, ?_, ?_, fun hoff hpos ↦ ?_⟩
    · rw [copy_call]
      exact (hvisit true).mpr hreached
    · rw [copyTo_call]
      exact (hvisit false).mpr hreached
    · rw [copyIn_call h x off len hsrc]
      exact (hvisit false).mpr hreached
    · exact (spliceExact_iff hx hd hoff hpos len.toNat_lt).mpr (hsplice hoff hpos)

/-- Three bytes out of the middle of five. -/
theorem bounds_exact_inside :
    BoundsExact ⟨fun _ ↦ 0, fun _ _ ↦ 0⟩ BufferWorld.twoSegments.heap
      { list := BufferWorld.twoSegments.lists 1, nodes := [0, 1] } {} {} [7, 8, 9] none 1 3 := by
  have hproper := BufferWorld.proper_twoSegments 1
  refine (bounds_exact_iff _ hproper ?_ {} {} rfl (by rintro c ⟨⟩)).mpr ⟨?_, ?_, ?_⟩
  · intro hoff
    exact absurd hoff (by decide)
  · exact .inl (by decide)
  · rw [Reached, if_pos (by decide)]
    refine ⟨.inr (by decide), small_of_lt ?_ _ _⟩
    rw [hproper.length_flatten]
    decide
  · exact fun _ _ ↦ by decide

/-- `off + len` is `2 ^ 32`, and nothing is thrown. -/
theorem substr_of_wraps : ¬∀ (alloc : Allocator) (h : Heap) (x : CachedList) (a dest : BufferList)
    (src : Bytes) (claimBy : Option BufferList) (off len : UInt32), x.list.Proper h → x.InPlace h →
    src.length = len.toNat → (∀ c ∈ claimBy, c.Proper h) →
    BoundsExact alloc h x a dest src claimBy off len := by
  intro hall
  have hexact := hall ⟨fun _ ↦ 0, fun _ _ ↦ 0⟩ BufferWorld.twoSegments.heap
    { list := BufferWorld.twoSegments.lists 1, nodes := [0, 1] } {} {} (List.replicate 4294967295 0) none
    1 4294967295 (BufferWorld.proper_twoSegments 1) ⟨{ p := none }, rfl, .inl rfl⟩ List.length_replicate
    (by rintro c ⟨⟩)
  have hfits := (substrExact_iff {} (BufferWorld.proper_twoSegments 1).lt (by decide) (by decide)).mp
    hexact.substrOf
  exact absurd hfits (by decide)

end CachedList

end AsyncMessenger
