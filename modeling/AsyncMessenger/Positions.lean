import AsyncMessenger.Cursor

/-!
# Moving an iterator

What an iterator that comes from `begin()` or `end()` can be: its three fields say the same place.
In a list of less than `2^31` bytes it moves by any `int` and stays in the list, or throws; moves
add up; and what is copied out are the bytes between the old place and the new one.

## How iterators are obtained

`Obtained` is an induction over the calls of a program: an iterator is at the beginning or at the
end of a list, or what a call that has not thrown has left of another one. `At segs o` says that the
iterator is at byte `o`: its fields `p`, `p_off` and `off` agree. Each call takes an iterator of
which this holds to another one, or throws (`At.call`), so that it holds of all of them.

## What holds then

`Lawful` collects what a user may rely on: where an `advance` leads and when it throws, that two of
them are one, and what a copy delivers. The arithmetic of `off` is unsigned and that of `advance` is
signed; that the length of the list is below `2^31` is what makes them agree.
-/

namespace AsyncMessenger

open Reading

namespace Iter

/-- The loop of `copy_all`. -/
def copyAllLoop (segs : List Bytes) : ℕ → Iter → Except Stop (Bytes × Iter)
  | 0, it => if it.p = none then .ok ([], it) else .error .hang
  | fuel + 1, it =>
    match it.p with
    | none => .ok ([], it)
    | some i =>
      let s := segs.getD i []
      if s = [] then .error .assertion
      else
        (it.advance segs (toInt (s.length - it.pOff))).bind fun it' ↦
          (copyAllLoop segs fuel it').map fun r ↦ (s.drop it.pOff ++ r.1, r.2)

/-- `copy_all`. -/
def copyAll (segs : List Bytes) (it : Iter) : Except Stop (Bytes × Iter) :=
  (it.resume segs).bind (copyAllLoop segs segs.flatten.length)

/-- `operator++`. -/
def next (segs : List Bytes) (it : Iter) : Except Stop Iter :=
  if it.p = none then .error .endOfBuffer else it.advance segs 1

/-- What a program does with an iterator. -/
inductive Call
  | advance (o : Int32)
  | seek (o : UInt32)
  | next
  | copy (strict : Bool) (len : UInt32)
  | copyAll
  deriving DecidableEq, Repr

/-- The iterator after a call, unless it throws. -/
def call (segs : List Bytes) (it : Iter) : Call → Except Stop Iter
  | .advance o => it.advance segs o.toInt
  | .seek o => seek segs o
  | .next => it.next segs
  | .copy strict len => (copyWith strict len.toNat segs it).map Prod.snd
  | .copyAll => (it.copyAll segs).map Prod.snd

/-- Iterators that come from `begin()` or `end()` by calls that have not thrown. -/
inductive Obtained (segs : List Bytes) : Iter → Prop
  | ofBegin : Obtained segs (ofBegin segs)
  | ofEnd : Obtained segs (ofEnd segs)
  | call {it it' : Iter} (c : Call) (h : Obtained segs it) (hcall : it.call segs c = .ok it') :
    Obtained segs it'

/-- The place is in the list, or at its end. -/
def InRange (segs : List Bytes) (o : ℤ) : Prop := 0 ≤ o ∧ o ≤ segs.flatten.length

instance (segs : List Bytes) (o : ℤ) : Decidable (InRange segs o) := inferInstanceAs (Decidable (_ ∧ _))

/-- The three fields say the same place. -/
def Consistent (segs : List Bytes) (it : Iter) : Prop :=
  match it.p with
  | none => it.pOff = 0 ∧ it.off.toNat = segs.flatten.length
  | some i => i < segs.length ∧ it.pOff < (segs.getD i []).length ∧
      it.off.toNat = (segs.take i).flatten.length + it.pOff

/-- What holds of an iterator. -/
structure Lawful (segs : List Bytes) (it : Iter) : Prop where
  consistent : it.Consistent segs
  /-- Two moves are one. -/
  advance_advance : ∀ a b : ℤ, InRange segs (it.off.toNat + a) → InRange segs (it.off.toNat + a + b) →
    ∃ it₁ it₂, it.advance segs a = .ok it₁ ∧ it₁.advance segs b = .ok it₂ ∧
      it.advance segs (a + b) = .ok it₂
  /-- A move goes so far, or throws. -/
  advance : ∀ a : Int32, if InRange segs (it.off.toNat + a.toInt) then
      ∃ it', it.advance segs a.toInt = .ok it' ∧ (it'.off.toNat : ℤ) = it.off.toNat + a.toInt
    else it.advance segs a.toInt = .error .endOfBuffer
  /-- A copy takes the bytes, or throws. -/
  copy : ∀ (strict : Bool) (len : UInt32), if InRange segs (it.off.toNat + len.toNat) then
      ∃ it', copyWith strict len.toNat segs it =
          .ok ((segs.flatten.drop it.off.toNat).take len.toNat, it') ∧
        it'.off.toNat = it.off.toNat + len.toNat
    else copyWith strict len.toNat segs it = .error .endOfBuffer
  copyAll : ∃ it', it.copyAll segs = .ok (segs.flatten.drop it.off.toNat, it') ∧
    it'.off.toNat = segs.flatten.length

variable {segs : List Bytes} {it it' : Iter} {o : ℕ}

/-! ## One move

Forward and back are separate loops in the source, and are followed separately. -/

theorem At.ofEnd (hlt : segs.flatten.length < 2 ^ 32) :
    (Iter.ofEnd segs).At segs segs.flatten.length := by
  refine ⟨?_, .inl ⟨rfl, rfl, rfl⟩⟩
  rw [Iter.ofEnd, UInt32.toNat_ofNat', Nat.mod_eq_of_lt hlt]

theorem At.consistent (h : it.At segs o) : it.Consistent segs := by
  rw [Consistent]
  rcases h.place with ⟨hp, hpOff, ho⟩ | ⟨before, s, after, rfl, hp, hlt, ho⟩
  · rw [hp]
    exact ⟨hpOff, h.off_eq.trans ho⟩
  · rw [hp]
    have hget : (before ++ s :: after).getD before.length [] = s := by simp
    refine ⟨by simp, ?_, ?_⟩
    · rw [hget]
      exact hlt
    · rw [List.take_left, h.off_eq]
      exact ho

/-- A move forward. -/
theorem At.advance_pos (h : it.At segs o) (hne : ∀ s ∈ segs, s ≠ [])
    (hlen : segs.flatten.length < 2 ^ 31) {n : ℕ} (hle : o + n ≤ segs.flatten.length) :
    ∃ it', it.advance segs n = .ok it' ∧ it'.At segs (o + n) := by
  have hmove := h.advance hne hle (by omega) (by omega)
  rwa [toInt_of_lt (by omega)] at hmove

/-- A move back. -/
theorem At.advance_neg (h : it.At segs o) {n : ℕ} (hpos : 0 < n) (hle : n ≤ o) :
    ∃ it', it.advance segs (-n) = .ok it' ∧ it'.At segs (o - n) := by
  obtain ⟨before, after, hsegs, hi, hplace, ho⟩ : ∃ before after, segs = before ++ after ∧
      it.p.getD segs.length = before.length ∧
      (it.pOff = 0 ∨ ∃ s after', after = s :: after' ∧ it.pOff ≤ s.length) ∧
      o = before.flatten.length + it.pOff := by
    rcases h.place with ⟨hp, hpOff, hend⟩ | ⟨before, s, after, hsegs, hp, hlt, ho⟩
    · exact ⟨segs, [], (List.append_nil _).symm, by rw [hp, Option.getD_none], .inl hpOff, by omega⟩
    · exact ⟨before, s :: after, hsegs, by rw [hp, Option.getD_some], .inr ⟨s, after, rfl, hlt.le⟩, ho⟩
  obtain ⟨it', hback, -, hat⟩ := back_eq hplace (h.off_eq.trans ho) hpos (by rw [h.off_eq]; exact hle)
  rw [h.off_eq] at hat
  refine ⟨it', ?_, hsegs ▸ hat⟩
  rw [Iter.advance, if_neg (by omega), if_pos (by omega), hi, hsegs, Int.neg_neg, Int.toNat_natCast]
  exact hback

/-- A move by any `int` that stays in the list. -/
theorem At.move (h : it.At segs o) (hne : ∀ s ∈ segs, s ≠ []) (hlen : segs.flatten.length < 2 ^ 31)
    {a : ℤ} (hin : InRange segs (o + a)) :
    ∃ it', it.advance segs a = .ok it' ∧ it'.At segs (o + a).toNat := by
  obtain ⟨hlow, hhigh⟩ := hin
  rcases lt_or_ge a 0 with hneg | hnonneg
  · obtain ⟨n, rfl⟩ : ∃ n : ℕ, a = -n := ⟨a.natAbs, by omega⟩
    have hmove := h.advance_neg (n := n) (by omega) (by omega)
    rwa [show (o + -(n : ℤ)).toNat = o - n by omega]
  · obtain ⟨n, rfl⟩ := Int.eq_ofNat_of_zero_le hnonneg
    have hmove := h.advance_pos hne hlen (n := n) (by omega)
    rwa [show ((o : ℤ) + n).toNat = o + n by omega]

/-- A move out of the list throws. -/
theorem At.move_error (h : it.At segs o) (hne : ∀ s ∈ segs, s ≠ [])
    (hlen : segs.flatten.length < 2 ^ 31) {a : ℤ} (hlt : a < 2 ^ 31) (hout : ¬InRange segs (o + a)) :
    it.advance segs a = .error .endOfBuffer := by
  obtain ⟨before, after, hsegs, hi, ho⟩ := h.split
  rw [InRange, not_and_or] at hout
  have htotal : segs.flatten.length = before.flatten.length + after.flatten.length := by
    rw [hsegs, List.flatten_append, List.length_append]
  have hle := h.le
  rcases lt_or_ge a 0 with hneg | hnonneg
  · rw [Iter.advance, if_neg (by omega), if_pos hneg, hi, hsegs]
    refine back_error (fun s hs ↦ hne s (hsegs ▸ List.mem_append_left after hs)) (h.off_eq.trans ho) ?_
    rw [h.off_eq]
    omega
  · rw [Iter.advance, if_pos (by omega), hi, hsegs, List.drop_left, Nat.mod_eq_of_lt (by omega),
      forward_beyond after before.length (by omega)]

/-! ## Copies

A copy of some bytes, of all that is left, and a copy that runs into the end. -/

theorem At.copyWith (h : it.At segs o) (hne : ∀ s ∈ segs, s ≠ []) (hlen : segs.flatten.length < 2 ^ 31)
    (strict : Bool) {len : ℕ} (hle : o + len ≤ segs.flatten.length) :
    ∃ it', Iter.copyWith strict len segs it = .ok ((segs.flatten.drop o).take len, it') ∧
      it'.At segs (o + len) := by
  obtain ⟨it₁, hresume, hat⟩ := h.resume hne fun hend ↦ by omega
  obtain ⟨it', hcopy, hat'⟩ := hat.copyLoop hne strict (le_refl len) hle (by omega) (by omega)
  exact ⟨it', by rw [Iter.copyWith, hresume, Except.bind, hcopy], hat'⟩

theorem At.copyWith_error (h : it.At segs o) (hne : ∀ s ∈ segs, s ≠ [])
    (hlen : segs.flatten.length < 2 ^ 31) (strict : Bool) {len : ℕ}
    (hshort : segs.flatten.length < o + len) :
    Iter.copyWith strict len segs it = .error .endOfBuffer := by
  obtain ⟨it₁, hresume, hat⟩ := h.resume hne fun hend ↦ by omega
  rw [Iter.copyWith, hresume, Except.bind]
  exact hat.copyLoop_short hne strict (le_refl len) hshort (by omega)

theorem copyAllLoop_end (fuel : ℕ) (hp : it.p = none) : copyAllLoop segs fuel it = .ok ([], it) := by
  cases fuel with
  | zero => rw [copyAllLoop, if_pos hp]
  | succ fuel => rw [copyAllLoop, hp]

/-- One round takes the rest of a segment. -/
theorem At.copyAllLoop (h : it.At segs o) (hne : ∀ s ∈ segs, s ≠ [])
    (hlen : segs.flatten.length < 2 ^ 31) {fuel : ℕ} (hfuel : segs.flatten.length ≤ o + fuel) :
    ∃ it', Iter.copyAllLoop segs fuel it = .ok (segs.flatten.drop o, it') ∧
      it'.At segs segs.flatten.length := by
  induction fuel generalizing it o with
  | zero =>
    have hend : o = segs.flatten.length := le_antisymm h.le (by omega)
    rw [hend] at h ⊢
    exact ⟨it, by rw [copyAllLoop_end _ (h.p_eq_none rfl), List.drop_length], h⟩
  | succ fuel ih =>
    by_cases hend : o = segs.flatten.length
    · rw [hend] at h ⊢
      exact ⟨it, by rw [copyAllLoop_end _ (h.p_eq_none rfl), List.drop_length], h⟩
    obtain ⟨before, s, after, rfl, hp, hpOff, ho⟩ := h.segment (lt_of_le_of_ne h.le hend)
    have hget : (before ++ s :: after).getD before.length [] = s := by simp
    have hs : s ≠ [] := List.ne_nil_of_length_pos (by omega)
    have htotal : (before ++ s :: after).flatten.length =
        before.flatten.length + (s.length + after.flatten.length) := by simp
    have hrest : (before ++ s :: after).flatten.drop o =
        s.drop it.pOff ++ (before ++ s :: after).flatten.drop (o + (s.length - it.pOff)) := by
      rw [← List.drop_drop, ho, drop_split hpOff, List.drop_left' (by rw [List.length_drop])]
    obtain ⟨it₁, hadvance, hat⟩ := h.advance hne (n := s.length - it.pOff) (by omega) (by omega) (by omega)
    obtain ⟨it', hcopy, hat'⟩ := ih hat (by omega)
    refine ⟨it', ?_, hat'⟩
    rw [Iter.copyAllLoop, hp]
    dsimp only
    rw [hget, if_neg hs, hadvance, Except.bind, hcopy, hrest]
    rfl

theorem At.copyAll (h : it.At segs o) (hne : ∀ s ∈ segs, s ≠ []) (hlen : segs.flatten.length < 2 ^ 31) :
    ∃ it', it.copyAll segs = .ok (segs.flatten.drop o, it') ∧ it'.At segs segs.flatten.length := by
  obtain ⟨it₁, hresume, hat⟩ := h.resume hne fun hend ↦ by omega
  obtain ⟨it', hcopy, hat'⟩ := hat.copyAllLoop hne hlen (Nat.le_add_left segs.flatten.length o)
  exact ⟨it', by rw [Iter.copyAll, hresume, Except.bind, hcopy], hat'⟩

/-! ## Every iterator -/

/-- A call leaves the iterator somewhere in the list. -/
theorem At.call (h : it.At segs o) (hne : ∀ s ∈ segs, s ≠ []) (hlen : segs.flatten.length < 2 ^ 31)
    {c : Call} (hcall : it.call segs c = .ok it') : ∃ o', it'.At segs o' := by
  -- an `advance` that returns has stayed in the list
  have hstays {a : ℤ} (hlt : a < 2 ^ 31) (hmove : it.advance segs a = .ok it') : ∃ o', it'.At segs o' := by
    by_cases hin : InRange segs (o + a)
    · obtain ⟨it₁, hok, hat⟩ := h.move hne hlen hin
      obtain rfl := Except.ok.inj (hok.symm.trans hmove)
      exact ⟨_, hat⟩
    · cases (h.move_error hne hlen hlt hin).symm.trans hmove
  cases c with
  | advance a => exact hstays a.toInt_lt hcall
  | seek off =>
    have hseek : seek segs off = .ok it' := hcall
    by_cases hoff : off.toNat < 2 ^ 31
    · by_cases hle : off.toNat ≤ segs.flatten.length
      · obtain ⟨it₁, hok, hat⟩ := seek_eq hne hle hoff
        obtain rfl := Except.ok.inj (hok.symm.trans hseek)
        exact ⟨_, hat⟩
      · have herror := (At.ofBegin hne).move_error hne hlen (a := off.toNat) (by omega)
          fun hin ↦ hle (by have := hin.2; omega)
        rw [seek, toInt_of_lt hoff] at hseek
        cases herror.symm.trans hseek
    · cases (seek_error hne (Nat.not_lt.mp hoff)).symm.trans hseek
  | next =>
    have hnext : it.next segs = .ok it' := hcall
    rw [Iter.next] at hnext
    split_ifs at hnext
    exact hstays (by decide) hnext
  | copy strict len =>
    have hcopy : (Iter.copyWith strict len.toNat segs it).map Prod.snd = .ok it' := hcall
    by_cases hle : o + len.toNat ≤ segs.flatten.length
    · obtain ⟨it₁, hok, hat⟩ := h.copyWith hne hlen strict hle
      rw [hok] at hcopy
      obtain rfl := Except.ok.inj hcopy
      exact ⟨_, hat⟩
    · rw [h.copyWith_error hne hlen strict (Nat.not_le.mp hle)] at hcopy
      cases hcopy
  | copyAll =>
    have hcopy : (it.copyAll segs).map Prod.snd = .ok it' := hcall
    obtain ⟨it₁, hok, hat⟩ := h.copyAll hne hlen
    rw [hok] at hcopy
    obtain rfl := Except.ok.inj hcopy
    exact ⟨_, hat⟩

theorem Obtained.at (h : Obtained segs it) (hne : ∀ s ∈ segs, s ≠ [])
    (hlen : segs.flatten.length < 2 ^ 31) : it.At segs it.off.toNat := by
  have hsome : ∃ o, it.At segs o := by
    induction h with
    | ofBegin => exact ⟨0, .ofBegin hne⟩
    | ofEnd => exact ⟨_, .ofEnd (by omega)⟩
    | call c _ hcall ih =>
      obtain ⟨o, hat⟩ := ih
      exact hat.call hne hlen hcall
  obtain ⟨o, hat⟩ := hsome
  exact hat.off_eq.symm ▸ hat

/-- **The algebra of iterators**, in a list of less than `2^31` bytes without empty segments. -/
theorem lawful_of_obtained (hne : ∀ s ∈ segs, s ≠ []) (hlen : segs.flatten.length < 2 ^ 31)
    (h : Obtained segs it) : it.Lawful segs := by
  have hat := h.at hne hlen
  refine ⟨hat.consistent, fun a b ha hab ↦ ?_, fun a ↦ ?_, fun strict len ↦ ?_, ?_⟩
  · obtain ⟨it₁, hfst, hat₁⟩ := hat.move hne hlen ha
    have hplace : (((it.off.toNat + a).toNat : ℕ) : ℤ) = it.off.toNat + a := Int.toNat_of_nonneg ha.1
    obtain ⟨it₂, hsnd, hat₂⟩ := hat₁.move hne hlen (a := b) (by rwa [hplace])
    have hsum : InRange segs (it.off.toNat + (a + b)) := by rwa [← Int.add_assoc]
    obtain ⟨it₃, hboth, hat₃⟩ := hat.move hne hlen hsum
    rw [hplace, Int.add_assoc] at hat₂
    exact ⟨it₁, it₂, hfst, hsnd, by rw [hboth, hat₃.unique hat₂]⟩
  · split_ifs with hin
    · obtain ⟨it', hmove, hat'⟩ := hat.move hne hlen hin
      refine ⟨it', hmove, ?_⟩
      rw [hat'.off_eq]
      exact Int.toNat_of_nonneg hin.1
    · exact hat.move_error hne hlen a.toInt_lt hin
  · split_ifs with hin
    · have hle : it.off.toNat + len.toNat ≤ segs.flatten.length := by
        have := hin.2
        omega
      obtain ⟨it', hcopy, hat'⟩ := hat.copyWith hne hlen strict hle
      exact ⟨it', hcopy, hat'.off_eq⟩
    · exact hat.copyWith_error hne hlen strict (Nat.not_le.mp fun hle ↦ hin ⟨by omega, by omega⟩)
  · obtain ⟨it', hcopy, hat'⟩ := hat.copyAll hne hlen
    exact ⟨it', hcopy, hat'.off_eq⟩

/-- From the end of two segments back into the first one. -/
theorem lawful_of_obtained_back :
    (ofEnd [[1, 2], [3]]).call [[1, 2], [3]] (.advance (-2)) = .ok { off := 1, p := some 0, pOff := 1 } ∧
      Lawful [[1, 2], [3]] { off := 1, p := some 0, pOff := 1 } := by
  have hback : (ofEnd [[1, 2], [3]]).call [[1, 2], [3]] (.advance (-2)) =
      .ok { off := 1, p := some 0, pOff := 1 } := rfl
  exact ⟨hback, lawful_of_obtained (by simp) (by decide) (.call _ .ofEnd hback)⟩

end Iter

end AsyncMessenger
