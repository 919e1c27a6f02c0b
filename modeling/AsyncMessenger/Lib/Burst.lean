import AsyncMessenger.Lib.ShiftRegister

/-!
# Burst errors

A register of `w` bits is linear, so two byte strings of one length lead to the same value exactly
if their difference leads to 0. If the bits of the difference lie within `w` consecutive bits, the
register holds all of them at some time, and from there on it never becomes 0: shifting is injective
when the polynomial has its top bit. So no such error goes unnoticed.

A burst is described by a number: the difference, read as a number, is a power of two times a number
below `2^w`. Parts of a burst are bursts (`Burst.left`, `Burst.right`, `Burst.squeeze`), so that an
error across several fields can be looked at field by field.
-/

namespace ShiftRegister

variable {w : ℕ} {poly : BitVec w}

/-- The bits in which two byte strings differ. -/
def diff (bs bs' : List UInt8) : List UInt8 := List.zipWith (· ^^^ ·) bs bs'

theorem diff_cons (b b' : UInt8) (bs bs' : List UInt8) :
    diff (b :: bs) (b' :: bs') = (b ^^^ b') :: diff bs bs' := rfl

theorem diff_append {as as' : List UInt8} (bs bs' : List UInt8) (h : as.length = as'.length) :
    diff (as ++ bs) (as' ++ bs') = diff as as' ++ diff bs bs' :=
  List.zipWith_append h

theorem length_diff {bs bs' : List UInt8} (h : bs.length = bs'.length) :
    (diff bs bs').length = bs.length := by
  rw [diff, List.length_zipWith, h, Nat.min_self]

/-- The bits of a byte string that are set lie within `w` consecutive ones. -/
def Burst (w : ℕ) (e : List UInt8) : Prop := ∃ p k, p < 2 ^ w ∧ LittleEndian.decode e = p * 2 ^ k

theorem Burst.left {e e' : List UInt8} (h : Burst w (e ++ e')) : Burst w e := by
  obtain ⟨p, k, hp, heq⟩ := h
  have hlt := LittleEndian.decode_lt e
  have hpow : 256 ^ e.length = 2 ^ (8 * e.length) := by rw [Nat.pow_mul]
  rw [LittleEndian.decode_append] at heq
  have hmod : LittleEndian.decode e = p * 2 ^ k % 2 ^ (8 * e.length) := by
    rw [← heq, ← hpow, Nat.add_mul_mod_self_left, Nat.mod_eq_of_lt hlt]
  rcases Nat.le_total k (8 * e.length) with hle | hle
  · refine ⟨p % 2 ^ (8 * e.length - k), k, (Nat.mod_le ..).trans_lt hp, ?_⟩
    rw [hmod, ← Nat.mul_mod_mul_right, ← Nat.pow_add, Nat.sub_add_cancel hle]
  · refine ⟨0, 0, Nat.two_pow_pos w, ?_⟩
    rw [hmod, ← Nat.sub_add_cancel hle, Nat.pow_add, ← Nat.mul_assoc, Nat.mul_mod_left, Nat.zero_mul]

theorem Burst.right {e e' : List UInt8} (h : Burst w (e ++ e')) : Burst w e' := by
  obtain ⟨p, k, hp, heq⟩ := h
  have hlt := LittleEndian.decode_lt e
  have hpow : 256 ^ e.length = 2 ^ (8 * e.length) := by rw [Nat.pow_mul]
  rw [LittleEndian.decode_append] at heq
  have hdiv : LittleEndian.decode e' = p * 2 ^ k / 2 ^ (8 * e.length) := by
    rw [← heq, ← hpow, Nat.add_mul_div_left _ _ (Nat.pow_pos (by decide)), Nat.div_eq_of_lt hlt, Nat.zero_add]
  rcases Nat.le_total k (8 * e.length) with hle | hle
  · refine ⟨p / 2 ^ (8 * e.length - k), 0, (Nat.div_le_self ..).trans_lt hp, ?_⟩
    rw [hdiv, Nat.pow_zero, Nat.mul_one, ← Nat.sub_add_cancel hle, Nat.pow_add,
      Nat.mul_div_mul_right _ _ (Nat.two_pow_pos k), Nat.sub_add_cancel hle]
  · refine ⟨p, k - 8 * e.length, hp, ?_⟩
    rw [hdiv, ← Nat.sub_add_cancel hle, Nat.pow_add, ← Nat.mul_assoc, Nat.mul_div_cancel _ (Nat.two_pow_pos _),
      Nat.sub_add_cancel hle]

/-- If a burst begins in the first part of a string, its low end is known there. -/
theorem Burst.low {e e' : List UInt8} (h : Burst w (e ++ e')) (hne : LittleEndian.decode e ≠ 0) :
    ∃ a k n, LittleEndian.decode e = a * 2 ^ k ∧ 256 ^ e.length = 2 ^ n * 2 ^ k ∧
      a + 2 ^ n * LittleEndian.decode e' < 2 ^ w := by
  obtain ⟨p, k, hp, heq⟩ := h
  have hlt := LittleEndian.decode_lt e
  have hpow : 256 ^ e.length = 2 ^ (8 * e.length) := by rw [Nat.pow_mul]
  rw [LittleEndian.decode_append, hpow] at heq
  have hk : k ≤ 8 * e.length := by
    by_contra hgt
    have hdvd : 2 ^ (8 * e.length) ∣ LittleEndian.decode e := by
      refine (Nat.dvd_add_left (Nat.dvd_mul_right _ (LittleEndian.decode e'))).mp ?_
      rw [heq]
      exact (Nat.pow_dvd_pow 2 (Nat.le_of_not_le hgt)).mul_left p
    exact absurd (Nat.le_of_dvd (Nat.pos_of_ne_zero hne) hdvd) (by omega)
  have hsplit : 2 ^ (8 * e.length) = 2 ^ (8 * e.length - k) * 2 ^ k := by
    rw [← Nat.pow_add, Nat.sub_add_cancel hk]
  rw [hsplit] at heq
  obtain ⟨a, ha⟩ : 2 ^ k ∣ LittleEndian.decode e := by
    have hdvd : 2 ^ k ∣ 2 ^ (8 * e.length - k) * 2 ^ k * LittleEndian.decode e' :=
      (Nat.dvd_mul_left ..).mul_right _
    refine (Nat.dvd_add_left hdvd).mp ?_
    rw [heq]
    exact Nat.dvd_mul_left ..
  refine ⟨a, k, 8 * e.length - k, ?_, hpow.trans hsplit, ?_⟩
  · rw [ha, Nat.mul_comm]
  · refine lt_of_eq_of_lt ?_ hp
    apply Nat.eq_of_mul_eq_mul_right (Nat.two_pow_pos k)
    rw [← heq, ha, Nat.add_mul, Nat.mul_right_comm, Nat.mul_comm a]

/-- Leaving out a part of a string does not lengthen a burst. -/
theorem Burst.squeeze {e gap e' : List UInt8} (h : Burst w (e ++ (gap ++ e'))) : Burst w (e ++ e') := by
  by_cases hzero : LittleEndian.decode e = 0
  · -- the burst begins behind the part
    obtain ⟨p, k, hp, heq⟩ := h.right.right
    refine ⟨p, 8 * e.length + k, hp, ?_⟩
    rw [LittleEndian.decode_append, hzero, heq, Nat.zero_add, Nat.pow_add, Nat.pow_mul, Nat.mul_left_comm]
  · -- what is behind the gap weighs less without it
    obtain ⟨a, k, n, ha, hpow, hlt⟩ := h.low hzero
    refine ⟨a + 2 ^ n * LittleEndian.decode e', k, lt_of_le_of_lt ?_ hlt, ?_⟩
    · rw [LittleEndian.decode_append]
      have hle : LittleEndian.decode e' ≤ 256 ^ gap.length * LittleEndian.decode e' :=
        Nat.le_mul_of_pos_left _ (Nat.pow_pos (by decide))
      exact Nat.add_le_add_left (Nat.mul_le_mul_left _ (hle.trans (Nat.le_add_left ..))) a
    · rw [LittleEndian.decode_append, ha, hpow, Nat.add_mul, Nat.mul_right_comm]

/-- A burst does not reach over a gap that is longer than it. -/
theorem Burst.eq_zero_of_gap {e gap e' : List UInt8} (h : Burst w (e ++ (gap ++ e')))
    (hgap : w ≤ 8 * gap.length) (hne : LittleEndian.decode e' ≠ 0) : LittleEndian.decode e = 0 := by
  by_contra hzero
  obtain ⟨a, k, n, -, -, hlt⟩ := h.low hzero
  rw [LittleEndian.decode_append] at hlt
  have hlong : 2 ^ w ≤ 256 ^ gap.length := by
    rw [show 256 = 2 ^ 8 from rfl, ← Nat.pow_mul]
    exact Nat.pow_le_pow_right (by decide) hgap
  have hone : 256 ^ gap.length ≤ 256 ^ gap.length * LittleEndian.decode e' :=
    Nat.le_mul_of_pos_right _ (Nat.pos_of_ne_zero hne)
  have htwo : LittleEndian.decode gap + 256 ^ gap.length * LittleEndian.decode e' ≤
      2 ^ n * (LittleEndian.decode gap + 256 ^ gap.length * LittleEndian.decode e') :=
    Nat.le_mul_of_pos_left _ (Nat.two_pow_pos n)
  omega

/-! ## The register is linear

For two strings of one length and any two initial values. -/

theorem ofByte_xor (b b' : UInt8) : (ofByte (b ^^^ b') : BitVec w) = ofByte b ^^^ ofByte b' := by
  rw [ofByte, ofByte, ofByte, UInt8.toNat_xor, BitVec.ofNat_xor]

theorem feed_xor (x y : BitVec w) (b b' : UInt8) :
    feed poly (x ^^^ y) (b ^^^ b') = feed poly x b ^^^ feed poly y b' := by
  rw [feed, feed, feed, ofByte_xor, ← iterate_step_xor]
  congr 1
  ac_rfl

theorem feedAll_diff (x y : BitVec w) {bs bs' : List UInt8} (h : bs.length = bs'.length) :
    feedAll poly (x ^^^ y) (diff bs bs') = feedAll poly x bs ^^^ feedAll poly y bs' := by
  induction bs generalizing x y bs' with
  | nil =>
    obtain rfl := List.eq_nil_of_length_eq_zero h.symm
    rfl
  | cons b bs ih =>
    cases bs' with
    | nil => exact absurd h (Nat.succ_ne_zero _)
    | cons b' bs' => rw [diff_cons, feedAll_cons, feed_xor, ih _ _ (Nat.succ.inj h), feedAll_cons, feedAll_cons]

/-! ## Bursts are noticed -/

/-- With its top bit in the polynomial a register keeps what it holds. -/
theorem step_ne_zero (hpoly : poly.msb = true) {x : BitVec w} (hx : x ≠ 0#w) : step poly x ≠ 0#w := by
  intro hzero
  rw [step] at hzero
  cases hbit : x.getLsbD 0 with
  | true =>
    rw [hbit, if_pos rfl] at hzero
    -- a shifted register has no top bit
    have heq : poly = x >>> 1 := (BitVec.xor_eq_zero_iff.mp hzero).symm
    rw [heq, BitVec.msb_ushiftRight] at hpoly
    simp at hpoly
  | false =>
    rw [hbit, if_neg Bool.false_ne_true, BitVec.xor_zero] at hzero
    apply hx
    apply BitVec.eq_of_getLsbD_eq
    intro i hi
    cases i with
    | zero => rw [hbit, BitVec.getLsbD_zero]
    | succ i =>
      have hnext := congrArg (fun y : BitVec w ↦ y.getLsbD i) hzero
      rw [BitVec.getLsbD_ushiftRight, BitVec.getLsbD_zero, Nat.add_comm] at hnext
      rw [hnext, BitVec.getLsbD_zero]

theorem iterate_step_ne_zero (hpoly : poly.msb = true) (n : ℕ) {x : BitVec w} (hx : x ≠ 0#w) :
    (step poly)^[n] x ≠ 0#w := by
  induction n generalizing x with
  | zero => exact hx
  | succ n ih =>
    rw [Function.iterate_succ_apply]
    exact ih (step_ne_zero hpoly hx)

/-- A number that fits into the register can be fed in at once, whatever bytes it is written in. -/
theorem feedAll_eq_load_of_lt {bs : List UInt8} (x : BitVec w) (h : LittleEndian.decode bs < 2 ^ w) :
    feedAll poly x bs = (step poly)^[8 * bs.length] (x ^^^ load bs) := by
  induction bs generalizing x with
  | nil => simp [load, LittleEndian.decode]
  | cons b bs ih =>
    rw [LittleEndian.decode] at h
    have hlt : LittleEndian.decode bs < 2 ^ w := by omega
    have hshift : (step poly)^[8] ((load bs : BitVec w) <<< 8) = load bs := by
      apply iterate_step_shiftLeft poly
      rw [load, BitVec.toNat_ofNat, Nat.mod_eq_of_lt hlt]
      omega
    rw [feedAll_cons, ih _ hlt, feed, load_cons, List.length_cons, Nat.mul_succ, Function.iterate_add_apply,
      ← BitVec.xor_assoc, iterate_step_xor poly 8 (x ^^^ ofByte b), hshift]

theorem ofNat_add_mul {m q : ℕ} (hq : q < 2 ^ m) (r : ℕ) :
    BitVec.ofNat w (2 ^ m * r + q) = BitVec.ofNat w q ^^^ BitVec.ofNat w r <<< m := by
  apply BitVec.eq_of_getLsbD_eq
  intro i hi
  rw [BitVec.getLsbD_xor, BitVec.getLsbD_shiftLeft, BitVec.getLsbD_ofNat, BitVec.getLsbD_ofNat,
    BitVec.getLsbD_ofNat, Nat.testBit_two_pow_mul_add _ hq]
  by_cases hlow : i < m
  · simp [hi, hlow]
  · have hhigh : q.testBit i = false :=
      Nat.testBit_lt_two_pow (hq.trans_le (Nat.pow_le_pow_right (by decide) (Nat.not_lt.mp hlow)))
    simp [hi, hlow, hhigh, show i - m < w by omega]

/-- The zeros below a number leave the register without a trace. -/
theorem iterate_step_ofNat_mul {q m : ℕ} (h : q * 2 ^ m < 2 ^ w) :
    (step poly)^[m] (BitVec.ofNat w q <<< m) = BitVec.ofNat w q := by
  have hle : q ≤ q * 2 ^ m := Nat.le_mul_of_pos_right q (Nat.two_pow_pos m)
  apply iterate_step_shiftLeft
  rwa [BitVec.toNat_ofNat, Nat.mod_eq_of_lt (hle.trans_lt h)]

/-- A burst goes through the register as if it began with it. -/
theorem feedAll_burst (hw : 8 ≤ w) (e : List UInt8) {p k : ℕ} (hp : p < 2 ^ w)
    (h : LittleEndian.decode e = p * 2 ^ k) :
    ∃ n, feedAll poly 0#w e = (step poly)^[n] (BitVec.ofNat w p) := by
  induction e generalizing k with
  | nil =>
    have hzero : p = 0 := by
      rw [LittleEndian.decode] at h
      exact (Nat.mul_eq_zero.mp h.symm).resolve_right (Nat.two_pow_pos k).ne'
    exact ⟨0, by rw [hzero]; rfl⟩
  | cons b bs ih =>
    have hb := b.toNat_lt
    rw [LittleEndian.decode] at h
    rcases Nat.lt_or_ge k 8 with hk | hk
    · -- the burst begins in this byte: its low end is here, and the rest fits into the register
      obtain ⟨m, hm⟩ := Nat.exists_eq_add_of_lt hk
      have hp_eq : 2 ^ (m + 1) * (p / 2 ^ (m + 1)) + p % 2 ^ (m + 1) = p := Nat.div_add_mod ..
      have hq : p % 2 ^ (m + 1) < 2 ^ (m + 1) := Nat.mod_lt _ (Nat.two_pow_pos _)
      generalize p / 2 ^ (m + 1) = r at hp_eq
      generalize p % 2 ^ (m + 1) = q at hp_eq hq
      have h256 : 2 ^ (m + 1) * 2 ^ k = 256 := by
        rw [← Nat.pow_add, show m + 1 + k = 8 by omega]
      have hlow : q * 2 ^ k < 256 := h256 ▸ Nat.mul_lt_mul_of_pos_right hq (Nat.two_pow_pos k)
      have hsplit : p * 2 ^ k = 256 * r + q * 2 ^ k := by
        rw [← hp_eq, Nat.add_mul, Nat.mul_right_comm, h256]
      have hbyte : b.toNat = q * 2 ^ k := by omega
      have hrest : LittleEndian.decode bs = r := by omega
      have hr : r * 2 ^ (m + 1) < 2 ^ w := by
        rw [Nat.mul_comm]
        omega
      have hrlt : r < 2 ^ w := (Nat.le_mul_of_pos_right r (Nat.two_pow_pos (m + 1))).trans_lt hr
      have hwide : 256 ≤ 2 ^ w := Nat.pow_le_pow_right (n := 2) (by decide) hw
      have hshift : (ofByte b : BitVec w) = BitVec.ofNat w q <<< k := by
        have hzero := ofNat_add_mul (w := w) (Nat.two_pow_pos k) q
        rw [Nat.add_zero, Nat.mul_comm, BitVec.xor_comm, BitVec.xor_zero] at hzero
        rw [ofByte, hbyte, hzero]
      have hfeed : feed poly 0#w b = (step poly)^[m + 1] (BitVec.ofNat w q) := by
        rw [feed, BitVec.zero_xor, hshift, show 8 = m + 1 + k by omega, Function.iterate_add_apply,
          iterate_step_ofNat_mul (by omega)]
      have hload : (load bs : BitVec w) = (step poly)^[m + 1] (BitVec.ofNat w r <<< (m + 1)) := by
        rw [iterate_step_ofNat_mul hr, load, hrest]
      refine ⟨8 * bs.length + (m + 1), ?_⟩
      rw [feedAll_cons, feedAll_eq_load_of_lt _ (hrest ▸ hrlt), hfeed, hload, ← iterate_step_xor,
        ← ofNat_add_mul hq, hp_eq, Function.iterate_add_apply (step poly) (8 * bs.length)]
    · -- it begins later
      have hpow : p * 2 ^ k = 256 * (p * 2 ^ (k - 8)) := by
        rw [← Nat.sub_add_cancel hk, Nat.pow_add, Nat.add_sub_cancel, ← Nat.mul_assoc, Nat.mul_comm]
      have hbyte : b.toNat = 0 := by omega
      obtain ⟨n, hn⟩ := ih (k := k - 8) (by omega)
      refine ⟨n, ?_⟩
      have hfeed : feed poly 0#w b = 0#w := by
        rw [feed, ofByte, hbyte, BitVec.xor_zero, iterate_step_zero]
      rw [feedAll_cons, hfeed, hn]

/-- **A burst that fits into the register is noticed**, wherever it is and however long the string.
-/
theorem feedAll_ne_zero_of_burst (hw : 8 ≤ w) (hpoly : poly.msb = true) {e : List UInt8} (h : Burst w e)
    (hne : LittleEndian.decode e ≠ 0) : feedAll poly 0#w e ≠ 0#w := by
  obtain ⟨p, k, hp, heq⟩ := h
  obtain ⟨n, hn⟩ : ∃ n, feedAll poly 0#w e = (step poly)^[n] (BitVec.ofNat w p) := feedAll_burst hw e hp heq
  rw [hn]
  refine iterate_step_ne_zero hpoly n fun hzero ↦ hne ?_
  have hp0 : p = 0 := by
    have hnat := congrArg BitVec.toNat hzero
    rwa [BitVec.toNat_ofNat, Nat.mod_eq_of_lt hp] at hnat
  rw [heq, hp0, Nat.zero_mul]

theorem eq_of_decode_diff {bs bs' : List UInt8} (hlen : bs.length = bs'.length)
    (h : LittleEndian.decode (diff bs bs') = 0) : bs = bs' := by
  induction bs generalizing bs' with
  | nil => exact (List.eq_nil_of_length_eq_zero hlen.symm).symm
  | cons b bs ih =>
    cases bs' with
    | nil => exact absurd hlen (Nat.succ_ne_zero _)
    | cons b' bs' =>
      rw [diff_cons, LittleEndian.decode] at h
      have hbyte : (b ^^^ b').toNat = 0 := by omega
      have hzero : b ^^^ b' = 0 := UInt8.toNat_inj.mp hbyte
      rw [UInt8.xor_eq_zero_iff.mp hzero, ih (Nat.succ.inj hlen) (by omega)]

/-- Two strings of one length that differ in a burst have different checks. -/
theorem feedAll_ne_of_burst (hw : 8 ≤ w) (hpoly : poly.msb = true) (x : BitVec w) {bs bs' : List UInt8}
    (hlen : bs.length = bs'.length) (h : Burst w (diff bs bs')) (hne : bs ≠ bs') :
    feedAll poly x bs ≠ feedAll poly x bs' := by
  intro heq
  have hdiff : feedAll poly (x ^^^ x) (diff bs bs') = feedAll poly x bs ^^^ feedAll poly x bs' :=
    feedAll_diff x x hlen
  rw [BitVec.xor_self, heq, BitVec.xor_self] at hdiff
  exact feedAll_ne_zero_of_burst hw hpoly h (fun hzero ↦ hne (eq_of_decode_diff hlen hzero)) hdiff

/-- The same for strings that carry their check at the end, where it may be hit as well. -/
theorem eq_of_burst_of_check (hw : 8 ≤ w) (hpoly : poly.msb = true) {bs bs' c c' : List UInt8}
    (hlen : bs.length = bs'.length) (hlen' : c.length = c'.length) (hc : 8 * c.length ≤ w)
    (hcheck : feedAll poly 0#w bs = load c) (hcheck' : feedAll poly 0#w bs' = load c')
    (h : Burst w (diff (bs ++ c) (bs' ++ c'))) : bs ++ c = bs' ++ c' := by
  have hzero (s t : List UInt8) (ht : 8 * t.length ≤ w) (hst : feedAll poly 0#w s = load t) :
      feedAll poly 0#w (s ++ t) = 0#w := by
    rw [feedAll_append, feedAll_eq_load poly _ ht, hst, BitVec.xor_self, iterate_step_zero]
  by_contra hne
  refine feedAll_ne_of_burst hw hpoly 0#w ?_ h hne ?_
  · rw [List.length_append, List.length_append, hlen, hlen']
  · rw [hzero bs c hc hcheck, hzero bs' c' (hlen' ▸ hc) hcheck']

end ShiftRegister
