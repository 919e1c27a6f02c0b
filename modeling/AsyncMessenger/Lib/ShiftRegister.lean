import Mathlib.Data.BitVec
import Mathlib.Logic.Function.Iterate
import AsyncMessenger.Lib.LittleEndian

/-!
# Reflected shift registers

A cyclic redundancy check over bytes is a shift register: the low bit leaves, and if it was set a
polynomial is added. Shifting is additive (`step_xor`), so a word can be fed in at once. That is all
a table-driven implementation relies on: its tables hold the images of single bytes.

The width and the polynomial are parameters. The polynomial is given in reflected form, its highest
coefficient in the lowest bit.
-/

namespace ShiftRegister

variable {w : ℕ} (poly : BitVec w)

/-- One shift. -/
def step (x : BitVec w) : BitVec w := (x >>> 1) ^^^ if x.getLsbD 0 then poly else 0#w

theorem step_xor (x y : BitVec w) : step poly (x ^^^ y) = step poly x ^^^ step poly y := by
  have hpoly : (if (x ^^^ y).getLsbD 0 then poly else 0#w) =
      (if x.getLsbD 0 then poly else 0#w) ^^^ if y.getLsbD 0 then poly else 0#w := by
    rw [BitVec.getLsbD_xor]
    cases x.getLsbD 0 <;> cases y.getLsbD 0 <;> simp
  rw [step, step, step, hpoly, BitVec.ushiftRight_xor_distrib]
  ac_rfl

theorem iterate_step_xor (n : ℕ) (x y : BitVec w) :
    (step poly)^[n] (x ^^^ y) = (step poly)^[n] x ^^^ (step poly)^[n] y := by
  induction n generalizing x y with
  | zero => rfl
  | succ n ih => rw [Function.iterate_succ_apply, step_xor, ih]; rfl

theorem iterate_step_zero (n : ℕ) : (step poly)^[n] 0#w = 0#w := by
  have hstep : step poly 0#w = 0#w := by simp [step]
  exact Function.iterate_fixed hstep n

/-- One shift of the number in a register, for evaluation. -/
def stepNat (poly x : ℕ) : ℕ := if x % 2 = 1 then x / 2 ^^^ poly else x / 2

theorem toNat_step (x : BitVec w) : (step poly x).toNat = stepNat poly.toNat x.toNat := by
  have hbit : x.getLsbD 0 = decide (x.toNat % 2 = 1) := by
    rw [BitVec.getLsbD, Nat.testBit_zero]
  rw [step, stepNat, hbit, BitVec.toNat_xor, BitVec.toNat_ushiftRight, Nat.shiftRight_eq_div_pow,
    Nat.pow_one]
  by_cases hodd : x.toNat % 2 = 1
  · rw [if_pos hodd, decide_eq_true hodd, if_pos rfl]
  · rw [if_neg hodd, decide_eq_false hodd, if_neg Bool.false_ne_true, BitVec.toNat_ofNat, Nat.zero_mod,
      Nat.xor_zero]

theorem toNat_iterate_step (n : ℕ) (x : BitVec w) :
    ((step poly)^[n] x).toNat = (stepNat poly.toNat)^[n] x.toNat := by
  induction n generalizing x with
  | zero => rfl
  | succ n ih => rw [Function.iterate_succ_apply, Function.iterate_succ_apply, ih, toNat_step]

/-- Zeros leave the register without a trace. -/
theorem iterate_step_shiftLeft {n : ℕ} {y : BitVec w} (h : y.toNat * 2 ^ n < 2 ^ w) :
    (step poly)^[n] (y <<< n) = y := by
  induction n with
  | zero => simp
  | succ n ih =>
    have hlt : y.toNat * 2 ^ n < 2 ^ w := by
      rw [Nat.pow_succ, ← Nat.mul_assoc] at h
      omega
    have hlow : (y <<< (n + 1)).getLsbD 0 = false := by simp
    have hshift : (y <<< (n + 1)) >>> 1 = y <<< n := by
      apply BitVec.eq_of_toNat_eq
      rw [BitVec.toNat_ushiftRight, BitVec.toNat_shiftLeft, BitVec.toNat_shiftLeft, Nat.shiftLeft_eq,
        Nat.shiftLeft_eq, Nat.mod_eq_of_lt h, Nat.mod_eq_of_lt hlt, Nat.shiftRight_eq_div_pow,
        Nat.pow_succ, ← Nat.mul_assoc]
      simp
    rw [Function.iterate_succ_apply, step, hlow, hshift]
    simpa using ih hlt

/-! ## Bytes

A byte is added to the low end and shifted out in eight steps. A word that is written least
significant byte first goes through the register as its bytes do one after the other
(`feedAll_eq_load`). -/

/-- A byte in the low end of a word. -/
def ofByte (b : UInt8) : BitVec w := BitVec.ofNat w b.toNat

/-- The word whose bytes are given, least significant first. -/
def load (bs : List UInt8) : BitVec w := BitVec.ofNat w (LittleEndian.decode bs)

theorem load_cons (b : UInt8) (bs : List UInt8) :
    (load (b :: bs) : BitVec w) = ofByte b ^^^ load bs <<< 8 := by
  apply BitVec.eq_of_getLsbD_eq
  intro i hi
  have hbyte : b.toNat < 2 ^ 8 := b.toNat_lt
  have hsum : b.toNat + 256 * LittleEndian.decode bs = 2 ^ 8 * LittleEndian.decode bs + b.toNat :=
    Nat.add_comm ..
  rw [load, LittleEndian.decode, hsum, ofByte, load, BitVec.getLsbD_xor, BitVec.getLsbD_shiftLeft,
    BitVec.getLsbD_ofNat, BitVec.getLsbD_ofNat, BitVec.getLsbD_ofNat,
    Nat.testBit_two_pow_mul_add _ hbyte]
  by_cases hlow : i < 8
  · simp [hi, hlow]
  · have hhigh : b.toNat.testBit i = false :=
      Nat.testBit_lt_two_pow (hbyte.trans_le (Nat.pow_le_pow_right (by decide) (Nat.not_lt.mp hlow)))
    simp [hi, hlow, hhigh, show i - 8 < w by omega]

/-- A byte goes through the register. -/
def feed (x : BitVec w) (b : UInt8) : BitVec w := (step poly)^[8] (x ^^^ ofByte b)

/-- A byte string goes through the register. -/
def feedAll (x : BitVec w) (bs : List UInt8) : BitVec w := bs.foldl (feed poly) x

@[simp] theorem feedAll_nil (x : BitVec w) : feedAll poly x [] = x := rfl

@[simp] theorem feedAll_cons (x : BitVec w) (b : UInt8) (bs : List UInt8) :
    feedAll poly x (b :: bs) = feedAll poly (feed poly x b) bs := rfl

theorem feedAll_append (x : BitVec w) (bs bs' : List UInt8) :
    feedAll poly x (bs ++ bs') = feedAll poly (feedAll poly x bs) bs' := List.foldl_append

/-- The bytes of a word are shifted out of it one after the other. -/
theorem iterate_step_load_shiftLeft {bs : List UInt8} (h : 8 * (bs.length + 1) ≤ w) :
    (step poly)^[8] ((load bs : BitVec w) <<< 8) = load bs := by
  apply iterate_step_shiftLeft poly
  have hlt := LittleEndian.decode_lt bs
  have hbits : 256 ^ bs.length * 2 ^ 8 = 2 ^ (8 * (bs.length + 1)) := by
    rw [show 256 = 2 ^ 8 from rfl, ← Nat.pow_mul, ← Nat.pow_add, Nat.mul_succ]
  calc (load bs : BitVec w).toNat * 2 ^ 8
      ≤ LittleEndian.decode bs * 2 ^ 8 :=
        Nat.mul_le_mul_right _ (by rw [load, BitVec.toNat_ofNat]; exact Nat.mod_le ..)
    _ < 256 ^ bs.length * 2 ^ 8 := Nat.mul_lt_mul_of_pos_right hlt (by decide)
    _ ≤ 2 ^ w := hbits ▸ Nat.pow_le_pow_right (by decide) h

/-- **A word can be fed in at once.** -/
theorem feedAll_eq_load {bs : List UInt8} (x : BitVec w) (h : 8 * bs.length ≤ w) :
    feedAll poly x bs = (step poly)^[8 * bs.length] (x ^^^ load bs) := by
  induction bs generalizing x with
  | nil => simp [load, LittleEndian.decode]
  | cons b bs ih =>
    rw [List.length_cons] at h
    rw [feedAll_cons, ih _ (by omega), feed, load_cons, List.length_cons, Nat.mul_succ,
      Function.iterate_add_apply, ← BitVec.xor_assoc, iterate_step_xor poly 8 (x ^^^ ofByte b),
      iterate_step_load_shiftLeft poly h]

end ShiftRegister
