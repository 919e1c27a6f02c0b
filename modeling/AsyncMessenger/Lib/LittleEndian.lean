import Mathlib.Algebra.Order.Ring.Nat
import Mathlib.Data.List.Basic
import Mathlib.Data.Nat.Digits.Defs
import Mathlib.Tactic.Common

/-!
# Little-endian fixed-width integers

`encode k n` writes the low `k` bytes of `n`, least significant first, and `decode` reads a byte
string back. Writing truncates, so the round trip is the residue modulo `256 ^ k`. In the other
direction nothing is lost: every byte string is the encoding of its number in its length.

A packed record is a list of field widths; `encodeFields` and `decodeFields` write and read the
fields one after the other. `Fits` says that no value is truncated.
-/

namespace LittleEndian

/-- The low `k` bytes of `n`, least significant first. -/
def encode : ℕ → ℕ → List UInt8
  | 0, _ => []
  | k + 1, n => UInt8.ofNat n :: encode k (n / 256)

/-- The number a byte string denotes. -/
def decode : List UInt8 → ℕ
  | [] => 0
  | b :: bs => b.toNat + 256 * decode bs

/-- The bytes are the digits of the number. -/
theorem decode_eq_ofDigits (bs : List UInt8) :
    decode bs = Nat.ofDigits 256 (bs.map UInt8.toNat) := by
  induction bs with
  | nil => rfl
  | cons b bs ih => rw [decode, ih, List.map_cons, Nat.ofDigits_cons]

@[simp] theorem length_encode (k n : ℕ) : (encode k n).length = k := by
  induction k generalizing n with
  | zero => rfl
  | succ k ih => rw [encode, List.length_cons, ih]

theorem decode_encode (k n : ℕ) : decode (encode k n) = n % 256 ^ k := by
  induction k generalizing n with
  | zero => rw [encode, decode, Nat.pow_zero, Nat.mod_one]
  | succ k ih =>
    have hbyte : (UInt8.ofNat n).toNat = n % 256 := UInt8.toNat_ofNat'
    rw [encode, decode, ih, hbyte, Nat.pow_succ, Nat.mul_comm (256 ^ k) 256, Nat.mod_mul]

theorem decode_encode_of_lt {k n : ℕ} (h : n < 256 ^ k) : decode (encode k n) = n := by
  rw [decode_encode, Nat.mod_eq_of_lt h]

theorem decode_lt (bs : List UInt8) : decode bs < 256 ^ bs.length := by
  rw [decode_eq_ofDigits, ← List.length_map UInt8.toNat]
  refine Nat.ofDigits_lt_base_pow_length (by decide) fun n hn ↦ ?_
  obtain ⟨b, -, rfl⟩ := List.mem_map.mp hn
  exact b.toNat_lt

theorem decode_append (bs bs' : List UInt8) :
    decode (bs ++ bs') = decode bs + 256 ^ bs.length * decode bs' := by
  rw [decode_eq_ofDigits, List.map_append, Nat.ofDigits_append, List.length_map,
    ← decode_eq_ofDigits, ← decode_eq_ofDigits]

theorem encode_decode (bs : List UInt8) : encode bs.length (decode bs) = bs := by
  induction bs with
  | nil => rfl
  | cons b bs ih =>
    have hb := b.toNat_lt
    have hquot : (b.toNat + 256 * decode bs) / 256 = decode bs := by omega
    have hbyte : UInt8.ofNat (b.toNat + 256 * decode bs) = b := by
      apply UInt8.toNat_inj.mp
      rw [UInt8.toNat_ofNat']
      omega
    rw [List.length_cons, decode, encode, hquot, hbyte, ih]

theorem encode_decode_of_length {bs : List UInt8} {k : ℕ} (h : bs.length = k) : encode k (decode bs) = bs :=
  h ▸ encode_decode bs

/-! ## Packed records

The round trips of records follow from those of their fields, one for each direction. -/

/-- The fields `vs`, each in the width `ws` gives it. -/
def encodeFields : List ℕ → List ℕ → List UInt8
  | w :: ws, v :: vs => encode w v ++ encodeFields ws vs
  | _, _ => []

/-- Read one field for each width. -/
def decodeFields : List ℕ → List UInt8 → List ℕ
  | [], _ => []
  | w :: ws, bs => decode (bs.take w) :: decodeFields ws (bs.drop w)

theorem length_encodeFields {ws vs : List ℕ} (h : ws.length = vs.length) :
    (encodeFields ws vs).length = ws.sum := by
  induction ws generalizing vs with
  | nil => rw [encodeFields] <;> simp
  | cons w ws ih =>
    cases vs with
    | nil => simp at h
    | cons v vs =>
      rw [encodeFields, List.length_append, length_encode, ih (by simpa using h), List.sum_cons]

/-- Every value fits into its field. -/
def Fits : List ℕ → List ℕ → Prop
  | [], [] => True
  | w :: ws, v :: vs => v < 256 ^ w ∧ Fits ws vs
  | _, _ => False

instance decidableFits : (ws vs : List ℕ) → Decidable (Fits ws vs)
  | [], [] => isTrue trivial
  | w :: ws, v :: vs =>
    have := decidableFits ws vs
    inferInstanceAs (Decidable (v < 256 ^ w ∧ Fits ws vs))
  | [], _ :: _ => isFalse id
  | _ :: _, [] => isFalse id

theorem decodeFields_encodeFields {ws vs : List ℕ} (h : Fits ws vs) :
    decodeFields ws (encodeFields ws vs) = vs := by
  induction ws generalizing vs with
  | nil =>
    cases vs with
    | nil => rfl
    | cons v vs => exact absurd h (by simp [Fits])
  | cons w ws ih =>
    cases vs with
    | nil => exact absurd h (by simp [Fits])
    | cons v vs =>
      rw [encodeFields, decodeFields, List.take_left' (length_encode w v),
        List.drop_left' (length_encode w v), decode_encode_of_lt h.1, ih h.2]

theorem fits_decodeFields (ws : List ℕ) (bs : List UInt8) : Fits ws (decodeFields ws bs) := by
  induction ws generalizing bs with
  | nil => exact trivial
  | cons w ws ih =>
    refine ⟨(decode_lt _).trans_le (Nat.pow_le_pow_right (by decide) ?_), ih _⟩
    exact List.length_take_le w bs

theorem encodeFields_decodeFields {ws : List ℕ} {bs : List UInt8} (h : bs.length = ws.sum) :
    encodeFields ws (decodeFields ws bs) = bs := by
  induction ws generalizing bs with
  | nil => exact (List.eq_nil_of_length_eq_zero h).symm
  | cons w ws ih =>
    rw [List.sum_cons] at h
    have htake : (bs.take w).length = w := by
      rw [List.length_take]
      omega
    have hdrop : (bs.drop w).length = ws.sum := by
      rw [List.length_drop]
      omega
    rw [decodeFields, encodeFields, encode_decode_of_length htake, ih hdrop, List.take_append_drop]

end LittleEndian
