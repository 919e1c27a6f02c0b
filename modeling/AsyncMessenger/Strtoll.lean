import Mathlib.Algebra.Order.Ring.Int
import Mathlib.Data.List.TakeWhile

/-!
# Numbers in text

The decimal numbers of the C library: `strtoll` skips blanks, takes a sign and digits, and says
where it has stopped; `strtol`, which has 64 bits as well, does the same, and `atoi` cuts its result
down to an `int`. A number that does not fit is replaced by the nearest that does.

The numbers that the output operators write are `Nat.toDigits`, and `strtoll` reads them back
(`strtoll_toDigits`), whatever follows them that is not a digit. The value of a row of digits is
`Nat.ofDigitChars`, so that what is known of it need not be proved again.
-/

namespace AsyncMessenger

/-- `isspace`, in the C locale. -/
def isspace (c : Char) : Bool := c = ' ' || (9 ≤ c.toNat && c.toNat ≤ 13)

/-- The sign, if there is one: whether it is a minus, and what follows it. -/
def takeSign : List Char → Bool × List Char
  | '-' :: text => (true, text)
  | '+' :: text => (false, text)
  | text => (false, text)

/-- A number that does not fit is replaced by the nearest that does. -/
def clampLong (z : ℤ) : ℤ := max (-2 ^ 63) (min z (2 ^ 63 - 1))

/-- `strtoll(text, &end, 10)`: the number, and the text from `end` on. -/
def strtoll (text : List Char) : ℤ × List Char :=
  let (negative, rest) := takeSign (text.dropWhile isspace)
  let digits := rest.takeWhile Char.isDigit
  if digits = [] then (0, text)
  else
    let n : ℤ := Nat.ofDigitChars 10 digits 0
    (clampLong (if negative then -n else n), rest.dropWhile Char.isDigit)

/-- `atoi`. -/
def atoi (text : List Char) : ℤ := Int.bmod (strtoll text).1 (2 ^ 32)

theorem clampLong_of_nonneg {n : ℕ} (h : n < 2 ^ 63) : clampLong n = n := by
  rw [clampLong]
  omega

theorem clampLong_bounds (z : ℤ) : -2 ^ 63 ≤ clampLong z ∧ clampLong z < 2 ^ 63 := by
  rw [clampLong]
  omega

theorem strtoll_bounds (text : List Char) : -2 ^ 63 ≤ (strtoll text).1 ∧ (strtoll text).1 < 2 ^ 63 := by
  rw [strtoll]
  obtain ⟨negative, rest⟩ := takeSign (text.dropWhile isspace)
  dsimp only
  by_cases hnil : rest.takeWhile Char.isDigit = []
  · rw [if_pos hnil]
    omega
  · rw [if_neg hnil]
    exact clampLong_bounds _

section Digits

variable {ds rest : List Char} {c : Char}

theorem toNat_of_isDigit (h : c.isDigit) : 48 ≤ c.toNat ∧ c.toNat ≤ 57 := Char.isDigit_iff_toNat.mp h

theorem not_isspace_of_isDigit (h : c.isDigit) : isspace c = false := by
  have hc := toNat_of_isDigit h
  have hne : c ≠ ' ' := by
    rintro rfl
    exact absurd h (by decide)
  rw [isspace, decide_eq_false hne, Bool.false_or, Bool.and_eq_false_iff, decide_eq_false_iff_not,
    decide_eq_false_iff_not]
  omega

theorem takeSign_of_isDigit (h : c.isDigit) : takeSign (c :: rest) = (false, c :: rest) := by
  have hminus : c ≠ '-' := by
    rintro rfl
    exact absurd h (by decide)
  have hplus : c ≠ '+' := by
    rintro rfl
    exact absurd h (by decide)
  rw [takeSign]
  · exact fun _ heq ↦ hminus (List.cons.inj heq).1
  · exact fun _ heq ↦ hplus (List.cons.inj heq).1

/-- Digits are read up to the first character that is not one. -/
theorem strtoll_digits (hne : ds ≠ []) (hdigits : ∀ c ∈ ds, c.isDigit)
    (hrest : ∀ c ∈ rest.head?, c.isDigit = false) :
    strtoll (ds ++ rest) = (clampLong (Nat.ofDigitChars 10 ds 0 : ℕ), rest) := by
  have hnone : rest.takeWhile Char.isDigit = [] ∧ rest.dropWhile Char.isDigit = rest := by
    cases rest with
    | nil => exact ⟨rfl, rfl⟩
    | cons c rest =>
      have hc : ¬c.isDigit = true := by simp [hrest c rfl]
      exact ⟨List.takeWhile_cons_of_neg hc, List.dropWhile_cons_of_neg hc⟩
  obtain ⟨c, ds', rfl⟩ := List.exists_cons_of_ne_nil hne
  have hc := hdigits c List.mem_cons_self
  have hspace : (c :: ds' ++ rest).dropWhile isspace = c :: ds' ++ rest :=
    List.dropWhile_cons_of_neg (by simp [not_isspace_of_isDigit hc])
  have hsign : takeSign (c :: ds' ++ rest) = (false, c :: ds' ++ rest) := takeSign_of_isDigit hc
  rw [strtoll, hspace, hsign]
  dsimp only
  rw [List.takeWhile_append_of_pos hdigits, List.dropWhile_append_of_pos hdigits, hnone.1, hnone.2,
    List.append_nil, if_neg hne]
  rfl

/-- So many digits do not make a larger number. -/
theorem ofDigitChars_lt (hdigits : ∀ c ∈ ds, c.isDigit) :
    Nat.ofDigitChars 10 ds 0 < 10 ^ ds.length := by
  induction ds with
  | nil => simp
  | cons c ds ih =>
    have hc := toNat_of_isDigit (hdigits c List.mem_cons_self)
    have hrest := ih fun d hd ↦ hdigits d (List.mem_cons_of_mem c hd)
    have hdigit : '0'.toNat = 48 := rfl
    rw [Nat.ofDigitChars_cons, Nat.ofDigitChars_eq_ofDigitChars_zero, List.length_cons, Nat.pow_succ]
    have hbound : 10 ^ ds.length * (10 * 0 + (c.toNat - '0'.toNat)) ≤ 10 ^ ds.length * 9 :=
      Nat.mul_le_mul_left _ (by omega)
    omega

end Digits

/-- **A number is read back.** -/
theorem strtoll_toDigits {n : ℕ} (hn : n < 2 ^ 63) {rest : List Char}
    (hrest : ∀ c ∈ rest.head?, c.isDigit = false) :
    strtoll (Nat.toDigits 10 n ++ rest) = ((n : ℤ), rest) := by
  have hdigits : ∀ c ∈ Nat.toDigits 10 n, c.isDigit :=
    fun c hc ↦ Nat.isDigit_of_mem_toDigits (by decide) (by decide) hc
  rw [strtoll_digits Nat.toDigits_ne_nil hdigits hrest, Nat.ofDigitChars_ten_toDigits,
    clampLong_of_nonneg hn]

/-- Without its first digit a number is less than it was. -/
theorem strtoll_tail_lt {n : ℕ} (hn : n < 2 ^ 63) {d : Char} {ds rest : List Char}
    (hcons : Nat.toDigits 10 n = d :: ds) (hne : ds ≠ [])
    (hrest : ∀ c ∈ rest.head?, c.isDigit = false) :
    (strtoll (ds ++ rest)).1 < n := by
  have hdigits : ∀ c ∈ ds, c.isDigit := fun c hc ↦
    Nat.isDigit_of_mem_toDigits (by decide) (by decide) (hcons ▸ List.mem_cons_of_mem d hc)
  have hlt := ofDigitChars_lt hdigits
  have hlong : ¬n < 10 ^ ds.length := by
    rw [← Nat.length_toDigits_le_iff (by decide : 1 < 10) (List.length_pos_iff.mpr hne), hcons,
      List.length_cons]
    exact Nat.not_succ_le_self _
  rw [strtoll_digits hne hdigits hrest, clampLong_of_nonneg (by omega)]
  omega

end AsyncMessenger
