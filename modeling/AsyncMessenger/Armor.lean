import AsyncMessenger.Iterator

/-!
# Base64

`armor_line_break` turns three bytes into four characters, and fills up the last four with `=`.
After each group of four it looks whether the line has the width exactly, so there are line breaks
only if the width is a multiple of four. `unarmor` skips line breaks between groups, and returns at
the first `=`.

## The text

What is written is a function of the source and the width (`text`), one group after the other, with
the line breaks that the counter `line` leads to. The two loops are related to it by induction on
the groups of the source (`three_induction`): `armorLoop_put` says that the loop writes the text,
`unarmorLoop_text` that the source comes out of it again.

## Any input

`unarmor` may also be given what nobody has armored. Whatever that is, it returns, has read inside
of the source and written inside of the destination (`unarmor_returns`), and a result that is not
negative says how much was written.

## The lengths

Both write through `set_str_val`, which goes up to `dst_end`, and count what they have written in an
`int`. So a text of `2^31` characters or more is written, but its length is not returned. This is
the only way for a round trip to fail, and `roundTrips_iff` says so.
-/

namespace AsyncMessenger

namespace Armor

open Iter

/-! ## Characters -/

def char (c : Char) : UInt8 := .ofNat c.toNat

def pemKey : Bytes :=
  "ABCDEFGHIJKLMNOPQRSTUVWXYZabcdefghijklmnopqrstuvwxyz0123456789+/".toList.map char

def encodeBits (c : ℕ) : UInt8 := pemKey.getD c 0

/-- `decode_bits`; `none` is `-EINVAL`. -/
def decodeBits (c : UInt8) : Option ℕ :=
  if char 'A' ≤ c ∧ c ≤ char 'Z' then some (c.toNat - 65)
  else if char 'a' ≤ c ∧ c ≤ char 'z' then some (c.toNat - 97 + 26)
  else if char '0' ≤ c ∧ c ≤ char '9' then some (c.toNat - 48 + 52)
  else if c = char '+' ∨ c = char '-' then some 62
  else if c = char '/' ∨ c = char '_' then some 63
  else if c = char '=' then some 0
  else none

/-! ## The destination -/

/-- The memory of the destination, and `dst`. -/
structure Dst where
  mem : Bytes
  pos : ℕ
  deriving DecidableEq, Repr

def einval : ℤ := 22

def erange : ℤ := 34

/-- `SET_DST` of one character after the other, until there is no room. -/
def setDst (stop : ℕ) : Bytes → Dst → Bool × Dst
  | [], d => (true, d)
  | c :: cs, d => if d.pos < stop then setDst stop cs ⟨d.mem.set d.pos c, d.pos + 1⟩ else (false, d)

/-- An `int`. -/
def int (n : ℤ) : ℤ := n.bmod (2 ^ 32)

/-! ## `armor_line_break` -/

/-- The end of one round of the loop, from the first `SET_DST` on. -/
def emit (stop : ℕ) (lineWidth : ℤ) (chars : Bytes) (next : ℤ → ℤ → Dst → ℤ × Dst) (olen line : ℤ)
    (d : Dst) : ℤ × Dst :=
  match setDst stop chars d with
  | (false, d) => (-erange, d)
  | (true, d) =>
    if lineWidth ≠ 0 ∧ int (line + 4) = lineWidth then
      match setDst stop [char '\n'] d with
      | (false, d) => (-erange, d)
      | (true, d) => next (int (int (olen + 4) + 1)) 0 d
    else next (int (olen + 4)) (int (line + 4)) d

/-- The loop: what is left of the source, `olen`, `line` and the destination. -/
def armorLoop (stop : ℕ) (lineWidth : ℤ) : Bytes → ℤ → ℤ → Dst → ℤ × Dst
  | a :: b :: c :: src =>
    emit stop lineWidth
      [encodeBits (a.toNat >>> 2), encodeBits ((a.toNat &&& 3) <<< 4 ||| b.toNat >>> 4),
        encodeBits ((b.toNat &&& 15) <<< 2 ||| c.toNat >>> 6), encodeBits (c.toNat &&& 63)]
      (armorLoop stop lineWidth src)
  | [a, b] =>
    emit stop lineWidth
      [encodeBits (a.toNat >>> 2), encodeBits ((a.toNat &&& 3) <<< 4 ||| b.toNat >>> 4),
        encodeBits ((b.toNat &&& 15) <<< 2), char '=']
      fun olen _ d ↦ (olen, d)
  | [a] =>
    emit stop lineWidth
      [encodeBits (a.toNat >>> 2), encodeBits ((a.toNat &&& 3) <<< 4), char '=', char '=']
      fun olen _ d ↦ (olen, d)
  | [] => fun olen _ d ↦ (olen, d)

/-- `armor_line_break`: what it returns, and the destination. -/
def armorLineBreak (stop : ℕ) (src : Bytes) (lineWidth : ℤ) (d : Dst) : ℤ × Dst :=
  armorLoop stop lineWidth src 0 0 d

def armor (stop : ℕ) (src : Bytes) (d : Dst) : ℤ × Dst := armorLineBreak stop src 0 d

/-! ## `unarmor` -/

/-- How `unarmor` ends. -/
inductive End
  | returned (r : ℤ)
  /-- A byte has been read that is not one of the source. -/
  | stray
  /-- The rounds were not enough. -/
  | hang
  deriving DecidableEq, Repr

/-- The end of one round of the loop, from the first `SET_DST` on. -/
def unpack (stop : ℕ) (s₂ s₃ : UInt8) (v₀ v₁ v₂ v₃ : ℕ) (next : ℤ → Dst → End × Dst) (olen : ℤ)
    (d : Dst) : End × Dst :=
  match setDst stop [.ofNat (v₀ <<< 2 ||| v₁ >>> 4)] d with
  | (false, d) => (.returned (-erange), d)
  | (true, d) =>
    if s₂ = char '=' then (.returned (int (olen + 1)), d)
    else
      match setDst stop [.ofNat ((v₁ &&& 15) <<< 4 ||| v₂ >>> 2)] d with
      | (false, d) => (.returned (-erange), d)
      | (true, d) =>
        if s₃ = char '=' then (.returned (int (olen + 2)), d)
        else
          match setDst stop [.ofNat ((v₂ &&& 3) <<< 6 ||| v₃)] d with
          | (false, d) => (.returned (-erange), d)
          | (true, d) => next (int (olen + 3)) d

/-- The loop, with at most so many rounds: what is left of the source, `olen` and the destination. -/
def unarmorLoop (stop : ℕ) : ℕ → Bytes → ℤ → Dst → End × Dst
  | 0, _, _, d => (.hang, d)
  | fuel + 1, src, olen, d =>
    if src = [] then (.returned olen, d)
    else
      match src[0]? with
      | none => (.stray, d)
      | some s₀ =>
        if s₀ = char '\n' then unarmorLoop stop fuel (src.drop 1) olen d
        else if src.length < 4 then (.returned (-einval), d)
        else
          match src[1]?, src[2]?, src[3]? with
          | some s₁, some s₂, some s₃ =>
            match decodeBits s₀, decodeBits s₁, decodeBits s₂, decodeBits s₃ with
            | some v₀, some v₁, some v₂, some v₃ =>
              unpack stop s₂ s₃ v₀ v₁ v₂ v₃ (unarmorLoop stop fuel (src.drop 4)) olen d
            | _, _, _, _ => (.returned (-einval), d)
          | _, _, _ => (.stray, d)

/-- `unarmor`. -/
def unarmor (stop : ℕ) (src : Bytes) (d : Dst) : End × Dst :=
  unarmorLoop stop (src.length + 1) src 0 d

/-! ## Lemmas on characters -/

section Characters

set_option maxRecDepth 4000

theorem decodeBits_encodeBits {v : ℕ} (hv : v < 64) : decodeBits (encodeBits v) = some v := by
  have hall : ∀ v : Fin 64, decodeBits (encodeBits v) = some v.1 := by decide
  exact hall ⟨v, hv⟩

theorem encodeBits_ne {v : ℕ} (hv : v < 64) :
    encodeBits v ≠ char '\n' ∧ encodeBits v ≠ char '=' := by
  have hall : ∀ v : Fin 64, encodeBits v ≠ char '\n' ∧ encodeBits v ≠ char '=' := by decide
  exact hall ⟨v, hv⟩

theorem decodeBits_newline : decodeBits (char '\n') = none := by decide

theorem decodeBits_pad : decodeBits (char '=') = some 0 := by decide

end Characters

/-! ## Six bits and eight bits

A byte goes into two characters. The three facts that matter, one for each byte of a group, are
checked on all values. -/

theorem shiftLeft_or {x y : ℕ} (i : ℕ) (hy : y < 2 ^ i) : x <<< i ||| y = x * 2 ^ i + y := by
  rw [← Nat.shiftLeft_add_eq_or_of_lt hy, Nat.shiftLeft_eq]

theorem and_mask (x i : ℕ) : x &&& (2 ^ i - 1) = x % 2 ^ i := Nat.and_two_pow_sub_one_eq_mod x i

section Bits

variable {a b c : ℕ}

theorem first_lt (ha : a < 256) : a >>> 2 < 64 := by
  rw [Nat.shiftRight_eq_div_pow]
  omega

theorem second_eq (a : ℕ) (hb : b < 256) : (a &&& 3) <<< 4 ||| b >>> 4 = a % 4 * 16 + b / 16 := by
  have hmask : a &&& 3 = a % 4 := and_mask a 2
  rw [Nat.shiftRight_eq_div_pow, shiftLeft_or 4 (by omega), hmask]
  omega

theorem third_eq (b : ℕ) (hc : c < 256) : (b &&& 15) <<< 2 ||| c >>> 6 = b % 16 * 4 + c / 64 := by
  have hmask : b &&& 15 = b % 16 := and_mask b 4
  rw [Nat.shiftRight_eq_div_pow, shiftLeft_or 2 (by omega), hmask]
  omega

theorem fourth_eq (c : ℕ) : c &&& 63 = c % 64 := and_mask c 6

/-- The first byte comes back from the first two characters. -/
theorem first_back (a : ℕ) (hb : b < 256) :
    a >>> 2 <<< 2 ||| (a % 4 * 16 + b / 16) >>> 4 = a := by
  rw [Nat.shiftRight_eq_div_pow, Nat.shiftRight_eq_div_pow, shiftLeft_or 2 (by omega)]
  omega

/-- The second byte comes back from the second and the third. -/
theorem second_back (a : ℕ) (hb : b < 256) (hc : c < 256) :
    ((a % 4 * 16 + b / 16) &&& 15) <<< 4 ||| (b % 16 * 4 + c / 64) >>> 2 = b := by
  have hmask : (a % 4 * 16 + b / 16) &&& 15 = (a % 4 * 16 + b / 16) % 16 := and_mask _ 4
  rw [Nat.shiftRight_eq_div_pow, shiftLeft_or 4 (by omega), hmask]
  omega

/-- The third byte comes back from the third and the fourth. -/
theorem third_back (b : ℕ) (hc : c < 256) :
    ((b % 16 * 4 + c / 64) &&& 3) <<< 6 ||| c % 64 = c := by
  have hmask : (b % 16 * 4 + c / 64) &&& 3 = (b % 16 * 4 + c / 64) % 4 := and_mask _ 2
  rw [shiftLeft_or 6 (by omega), hmask]
  omega

end Bits

/-! ## Writing

With room, writing is putting characters at `dst`. The counts are kept as an `int`, of which the
lemmas say when it is the number itself. -/

namespace Dst

/-- The destination after these characters. -/
def put (d : Dst) (cs : Bytes) : Dst := ⟨patch d.mem d.pos cs, d.pos + cs.length⟩

variable {d : Dst} {cs cs' : Bytes} {stop : ℕ}

theorem put_nil (d : Dst) : d.put [] = d := by
  rw [put, patch_nil, List.length_nil, Nat.add_zero]

theorem put_put (hle : d.pos + (cs ++ cs').length ≤ d.mem.length) :
    (d.put cs).put cs' = d.put (cs ++ cs') := by
  rw [put, put, put, patch_patch cs cs' hle, List.length_append, Nat.add_assoc]

theorem length_put (hle : d.pos + cs.length ≤ d.mem.length) : (d.put cs).mem.length = d.mem.length :=
  length_patch hle

end Dst

theorem setDst_put {d : Dst} {stop : ℕ} (cs : Bytes) (hroom : d.pos + cs.length ≤ stop)
    (hstop : stop ≤ d.mem.length) : setDst stop cs d = (true, d.put cs) := by
  induction cs generalizing d with
  | nil => rw [setDst, Dst.put_nil]
  | cons c cs ih =>
    rw [List.length_cons] at hroom
    have hone : (⟨d.mem.set d.pos c, d.pos + 1⟩ : Dst) = d.put [c] := by
      rw [Dst.put, patch, List.set_eq_take_append_cons_drop, if_pos (by omega), List.append_assoc]
      rfl
    have hall : d.pos + ([c] ++ cs).length ≤ d.mem.length := by
      rw [List.length_append, List.length_singleton]
      omega
    have hpos : (d.put [c]).pos = d.pos + 1 := rfl
    have hlen : (d.put [c]).mem.length = d.mem.length :=
      Dst.length_put (by rw [List.length_singleton]; omega)
    rw [setDst, if_pos (by omega), hone, ih (by omega) (by omega), Dst.put_put hall]
    rfl

theorem int_of_lt {n : ℤ} (hn : 0 ≤ n) (hlt : n < 2 ^ 31) : int n = n :=
  Int.bmod_eq_of_le (by omega) (by omega)

theorem int_le {n : ℤ} (hn : 0 ≤ n) : int n ≤ n := by
  rw [int, Int.bmod_def]
  split <;> omega

theorem four_dvd_int {n : ℤ} (hn : 4 ∣ n) : 4 ∣ int n := by
  rw [int, Int.bmod_eq_self_sub_mul_bdiv]
  exact Int.dvd_sub hn (Dvd.dvd.mul_right (by decide) _)

theorem int_add (m n : ℤ) : int (int m + n) = int (m + n) := Int.bmod_add_bmod

/-! ## What `armor_line_break` writes

The text is defined for a line that is not empty, as the loop meets it: what follows a group depends
on the characters that are on the line already. -/

/-- The four characters that the source begins with. -/
def group : Bytes → Bytes
  | a :: b :: c :: _ =>
    [encodeBits (a.toNat >>> 2), encodeBits ((a.toNat &&& 3) <<< 4 ||| b.toNat >>> 4),
      encodeBits ((b.toNat &&& 15) <<< 2 ||| c.toNat >>> 6), encodeBits (c.toNat &&& 63)]
  | [a, b] =>
    [encodeBits (a.toNat >>> 2), encodeBits ((a.toNat &&& 3) <<< 4 ||| b.toNat >>> 4),
      encodeBits ((b.toNat &&& 15) <<< 2), char '=']
  | [a] => [encodeBits (a.toNat >>> 2), encodeBits ((a.toNat &&& 3) <<< 4), char '=', char '=']
  | [] => []

/-- The line is full after four more characters. -/
def Full (lineWidth line : ℤ) : Prop := lineWidth ≠ 0 ∧ int (line + 4) = lineWidth

instance (lineWidth line : ℤ) : Decidable (Full lineWidth line) := inferInstanceAs (Decidable (_ ∧ _))

/-- What follows a group. -/
def lineBreak (lineWidth line : ℤ) : Bytes := if Full lineWidth line then [char '\n'] else []

/-- How long the line is after that. -/
def nextLine (lineWidth line : ℤ) : ℤ := if Full lineWidth line then 0 else int (line + 4)

/-- The text of a source on a line that is not empty. -/
def text (lineWidth : ℤ) (src : Bytes) (line : ℤ) : Bytes :=
  if src = [] then []
  else group src ++ (lineBreak lineWidth line ++ text lineWidth (src.drop 3) (nextLine lineWidth line))
termination_by src.length
decreasing_by
  have hpos := List.length_pos_iff.mpr ‹_›
  rw [List.length_drop]
  omega

/-- What holds of nothing, and of a source if it holds of what is left after its first three bytes. -/
theorem three_induction {P : Bytes → Prop} (hnil : P [])
    (hstep : ∀ src, src ≠ [] → P (src.drop 3) → P src) (src : Bytes) : P src := by
  induction hn : src.length using Nat.strong_induction_on generalizing src with
  | h n ih =>
    by_cases hsrc : src = []
    · exact hsrc ▸ hnil
    · have hpos := List.length_pos_iff.mpr hsrc
      exact hstep src hsrc (ih _ (by rw [List.length_drop]; omega) _ rfl)

theorem length_group {src : Bytes} (hsrc : src ≠ []) : (group src).length = 4 := by
  match src with
  | [a] => rfl
  | [a, b] => rfl
  | a :: b :: c :: _ => rfl

/-- One round of the loop, whatever is left of the source. -/
theorem armorLoop_eq (stop : ℕ) (lineWidth : ℤ) {src : Bytes} (hsrc : src ≠ []) :
    armorLoop stop lineWidth src =
      emit stop lineWidth (group src) (armorLoop stop lineWidth (src.drop 3)) := by
  match src with
  | [a] => rfl
  | [a, b] => rfl
  | a :: b :: c :: _ => rfl

/-- One round of the loop, if there is room. -/
theorem emit_put {stop : ℕ} {lineWidth line o : ℤ} {chars : Bytes} {d : Dst}
    (next : ℤ → ℤ → Dst → ℤ × Dst) (hchars : chars.length = 4)
    (hroom : d.pos + (chars ++ lineBreak lineWidth line).length ≤ stop) (hstop : stop ≤ d.mem.length) :
    emit stop lineWidth chars next (int o) line d =
      next (int (o + (chars ++ lineBreak lineWidth line).length)) (nextLine lineWidth line)
        (d.put (chars ++ lineBreak lineWidth line)) := by
  have hsum : d.pos + (chars.length + (lineBreak lineWidth line).length) ≤ stop := by
    rwa [List.length_append] at hroom
  rw [emit, setDst_put chars (by omega) hstop]
  dsimp only
  by_cases hfull : Full lineWidth line
  · have hbreak : lineBreak lineWidth line = [char '\n'] := if_pos hfull
    rw [hbreak, List.length_singleton] at hsum
    have hpos : (d.put chars).pos = d.pos + chars.length := rfl
    have hlen : (d.put chars).mem.length = d.mem.length := Dst.length_put (by omega)
    have hcond : lineWidth ≠ 0 ∧ int (line + 4) = lineWidth := hfull
    rw [if_pos hcond, nextLine, if_pos hfull, hbreak,
      setDst_put [char '\n'] (by rw [List.length_singleton]; omega) (by omega)]
    dsimp only
    rw [Dst.put_put (by rw [List.length_append, List.length_singleton]; omega), int_add,
      Int.add_assoc, int_add, List.length_append, hchars, List.length_singleton]
    rfl
  · have hbreak : lineBreak lineWidth line = [] := if_neg hfull
    have hcond : ¬(lineWidth ≠ 0 ∧ int (line + 4) = lineWidth) := hfull
    rw [if_neg hcond, nextLine, if_neg hfull, hbreak, List.append_nil, int_add, hchars]
    rfl

/-- **`armor_line_break` writes the text** if there is room for it, and returns its length as an `int`. -/
theorem armorLoop_put (stop : ℕ) (lineWidth : ℤ) (src : Bytes) (o line : ℤ) {d : Dst}
    (hroom : d.pos + (text lineWidth src line).length ≤ stop) (hstop : stop ≤ d.mem.length) :
    armorLoop stop lineWidth src (int o) line d =
      (int (o + (text lineWidth src line).length), d.put (text lineWidth src line)) := by
  induction src using three_induction generalizing o line d with
  | hnil =>
    rw [text, if_pos rfl, Dst.put_nil, List.length_nil]
    exact congrArg (fun n ↦ (int n, d)) (Int.add_zero o).symm
  | hstep src hsrc ih =>
    rw [text, if_neg hsrc, ← List.append_assoc] at hroom ⊢
    rw [List.length_append] at hroom
    have hpos (cs : Bytes) : (d.put cs).pos = d.pos + cs.length := rfl
    rw [armorLoop_eq stop lineWidth hsrc, emit_put _ (length_group hsrc) (by omega) hstop,
      ih _ _ (by rw [hpos]; omega) (by rw [Dst.length_put (by omega)]; exact hstop),
      Dst.put_put (by rw [List.length_append]; omega), Int.add_assoc, ← Int.natCast_add,
      ← List.length_append]

/-! ## How long the text is

The length is that of the groups and of the line breaks, of which there is one for each full line. A
line can be full only if the width is a multiple of four. -/

/-- How many groups there are in a source of so many bytes. -/
def groups (n : ℕ) : ℕ := (n + 2) / 3

/-- How long the text of so many bytes is: there is a line break for each full line, if lines can be
full. -/
def textLength (n lineWidth : ℕ) : ℕ :=
  4 * groups n + if lineWidth ≠ 0 ∧ 4 ∣ lineWidth then 4 * groups n / lineWidth else 0

theorem groups_drop {src : Bytes} (hsrc : src ≠ []) :
    groups src.length = groups (src.drop 3).length + 1 := by
  have hpos := List.length_pos_iff.mpr hsrc
  rw [groups, groups, List.length_drop]
  omega

/-- Lines are never full. -/
theorem length_text_of_not_dvd {lineWidth : ℕ} (hwidth : ¬(lineWidth ≠ 0 ∧ 4 ∣ lineWidth)) (src : Bytes)
    {line : ℤ} (hline : 4 ∣ line) : (text lineWidth src line).length = 4 * groups src.length := by
  induction src using three_induction generalizing line with
  | hnil =>
    rw [text, if_pos rfl]
    rfl
  | hstep src hsrc ih =>
    have hnext : 4 ∣ int (line + 4) := four_dvd_int (Int.dvd_add hline (Int.dvd_refl 4))
    have hfull : ¬Full lineWidth line := fun ⟨hne, heq⟩ ↦ hwidth
      ⟨fun hzero ↦ hne (congrArg Nat.cast hzero), Int.natCast_dvd_natCast.mp (heq ▸ hnext)⟩
    rw [text, if_neg hsrc, List.length_append, List.length_append, length_group hsrc, lineBreak,
      if_neg hfull, nextLine, if_neg hfull, ih hnext, groups_drop hsrc, List.length_nil]
    omega

/-- A line is full as soon as it has the width. -/
theorem length_text_of_dvd {lineWidth : ℕ} (hwidth : 4 ∣ lineWidth) (hlt : lineWidth < 2 ^ 31)
    (src : Bytes) {line : ℕ} (hline : 4 ∣ line) (hshort : line < lineWidth) :
    (text lineWidth src line).length =
      4 * groups src.length + (line + 4 * groups src.length) / lineWidth := by
  induction src using three_induction generalizing line with
  | hnil =>
    have hnone : (line + 4 * groups ([] : Bytes).length) / lineWidth = 0 :=
      Nat.div_eq_of_lt hshort
    rw [text, if_pos rfl, hnone]
    rfl
  | hstep src hsrc ih =>
    have hint : int (line + 4) = (line + 4 : ℕ) := int_of_lt (by omega) (by omega)
    rw [text, if_neg hsrc, List.length_append, List.length_append, length_group hsrc, lineBreak,
      nextLine, groups_drop hsrc]
    by_cases hfull : Full lineWidth line
    · have hends : line + 4 = lineWidth := Int.ofNat_inj.mp (hint.symm.trans hfull.2)
      have hfirst : (line + 4 * (groups (src.drop 3).length + 1)) / lineWidth =
          (0 + 4 * groups (src.drop 3).length) / lineWidth + 1 := by
        rw [show line + 4 * (groups (src.drop 3).length + 1) =
          0 + 4 * groups (src.drop 3).length + lineWidth by omega, Nat.add_div_right _ (by omega)]
      have hrest : (text lineWidth (src.drop 3) 0).length = 4 * groups (src.drop 3).length +
          (0 + 4 * groups (src.drop 3).length) / lineWidth :=
        @ih 0 (Nat.dvd_zero 4) (Nat.zero_lt_of_lt hshort)
      rw [if_pos hfull, if_pos hfull, List.length_singleton, hfirst, hrest]
      omega
    · have hless : line + 4 < lineWidth := by
        have hne : line + 4 ≠ lineWidth := fun heq ↦ hfull ⟨by omega, by rw [hint, heq]⟩
        omega
      have hsum : line + 4 + 4 * groups (src.drop 3).length =
          line + 4 * (groups (src.drop 3).length + 1) := by omega
      rw [if_neg hfull, if_neg hfull, hint, List.length_nil,
        ih (Nat.dvd_add hline (Nat.dvd_refl 4)) hless, hsum]
      omega

theorem length_text {lineWidth : ℕ} (hlt : lineWidth < 2 ^ 31) (src : Bytes) :
    (text lineWidth src 0).length = textLength src.length lineWidth := by
  rw [textLength]
  by_cases hwidth : lineWidth ≠ 0 ∧ 4 ∣ lineWidth
  · have hlen := length_text_of_dvd hwidth.2 hlt src (Nat.dvd_zero 4) (Nat.pos_of_ne_zero hwidth.1)
    rw [Nat.zero_add] at hlen
    rw [if_pos hwidth]
    exact hlen
  · rw [if_neg hwidth, length_text_of_not_dvd hwidth src (Int.dvd_zero 4), Nat.add_zero]

/-! ## What `unarmor` does with any source

A predicate on results that goes through the loop: every way out of a round returns, and has written
only between `dst` and `dst_end`. -/

/-- Only the bytes from `dst` to `dst_end` have been written. -/
structure Within (stop : ℕ) (d d' : Dst) : Prop where
  length : d'.mem.length = d.mem.length
  before : d'.mem.take d.pos = d.mem.take d.pos
  behind : d'.mem.drop stop = d.mem.drop stop
  pos : d.pos ≤ d'.pos

theorem Within.refl (stop : ℕ) (d : Dst) : Within stop d d := ⟨rfl, rfl, rfl, le_rfl⟩

theorem Within.trans {stop : ℕ} {d d' d'' : Dst} (h : Within stop d d') (h' : Within stop d' d'') :
    Within stop d d'' where
  length := h'.length.trans h.length
  before := by
    have htake := congrArg (List.take d.pos) h'.before
    rw [List.take_take, List.take_take, Nat.min_eq_left h.pos] at htake
    exact htake.trans h.before
  behind := h'.behind.trans h.behind
  pos := h.pos.trans h'.pos

theorem setDst_within (stop : ℕ) (cs : Bytes) (d : Dst) : Within stop d (setDst stop cs d).2 := by
  induction cs generalizing d with
  | nil => exact .refl stop d
  | cons c cs ih =>
    rw [setDst]
    by_cases hroom : d.pos < stop
    · rw [if_pos hroom]
      refine Within.trans ?_ (ih _)
      exact ⟨List.length_set, List.take_set_of_le le_rfl, List.drop_set_of_lt hroom, Nat.le_succ _⟩
    · rw [if_neg hroom]
      exact .refl stop d

/-- What a call has done: it has returned, and has only written to the destination. -/
structure Returns (stop : ℕ) (d : Dst) (x : End × Dst) : Prop where
  returned : ∃ r, x.1 = .returned r
  within : Within stop d x.2

theorem Returns.of_within {stop : ℕ} {d d' : Dst} {x : End × Dst} (h : Within stop d d')
    (hx : Returns stop d' x) : Returns stop d x := ⟨hx.returned, h.trans hx.within⟩

theorem returns_now {stop : ℕ} {d d' : Dst} (h : Within stop d d') (r : ℤ) :
    Returns stop d (.returned r, d') := ⟨⟨r, rfl⟩, h⟩

/-- One `SET_DST`, and what follows it. -/
theorem Returns.setDst {stop : ℕ} {d : Dst} (cs : Bytes) {next : Dst → End × Dst}
    (hnext : ∀ d', Within stop d d' → Returns stop d (next d')) :
    Returns stop d (match Armor.setDst stop cs d with
      | (false, d) => (.returned (-erange), d)
      | (true, d) => next d) := by
  have hwithin := setDst_within stop cs d
  cases hset : Armor.setDst stop cs d with
  | mk ok d' =>
    rw [hset] at hwithin
    cases ok with
    | false => exact returns_now hwithin _
    | true => exact hnext d' hwithin

theorem unpack_returns {stop : ℕ} {next : ℤ → Dst → End × Dst}
    (hnext : ∀ olen d, Returns stop d (next olen d)) (s₂ s₃ : UInt8) (v₀ v₁ v₂ v₃ : ℕ) (olen : ℤ)
    (d : Dst) : Returns stop d (unpack stop s₂ s₃ v₀ v₁ v₂ v₃ next olen d) := by
  refine Returns.setDst _ fun d₁ h₁ ↦ ?_
  by_cases hs₂ : s₂ = char '='
  · rw [if_pos hs₂]
    exact returns_now h₁ _
  rw [if_neg hs₂]
  refine Returns.of_within h₁ (Returns.setDst _ fun d₂ h₂ ↦ ?_)
  by_cases hs₃ : s₃ = char '='
  · rw [if_pos hs₃]
    exact returns_now h₂ _
  rw [if_neg hs₃]
  exact .of_within h₂ (Returns.setDst _ fun d₃ h₃ ↦ .of_within h₃ (hnext _ d₃))

/-- **`unarmor` reads within the source and writes within the destination**, and returns. -/
theorem unarmorLoop_returns (stop : ℕ) {fuel : ℕ} {src : Bytes} (hfuel : src.length < fuel) (olen : ℤ)
    (d : Dst) : Returns stop d (unarmorLoop stop fuel src olen d) := by
  induction fuel generalizing src olen d with
  | zero => exact absurd hfuel (Nat.not_lt_zero _)
  | succ fuel ih =>
    have hself (r : ℤ) : Returns stop d (.returned r, d) := returns_now (.refl stop d) r
    rw [unarmorLoop]
    cases src with
    | nil => exact hself olen
    | cons s₀ src =>
      rw [List.length_cons] at hfuel
      rw [if_neg (List.cons_ne_nil _ _), List.getElem?_cons_zero]
      dsimp only
      by_cases hs₀ : s₀ = char '\n'
      · rw [if_pos hs₀]
        exact ih (by rw [List.drop_one, List.tail_cons]; omega) olen d
      rw [if_neg hs₀]
      by_cases hshort : (s₀ :: src).length < 4
      · rw [if_pos hshort]
        exact hself _
      rw [if_neg hshort]
      obtain ⟨s₁, s₂, s₃, rest, rfl⟩ : ∃ s₁ s₂ s₃ rest, src = s₁ :: s₂ :: s₃ :: rest := by
        match src, hshort with
        | s₁ :: s₂ :: s₃ :: rest, _ => exact ⟨s₁, s₂, s₃, rest, rfl⟩
        | [], h => exact absurd (by decide : 1 < 4) h
        | [_], h => exact absurd (by decide : 2 < 4) h
        | [_, _], h => exact absurd (by decide : 3 < 4) h
      simp only [List.getElem?_cons_succ, List.getElem?_cons_zero]
      split
      · refine unpack_returns (fun olen d ↦ ih ?_ olen d) _ _ _ _ _ _ olen d
        simp only [List.length_cons, List.length_drop] at hfuel ⊢
        omega
      · exact hself _

theorem unarmor_returns (stop : ℕ) (src : Bytes) (d : Dst) : Returns stop d (unarmor stop src d) :=
  unarmorLoop_returns stop (Nat.lt_succ_self _) 0 d

/-! ## What `unarmor` makes of the text -/

section Back

variable {stop fuel : ℕ} {d : Dst} {src rest : Bytes} {o : ℤ}

/-- One round of the loop on four characters of the alphabet. -/
theorem unarmorLoop_four {s₀ s₁ s₂ s₃ : UInt8} {v₀ v₁ v₂ v₃ : ℕ} (h₀ : decodeBits s₀ = some v₀)
    (h₁ : decodeBits s₁ = some v₁) (h₂ : decodeBits s₂ = some v₂) (h₃ : decodeBits s₃ = some v₃)
    (olen : ℤ) (d : Dst) :
    unarmorLoop stop (fuel + 1) (s₀ :: s₁ :: s₂ :: s₃ :: rest) olen d =
      unpack stop s₂ s₃ v₀ v₁ v₂ v₃ (unarmorLoop stop fuel rest) olen d := by
  have hnewline : s₀ ≠ char '\n' := by
    rintro rfl
    rw [decodeBits_newline] at h₀
    exact absurd h₀ (by rintro ⟨⟩)
  have hlen : ¬(s₀ :: s₁ :: s₂ :: s₃ :: rest).length < 4 := by
    simp only [List.length_cons]
    omega
  rw [unarmorLoop, if_neg (List.cons_ne_nil _ _), List.getElem?_cons_zero]
  dsimp only
  rw [if_neg hnewline, if_neg hlen]
  simp only [List.getElem?_cons_succ, List.getElem?_cons_zero, h₀, h₁, h₂, h₃, List.drop_succ_cons,
    List.drop_zero]

theorem unarmorLoop_newline (olen : ℤ) (d : Dst) :
    unarmorLoop stop (fuel + 1) (char '\n' :: rest) olen d = unarmorLoop stop fuel rest olen d := by
  rw [unarmorLoop, if_neg (List.cons_ne_nil _ _), List.getElem?_cons_zero]
  dsimp only
  rw [if_pos rfl, List.drop_one, List.tail_cons]

/-- Up to three bytes come out of a round if there is room: one, two or three, as there are pads. -/
theorem unpack_put {s₂ s₃ : UInt8} {v₀ v₁ v₂ v₃ : ℕ} {next : ℤ → Dst → End × Dst} {x y z : UInt8}
    (hx : UInt8.ofNat (v₀ <<< 2 ||| v₁ >>> 4) = x) (hy : UInt8.ofNat ((v₁ &&& 15) <<< 4 ||| v₂ >>> 2) = y)
    (hz : UInt8.ofNat ((v₂ &&& 3) <<< 6 ||| v₃) = z) (hstop : stop ≤ d.mem.length) :
    (s₂ = char '=' → d.pos + 1 ≤ stop →
      unpack stop s₂ s₃ v₀ v₁ v₂ v₃ next (int o) d = (.returned (int (o + 1)), d.put [x])) ∧
    (s₂ ≠ char '=' → s₃ = char '=' → d.pos + 2 ≤ stop →
      unpack stop s₂ s₃ v₀ v₁ v₂ v₃ next (int o) d = (.returned (int (o + 2)), d.put [x, y])) ∧
    (s₂ ≠ char '=' → s₃ ≠ char '=' → d.pos + 3 ≤ stop →
      unpack stop s₂ s₃ v₀ v₁ v₂ v₃ next (int o) d = next (int (o + 3)) (d.put [x, y, z])) := by
  have hone (hroom : d.pos + 1 ≤ stop) : setDst stop [x] d = (true, d.put [x]) :=
    setDst_put [x] hroom hstop
  have hpos (cs : Bytes) : (d.put cs).pos = d.pos + cs.length := rfl
  have htwo (hroom : d.pos + 2 ≤ stop) : setDst stop [y] (d.put [x]) = (true, d.put [x, y]) := by
    rw [setDst_put [y] (by rw [hpos]; exact hroom)
      (by rw [Dst.length_put (by rw [List.length_singleton]; omega)]; exact hstop),
      Dst.put_put (by simp only [List.length_append, List.length_singleton]; omega)]
    rfl
  have hthree (hroom : d.pos + 3 ≤ stop) :
      setDst stop [z] (d.put [x, y]) = (true, d.put [x, y, z]) := by
    rw [setDst_put [z] (by rw [hpos]; exact hroom)
      (by rw [Dst.length_put (by simp only [List.length_cons, List.length_nil]; omega)]; exact hstop),
      Dst.put_put (by simp only [List.length_append, List.length_cons, List.length_nil]; omega)]
    rfl
  refine ⟨fun h₂ hroom ↦ ?_, fun h₂ h₃ hroom ↦ ?_, fun h₂ h₃ hroom ↦ ?_⟩
  · rw [unpack, hx, hone hroom]
    dsimp only
    rw [if_pos h₂, int_add]
  · rw [unpack, hx, hy, hone (by omega)]
    dsimp only
    rw [if_neg h₂, htwo hroom]
    dsimp only
    rw [if_pos h₃, int_add]
  · rw [unpack, hx, hy, hz, hone (by omega)]
    dsimp only
    rw [if_neg h₂, htwo (by omega)]
    dsimp only
    rw [if_neg h₃, hthree hroom]
    dsimp only
    rw [int_add]

theorem decode_first (a : UInt8) :
    decodeBits (encodeBits (a.toNat >>> 2)) = some (a.toNat >>> 2) :=
  decodeBits_encodeBits (first_lt a.toNat_lt)

theorem decode_second (a b : UInt8) :
    decodeBits (encodeBits ((a.toNat &&& 3) <<< 4 ||| b.toNat >>> 4)) =
      some (a.toNat % 4 * 16 + b.toNat / 16) := by
  have hb := b.toNat_lt
  rw [second_eq _ hb]
  exact decodeBits_encodeBits (by omega)

theorem decode_third (b c : UInt8) :
    decodeBits (encodeBits ((b.toNat &&& 15) <<< 2 ||| c.toNat >>> 6)) =
      some (b.toNat % 16 * 4 + c.toNat / 64) := by
  have hc := c.toNat_lt
  rw [third_eq _ hc]
  exact decodeBits_encodeBits (by omega)

theorem decode_fourth (c : UInt8) : decodeBits (encodeBits (c.toNat &&& 63)) = some (c.toNat % 64) := by
  rw [fourth_eq]
  exact decodeBits_encodeBits (Nat.mod_lt _ (by decide))

/-- A character that has a value other than that of a pad is no pad. -/
theorem encodeBits_ne_pad {v : ℕ} (hv : v < 64) : encodeBits v ≠ char '=' := (encodeBits_ne hv).2

/-- A round of the loop on the group of the source: three bytes come out, or all that there are, and
then it returns. -/
theorem unarmorLoop_group (hsrc : src ≠ []) (hroom : d.pos + (src.take 3).length ≤ stop)
    (hstop : stop ≤ d.mem.length) :
    unarmorLoop stop (fuel + 1) (group src ++ rest) (int o) d =
      if src.length < 3 then (.returned (int (o + src.length)), d.put src)
      else unarmorLoop stop fuel rest (int (o + 3)) (d.put (src.take 3)) := by
  have hback {n : ℕ} {x : UInt8} (h : n = x.toNat) : UInt8.ofNat n = x := h ▸ UInt8.ofNat_toNat
  match src with
  | [a] =>
    -- The missing bytes count as zero.
    have hone := decode_second a 0
    rw [show (0 : UInt8).toNat >>> 4 = 0 by rfl, Nat.or_zero] at hone
    rw [group, List.cons_append, List.cons_append, List.cons_append, List.cons_append,
      unarmorLoop_four (decode_first a) hone decodeBits_pad decodeBits_pad,
      if_pos (show [a].length < 3 by simp)]
    exact (unpack_put (hback (first_back _ (by decide))) rfl rfl hstop).1 rfl hroom
  | [a, b] =>
    have htwo := decode_third b 0
    rw [show (0 : UInt8).toNat >>> 6 = 0 by rfl, Nat.or_zero] at htwo
    have hthird : (b.toNat &&& 15) <<< 2 < 64 := by
      have hvalue := third_eq b.toNat (c := 0) (by decide)
      rw [Nat.zero_shiftRight, Nat.or_zero] at hvalue
      omega
    rw [group, List.cons_append, List.cons_append, List.cons_append, List.cons_append,
      unarmorLoop_four (decode_first a) (decode_second a b) htwo decodeBits_pad,
      if_pos (show [a, b].length < 3 by simp)]
    exact (unpack_put (hback (first_back _ b.toNat_lt)) (hback (second_back _ b.toNat_lt (by decide)))
      rfl hstop).2.1 (encodeBits_ne_pad hthird) rfl hroom
  | a :: b :: c :: src =>
    have hc := c.toNat_lt
    have hthird : (b.toNat &&& 15) <<< 2 ||| c.toNat >>> 6 < 64 := by
      rw [third_eq _ hc]
      omega
    have hfourth : c.toNat &&& 63 < 64 := by
      rw [fourth_eq]
      omega
    have hlen : ¬(a :: b :: c :: src).length < 3 := by
      simp only [List.length_cons]
      omega
    rw [group, List.cons_append, List.cons_append, List.cons_append, List.cons_append,
      unarmorLoop_four (decode_first a) (decode_second a b) (decode_third b c) (decode_fourth c),
      if_neg hlen]
    exact (unpack_put (hback (first_back _ b.toNat_lt)) (hback (second_back _ b.toNat_lt hc))
      (hback (third_back _ hc)) hstop).2.2 (encodeBits_ne_pad hthird) (encodeBits_ne_pad hfourth) hroom

/-- **`unarmor` makes the source of the text** if there is room for it, and returns how long it is. -/
theorem unarmorLoop_text {lineWidth line : ℤ} (hfuel : (text lineWidth src line).length < fuel)
    (hroom : d.pos + src.length ≤ stop) (hstop : stop ≤ d.mem.length) :
    unarmorLoop stop fuel (text lineWidth src line) (int o) d =
      (.returned (int (o + src.length)), d.put src) := by
  induction src using three_induction generalizing fuel o line d with
  | hnil =>
    obtain ⟨fuel, rfl⟩ := Nat.exists_eq_succ_of_ne_zero (Nat.ne_zero_of_lt hfuel)
    rw [text, if_pos rfl, unarmorLoop, if_pos rfl, Dst.put_nil, List.length_nil]
    exact congrArg (fun n ↦ (End.returned (int n), d)) (Int.add_zero o).symm
  | hstep src hsrc ih =>
    rw [text, if_neg hsrc] at hfuel ⊢
    rw [List.length_append, List.length_append, length_group hsrc] at hfuel
    obtain ⟨fuel, rfl⟩ := Nat.exists_eq_succ_of_ne_zero (Nat.ne_zero_of_lt hfuel)
    have htake : (src.take 3).length ≤ src.length := by
      rw [List.length_take]
      omega
    rw [unarmorLoop_group hsrc (by omega) hstop]
    by_cases hshort : src.length < 3
    · rw [if_pos hshort]
    · rw [if_neg hshort]
      have hthree : (src.take 3).length = 3 := by
        rw [List.length_take]
        omega
      have hrest : (src.drop 3).length + 3 = src.length := by
        rw [List.length_drop]
        omega
      have hpos : (d.put (src.take 3)).pos = d.pos + 3 := by rw [Dst.put, hthree]
      have hlen : (d.put (src.take 3)).mem.length = d.mem.length := Dst.length_put (by omega)
      have hgoal (fuel : ℕ)
          (hfuel : (text lineWidth (src.drop 3) (nextLine lineWidth line)).length < fuel) :
          unarmorLoop stop fuel (text lineWidth (src.drop 3) (nextLine lineWidth line)) (int (o + 3))
            (d.put (src.take 3)) = (.returned (int (o + src.length)), d.put src) := by
        rw [ih hfuel (by omega) (by omega), Dst.put_put (by rw [List.take_append_drop]; omega),
          List.take_append_drop, ← hrest, Int.natCast_add, Int.add_assoc, Int.add_comm 3]
        rfl
      by_cases hfull : Full lineWidth line
      · rw [lineBreak, if_pos hfull, List.length_singleton] at hfuel
        obtain ⟨fuel, rfl⟩ := Nat.exists_eq_succ_of_ne_zero (by omega : fuel ≠ 0)
        rw [lineBreak, if_pos hfull, List.singleton_append, unarmorLoop_newline]
        exact hgoal fuel (by omega)
      · rw [lineBreak, if_neg hfull, List.length_nil] at hfuel
        rw [lineBreak, if_neg hfull, List.nil_append]
        exact hgoal fuel (by omega)

/-! ## How much `unarmor` returns

An upper bound for the other direction: what is returned is at most three quarters of the characters
that are no line breaks. -/

/-- How many characters there are besides line breaks. -/
def visible (src : Bytes) : ℕ := src.countP (· ≠ char '\n')

theorem visible_append (src rest : Bytes) : visible (src ++ rest) = visible src + visible rest :=
  List.countP_append

theorem visible_cons {s : UInt8} (hs : s ≠ char '\n') (src : Bytes) :
    visible (s :: src) = visible src + 1 := List.countP_cons_of_pos (by simpa using hs)

theorem visible_newline (src : Bytes) : visible (char '\n' :: src) = visible src :=
  List.countP_cons_of_neg (by simp)

theorem ne_newline {s : UInt8} {v : ℕ} (h : decodeBits s = some v) : s ≠ char '\n' := by
  rintro rfl
  rw [decodeBits_newline] at h
  exact absurd h (by rintro ⟨⟩)

/-- A `SET_DST` without room returns an error. -/
theorem Returned.of_setDst {r : ℤ} {cs : Bytes} {next : Dst → End × Dst}
    (h : (match setDst stop cs d with
      | (false, d) => (End.returned (-erange), d)
      | (true, d) => next d).1 = .returned r) (hr : 0 ≤ r) :
    ∃ d', (next d').1 = .returned r := by
  cases hset : setDst stop cs d with
  | mk ok d' =>
    rw [hset] at h
    cases ok with
    | false =>
      have heq : -erange = r := End.returned.inj h
      rw [erange] at heq
      omega
    | true => exact ⟨d', h⟩

theorem unpack_returned {s₂ s₃ : UInt8} {v₀ v₁ v₂ v₃ : ℕ} {next : ℤ → Dst → End × Dst} {r : ℤ}
    (h : (unpack stop s₂ s₃ v₀ v₁ v₂ v₃ next (int o) d).1 = .returned r) (hr : 0 ≤ r) :
    (∃ n : ℕ, n ≤ 2 ∧ r = int (o + n)) ∨ ∃ d', (next (int (o + 3)) d').1 = .returned r := by
  obtain ⟨d₁, h⟩ := Returned.of_setDst h hr
  by_cases hs₂ : s₂ = char '='
  · rw [if_pos hs₂, int_add] at h
    exact .inl ⟨1, by decide, (End.returned.inj h).symm⟩
  rw [if_neg hs₂] at h
  obtain ⟨d₂, h⟩ := Returned.of_setDst h hr
  by_cases hs₃ : s₃ = char '='
  · rw [if_pos hs₃, int_add] at h
    exact .inl ⟨2, le_rfl, (End.returned.inj h).symm⟩
  rw [if_neg hs₃] at h
  obtain ⟨d₃, h⟩ := Returned.of_setDst h hr
  rw [int_add] at h
  exact .inr ⟨d₃, h⟩

/-- Each round that returns more than nothing takes four characters that are no line breaks. -/
theorem unarmorLoop_le {o : ℕ} {r : ℤ} (h : (unarmorLoop stop fuel src (int o) d).1 = .returned r)
    (hr : 0 ≤ r) : r ≤ o + 3 * (visible src / 4) := by
  induction fuel generalizing src o d with
  | zero => exact absurd h (by rintro ⟨⟩)
  | succ fuel ih =>
    have herror (h : End.returned (-einval) = .returned r) : r ≤ o + 3 * (visible src / 4) := by
      have heq : -einval = r := End.returned.inj h
      rw [einval] at heq
      omega
    rw [unarmorLoop] at h
    cases src with
    | nil =>
      rw [if_pos rfl] at h
      have hle := int_le (n := o) (by omega)
      rw [← End.returned.inj h]
      omega
    | cons s₀ src =>
      rw [if_neg (List.cons_ne_nil _ _), List.getElem?_cons_zero] at h
      dsimp only at h
      -- a line break is passed over, and everything else is taken four at a time
      by_cases hs₀ : s₀ = char '\n'
      · rw [if_pos hs₀, List.drop_one, List.tail_cons] at h
        rw [hs₀, visible_newline]
        exact ih h
      rw [if_neg hs₀] at h
      by_cases hshort : (s₀ :: src).length < 4
      · rw [if_pos hshort] at h
        exact herror h
      rw [if_neg hshort] at h
      obtain ⟨s₁, s₂, s₃, rest, rfl⟩ : ∃ s₁ s₂ s₃ rest, src = s₁ :: s₂ :: s₃ :: rest := by
        match src, hshort with
        | s₁ :: s₂ :: s₃ :: rest, _ => exact ⟨s₁, s₂, s₃, rest, rfl⟩
        | [], h => exact absurd (by decide : 1 < 4) h
        | [_], h => exact absurd (by decide : 2 < 4) h
        | [_, _], h => exact absurd (by decide : 3 < 4) h
      simp only [List.getElem?_cons_succ, List.getElem?_cons_zero, List.drop_succ_cons,
        List.drop_zero] at h
      split at h
      · next v₀ v₁ v₂ v₃ h₀ h₁ h₂ h₃ =>
        rw [visible_cons hs₀, visible_cons (ne_newline h₁), visible_cons (ne_newline h₂),
          visible_cons (ne_newline h₃), Nat.add_assoc, Nat.add_assoc, Nat.add_assoc]
        rcases unpack_returned h hr with ⟨n, hn, hvalue⟩ | ⟨d', h⟩
        · have hle : int (o + n : ℕ) ≤ (o + n : ℕ) := int_le (Int.natCast_nonneg _)
          rw [Int.natCast_add, ← hvalue] at hle
          omega
        · have hrest := ih (o := o + 3) h
          omega
      · exact herror h

end Back

/-! ## The round trip -/

theorem group_visible {src : Bytes} : ∀ s ∈ group src, s ≠ char '\n' := by
  match src with
  | [] => exact fun _ hs ↦ absurd hs List.not_mem_nil
  | [a] =>
    have hone := decode_second a 0
    rw [show (0 : UInt8).toNat >>> 4 = 0 by rfl, Nat.or_zero] at hone
    simp only [group, List.forall_mem_cons]
    exact ⟨ne_newline (decode_first a), ne_newline hone, ne_newline decodeBits_pad,
      ne_newline decodeBits_pad, fun _ hs ↦ absurd hs List.not_mem_nil⟩
  | [a, b] =>
    have htwo := decode_third b 0
    rw [show (0 : UInt8).toNat >>> 6 = 0 by rfl, Nat.or_zero] at htwo
    simp only [group, List.forall_mem_cons]
    exact ⟨ne_newline (decode_first a), ne_newline (decode_second a b), ne_newline htwo,
      ne_newline decodeBits_pad, fun _ hs ↦ absurd hs List.not_mem_nil⟩
  | a :: b :: c :: _ =>
    simp only [group, List.forall_mem_cons]
    exact ⟨ne_newline (decode_first a), ne_newline (decode_second a b), ne_newline (decode_third b c),
      ne_newline (decode_fourth c), fun _ hs ↦ absurd hs List.not_mem_nil⟩

theorem visible_lineBreak (lineWidth line : ℤ) : visible (lineBreak lineWidth line) = 0 := by
  rw [lineBreak]
  split <;> rfl

theorem length_lineBreak_le (lineWidth line : ℤ) : (lineBreak lineWidth line).length ≤ 1 := by
  rw [lineBreak]
  split <;> decide

theorem visible_text (lineWidth : ℤ) (src : Bytes) (line : ℤ) :
    visible (text lineWidth src line) = 4 * groups src.length := by
  induction src using three_induction generalizing line with
  | hnil =>
    rw [text, if_pos rfl]
    rfl
  | hstep src hsrc ih =>
    have hgroup : visible (group src) = 4 :=
      (List.countP_eq_length.mpr fun s hs ↦ by simpa using group_visible s hs).trans (length_group hsrc)
    rw [text, if_neg hsrc, visible_append, visible_append, hgroup, visible_lineBreak, ih,
      groups_drop hsrc]
    omega

/-- One of the last two characters of a text is no line break. -/
theorem text_end (lineWidth : ℤ) {src : Bytes} (hsrc : src ≠ []) (line : ℤ) :
    ∃ init c tail, text lineWidth src line = init ++ c :: tail ∧ c ≠ char '\n' ∧ tail.length ≤ 1 := by
  induction src using three_induction generalizing line with
  | hnil => exact absurd rfl hsrc
  | hstep src _ ih =>
    rw [text, if_neg hsrc]
    by_cases hlast : src.drop 3 = []
    · have hne : group src ≠ [] := List.ne_nil_of_length_pos (by rw [length_group hsrc]; decide)
      refine ⟨(group src).dropLast, (group src).getLast hne, lineBreak lineWidth line, ?_,
        group_visible _ (List.getLast_mem hne), length_lineBreak_le lineWidth line⟩
      rw [hlast, text, if_pos rfl, List.append_nil, ← List.singleton_append, ← List.append_assoc,
        List.dropLast_append_getLast]
    · obtain ⟨init, c, tail, htext, hc, htail⟩ := ih hlast (nextLine lineWidth line)
      exact ⟨group src ++ lineBreak lineWidth line ++ init, c, tail, by
        rw [htext, List.append_assoc, List.append_assoc], hc, htail⟩

/-- What has been written from `dst` on, as far as the length says. -/
def Dst.written (d d' : Dst) (l : ℕ) : Bytes := (d'.mem.drop d.pos).take l

theorem Dst.written_put {d : Dst} {cs : Bytes} (hle : d.pos + cs.length ≤ d.mem.length) (l : ℕ)
    (hl : l ≤ cs.length) : d.written (d.put cs) l = cs.take l := by
  have hlen : (d.mem.take d.pos).length = d.pos := by
    rw [List.length_take]
    omega
  rw [written, put, patch, List.append_assoc, List.drop_left' hlen, List.take_append_of_le_length hl]

/-- The text of the source is written into any destination with room for it, and the source comes back
from it into any with room for that. Both calls return the lengths, and no error. -/
def RoundTrips (src : Bytes) (lineWidth : ℕ) : Prop :=
  ∀ stop d, d.pos + textLength src.length lineWidth ≤ stop → stop ≤ d.mem.length →
    ∃ (l : ℕ) (d₁ : Dst), armorLineBreak stop src lineWidth d = ((l : ℤ), d₁) ∧
      ∀ stop' e, e.pos + src.length ≤ stop' → stop' ≤ e.mem.length →
        ∃ (l' : ℕ) (e₁ : Dst), unarmor stop' (d.written d₁ l) e = (.returned l', e₁) ∧
          e.written e₁ l' = src

theorem length_le_textLength (n lineWidth : ℕ) : n ≤ textLength n lineWidth := by
  rw [textLength, groups]
  omega

theorem armorLineBreak_put {lineWidth stop : ℕ} {src : Bytes} {d : Dst} (hlt : lineWidth < 2 ^ 31)
    (hroom : d.pos + textLength src.length lineWidth ≤ stop) (hstop : stop ≤ d.mem.length) :
    armorLineBreak stop src lineWidth d =
      (int (textLength src.length lineWidth), d.put (text lineWidth src 0)) := by
  have hlen := length_text hlt src
  have hput := armorLoop_put stop lineWidth src 0 0 (d := d) (by rw [hlen]; exact hroom) hstop
  rw [hlen, Int.zero_add] at hput
  exact hput

theorem unarmor_text {stop : ℕ} {src : Bytes} {e : Dst} (lineWidth : ℤ)
    (hroom : e.pos + src.length ≤ stop) (hstop : stop ≤ e.mem.length) :
    unarmor stop (text lineWidth src 0) e = (.returned (int src.length), e.put src) := by
  have htext := unarmorLoop_text (o := 0) (Nat.lt_succ_self (text lineWidth src 0).length) hroom hstop
  rw [Int.zero_add] at htext
  exact htext

/-- A text whose length is an `int` makes the round trip. -/
theorem roundTrips_of_lt {src : Bytes} {lineWidth : ℕ} (hlt : lineWidth < 2 ^ 31)
    (hshort : textLength src.length lineWidth < 2 ^ 31) : RoundTrips src lineWidth := by
  intro stop d hroom hstop
  have hlen := length_text hlt src
  have hle := length_le_textLength src.length lineWidth
  refine ⟨textLength src.length lineWidth, d.put (text lineWidth src 0), ?_,
    fun stop' e hroom' hstop' ↦ ⟨src.length, e.put src, ?_, ?_⟩⟩
  · rw [armorLineBreak_put hlt hroom hstop, int_of_lt (Int.natCast_nonneg _) (by omega)]
  · rw [Dst.written_put (by omega) _ hlen.ge, ← hlen, List.take_length, unarmor_text _ hroom' hstop',
      int_of_lt (Int.natCast_nonneg _) (by omega)]
  · rw [Dst.written_put (by omega) _ le_rfl, List.take_length]

/-- A text that is longer does not: what is returned is too short by a group at least. -/
theorem not_roundTrips {src : Bytes} {lineWidth : ℕ} (hlt : lineWidth < 2 ^ 31)
    (hlong : 2 ^ 31 ≤ textLength src.length lineWidth) : ¬RoundTrips src lineWidth := by
  intro hround
  have hlen := length_text hlt src
  have hsrc : src ≠ [] := by
    rintro rfl
    rw [text, if_pos rfl] at hlen
    rw [← hlen] at hlong
    exact absurd hlong (by decide)
  obtain ⟨init, c, tail, htext, hc, htail⟩ := text_end lineWidth hsrc 0
  have hvisible := visible_text lineWidth src 0
  rw [htext] at hlen
  rw [htext, visible_append, visible_cons hc] at hvisible
  rw [List.length_append, List.length_cons] at hlen
  generalize hn : textLength src.length lineWidth = n at hlong hlen
  obtain ⟨l, d₁, harmor, hback⟩ := hround n ⟨List.replicate n 0, 0⟩
    (by rw [hn, Nat.zero_add]) List.length_replicate.ge
  rw [armorLineBreak_put hlt (by rw [hn, Nat.zero_add]) List.length_replicate.ge, hn,
    Prod.mk.injEq] at harmor
  obtain ⟨hl, rfl⟩ := harmor
  have hless : l + 2 ≤ n := by
    rw [int, Int.bmod_def] at hl
    split at hl <;> omega
  -- What is passed on ends before the last character that is no line break.
  obtain ⟨l', e₁, hunarmor, hsame⟩ := hback src.length ⟨List.replicate src.length 0, 0⟩
    (Nat.zero_add _).le List.length_replicate.ge
  have hall : (text lineWidth src 0).length = n := by
    rw [htext, List.length_append, List.length_cons, hlen]
  have hwritten : Dst.written ⟨List.replicate n 0, 0⟩
      (Dst.put ⟨List.replicate n 0, 0⟩ (text lineWidth src 0)) l = (text lineWidth src 0).take l :=
    Dst.written_put (by rw [List.length_replicate, Nat.zero_add, hall]) l (by omega)
  rw [hwritten, htext, List.take_append_of_le_length (by omega)] at hunarmor
  have hbound := unarmorLoop_le (o := 0) (congrArg Prod.fst hunarmor) (Int.natCast_nonneg l')
  have htake : visible (init.take l) ≤ visible init := (List.take_sublist l init).countP_le
  have hshort := congrArg List.length hsame
  rw [Dst.written, List.length_take] at hshort
  rw [groups] at hvisible
  omega

/-- **A source makes the round trip exactly if the length of its text is an `int`.** -/
theorem roundTrips_iff {src : Bytes} {lineWidth : ℕ} (hlt : lineWidth < 2 ^ 31) :
    RoundTrips src lineWidth ↔ textLength src.length lineWidth < 2 ^ 31 :=
  ⟨fun hround ↦ Nat.not_le.mp fun hlong ↦ not_roundTrips hlt hlong hround, roundTrips_of_lt hlt⟩

end Armor

end AsyncMessenger
