import AsyncMessenger.Lib.Run
import Mathlib.Algebra.Order.Ring.Int
import Mathlib.Logic.Function.Basic

/-!
# Time arithmetic

`utime_t` holds seconds and nanoseconds, each in 32 bits. The constructor carries nanoseconds over
into the seconds, and the operators carry and borrow on their own; the comparison operators compare
the seconds first. All of this is exact while the nanoseconds are less than a second. But the
constructor leaves a value alone whose nanoseconds are exactly one second.

A time in normal form stands for a number of nanoseconds, and the operators are compared with the
arithmetic of these numbers (`Exact`), as far as 32 bits of seconds go. Each operator makes a normal
time of normal times, by carrying once or borrowing once. So along a run of operations it is enough
to look at the times that the constructor makes, and there at one value of the nanoseconds.
-/

namespace AsyncMessenger

/-- What a `uint32_t` holds after an integer has been stored in it. -/
def wrapU32 (z : ℤ) : ℕ := (z % 2 ^ 32).toNat

/-- `utime_t`. -/
structure Utime where
  tvSec : ℕ := 0
  tvNsec : ℕ := 0
  deriving DecidableEq, Repr

namespace Utime

/-- `normalize`. -/
def normalize (t : Utime) : Utime :=
  if 1000000000 < t.tvNsec then
    { tvSec := wrapU32 (t.tvSec + t.tvNsec / 1000000000), tvNsec := t.tvNsec % 1000000000 }
  else t

/-- `utime_t(s, n)`. -/
def make (s n : ℤ) : Utime := normalize { tvSec := wrapU32 s, tvNsec := wrapU32 n }

/-- `sec`, a `time_t`. -/
def sec (t : Utime) : ℤ := t.tvSec

/-- `nsec`, an `int`. -/
def nsec (t : Utime) : ℤ := if t.tvNsec < 2 ^ 31 then t.tvNsec else t.tvNsec - 2 ^ 32

/-- `to_nsec`; it fits into its 64 bits. -/
def toNsec (t : Utime) : ℕ := t.tvNsec + t.tvSec * 1000000000

/-- `operator+`. -/
def add (l r : Utime) : Utime :=
  make (l.sec + r.sec + (l.nsec + r.nsec).tdiv 1000000000) ((l.nsec + r.nsec).tmod 1000000000)

/-- `operator+=`. -/
def addAssign (l r : Utime) : Utime :=
  let l := { l with tvSec := wrapU32 (l.tvSec + (r.sec + (l.nsec + r.nsec).tdiv 1000000000)) }
  let l := { l with tvNsec := wrapU32 (l.tvNsec + r.nsec) }
  { l with tvNsec := l.tvNsec % 1000000000 }

/-- `operator-`. -/
def sub (l r : Utime) : Utime :=
  make (l.sec - r.sec - if l.nsec < r.nsec then 1 else 0)
    (l.nsec - r.nsec + if l.nsec < r.nsec then 1000000000 else 0)

/-- `operator-=`. -/
def subAssign (l r : Utime) : Utime :=
  let l := { l with tvSec := wrapU32 (l.tvSec - r.sec) }
  if r.nsec ≤ l.nsec then { l with tvNsec := wrapU32 (l.tvNsec - r.nsec) }
  else { tvSec := wrapU32 (l.tvSec - 1), tvNsec := wrapU32 (l.tvNsec + (1000000000 - r.nsec)) }

/-- `operator>`. -/
def gt (a b : Utime) : Bool := b.sec < a.sec || (a.sec = b.sec && b.nsec < a.nsec)

/-- `operator<=`. -/
def le (a b : Utime) : Bool := !a.gt b

/-- `operator<`. -/
def lt (a b : Utime) : Bool := a.sec < b.sec || (a.sec = b.sec && a.nsec < b.nsec)

/-- `operator>=`. -/
def ge (a b : Utime) : Bool := !a.lt b

/-- `operator==`. -/
def eq (a b : Utime) : Bool := a.sec = b.sec && a.nsec = b.nsec

/-- `operator!=`. -/
def ne (a b : Utime) : Bool := a.sec ≠ b.sec || a.nsec ≠ b.nsec

end Utime

/-- What a program does with its times; the first number is the time that is changed. -/
inductive TimeOp
  | make (k : ℕ) (s n : ℤ)
  | add (k i j : ℕ)
  | sub (k i j : ℕ)
  | addAssign (i j : ℕ)
  | subAssign (i j : ℕ)
  deriving DecidableEq, Repr

namespace TimeOp

open Utime

/-- One operation. -/
def step (c : ℕ → Utime) : TimeOp → Option (ℕ → Utime)
  | .make k s n => some (Function.update c k (Utime.make s n))
  | .add k i j => some (Function.update c k ((c i).add (c j)))
  | .sub k i j => some (Function.update c k ((c i).sub (c j)))
  | .addAssign i j => some (Function.update c i ((c i).addAssign (c j)))
  | .subAssign i j => some (Function.update c i ((c i).subAssign (c j)))

end TimeOp

namespace Utime

/-- The seconds of the sum fit into 32 bits. -/
def Fits (l r : Utime) : Prop := (l.toNsec + r.toNsec) / 1000000000 < 2 ^ 32

/-- What holds of two times. -/
structure Exact (l r : Utime) : Prop where
  nsec_lt : l.tvNsec < 1000000000
  gt : l.gt r ↔ r.toNsec < l.toNsec
  le : l.le r ↔ l.toNsec ≤ r.toNsec
  lt : l.lt r ↔ l.toNsec < r.toNsec
  ge : l.ge r ↔ r.toNsec ≤ l.toNsec
  eq : l.eq r ↔ l.toNsec = r.toNsec
  ne : l.ne r ↔ l.toNsec ≠ r.toNsec
  add : l.Fits r → (l.add r).toNsec = l.toNsec + r.toNsec ∧ l.addAssign r = l.add r
  sub : l.ge r → (l.sub r).toNsec + r.toNsec = l.toNsec ∧ l.subAssign r = l.sub r

end Utime

namespace TimeOp

open Utime

/-- What the operations are used for: the seconds fit into 32 bits, and no time is subtracted from a
smaller one. -/
def Legal (c : ℕ → Utime) : TimeOp → Prop
  | .make _ s n => 0 ≤ s ∧ 0 ≤ n ∧ n < 2 ^ 31 ∧ s + n / 1000000000 < 2 ^ 32
  | .add _ i j | .addAssign i j => (c i).Fits (c j)
  | .sub _ i j | .subAssign i j => (c i).ge (c j)

end TimeOp

namespace Utime

variable {l r : Utime}

/-! ## Normal form -/

/-- The nanoseconds are less than a second. -/
structure Normal (t : Utime) : Prop where
  sec_lt : t.tvSec < 2 ^ 32
  nsec_lt : t.tvNsec < 1000000000

theorem wrapU32_of_bounds {z : ℤ} (hnonneg : 0 ≤ z) (hlt : z < 2 ^ 32) : (wrapU32 z : ℤ) = z := by
  rw [wrapU32, Int.emod_eq_of_lt hnonneg hlt, Int.toNat_of_nonneg hnonneg]

theorem wrapU32_lt (z : ℤ) : wrapU32 z < 2 ^ 32 := by
  rw [wrapU32]
  omega

theorem Normal.nsec_eq (h : l.Normal) : l.nsec = l.tvNsec := by
  have hlt := h.nsec_lt
  rw [Utime.nsec]
  exact if_pos (by omega)

/-- Nanoseconds of less than a second are stored as they are. -/
theorem make_of_lt (s : ℤ) {n : ℤ} (hnonneg : 0 ≤ n) (hlt : n < 1000000000) :
    make s n = { tvSec := wrapU32 s, tvNsec := n.toNat } := by
  have hn : wrapU32 n = n.toNat := by
    rw [wrapU32, Int.emod_eq_of_lt hnonneg (by omega)]
  rw [make, normalize, hn]
  exact if_neg (by dsimp only; omega)

/-- **The constructor** makes a normal time, unless the nanoseconds are exactly a second. -/
theorem make_normal (s : ℤ) {n : ℤ} (hn : 0 ≤ n) (hlt : n < 2 ^ 31) (hne : n ≠ 1000000000) :
    (make s n).Normal := by
  by_cases hsmall : n < 1000000000
  · rw [make_of_lt s hn hsmall]
    exact ⟨wrapU32_lt s, by dsimp only; omega⟩
  · have hstored : wrapU32 n = n.toNat := by
      rw [wrapU32, Int.emod_eq_of_lt hn (by omega)]
    rw [make, normalize, hstored, if_pos (by dsimp only; omega)]
    exact ⟨by dsimp only; exact wrapU32_lt _, Nat.mod_lt _ (by decide)⟩

/-- Nothing is carried. -/
theorem make_second (s : ℤ) : make s 1000000000 = { tvSec := wrapU32 s, tvNsec := 1000000000 } := by
  have hn : wrapU32 1000000000 = 1000000000 := by decide
  rw [make, normalize, hn]
  exact if_neg (Nat.lt_irrefl _)

/-! ## The operators -/

theorem wrapU32_natCast {n : ℕ} (h : n < 2 ^ 32) : wrapU32 n = n := by
  have hcast := wrapU32_of_bounds (Int.natCast_nonneg n) (by omega)
  exact Int.ofNat_inj.mp hcast

/-- The seconds of a sum, with the carry. -/
theorem Normal.fits_iff (hl : l.Normal) (hr : r.Normal) :
    l.Fits r ↔ l.tvSec + r.tvSec + (l.tvNsec + r.tvNsec) / 1000000000 < 2 ^ 32 := by
  have hl' := hl.nsec_lt
  have hr' := hr.nsec_lt
  rw [Fits, toNsec, toNsec]
  omega

theorem Normal.add_eq (hl : l.Normal) (hr : r.Normal) (h : l.Fits r) :
    l.add r = { tvSec := l.tvSec + r.tvSec + (l.tvNsec + r.tvNsec) / 1000000000
                tvNsec := (l.tvNsec + r.tvNsec) % 1000000000 } := by
  have hsec := (hl.fits_iff hr).mp h
  have hn : l.nsec + r.nsec = (l.tvNsec + r.tvNsec : ℕ) := by
    rw [hl.nsec_eq, hr.nsec_eq]
    push_cast
    rfl
  have hcarry : l.sec + r.sec + ((l.tvNsec + r.tvNsec : ℕ) : ℤ).tdiv 1000000000
      = (l.tvSec + r.tvSec + (l.tvNsec + r.tvNsec) / 1000000000 : ℕ) := by
    rw [Int.tdiv_eq_ediv_of_nonneg (Int.natCast_nonneg _), sec, sec]
    omega
  rw [add, hn, hcarry, Int.tmod_eq_emod_of_nonneg (Int.natCast_nonneg _),
    make_of_lt _ (by omega) (by omega), wrapU32_natCast hsec]
  congr 1

theorem Normal.addAssign_eq (hl : l.Normal) (hr : r.Normal) (h : l.Fits r) :
    l.addAssign r = l.add r := by
  have hsec := (hl.fits_iff hr).mp h
  have hl' := hl.nsec_lt
  have hr' := hr.nsec_lt
  have hn : (l.tvNsec : ℤ) + r.nsec = (l.tvNsec + r.tvNsec : ℕ) := by
    rw [hr.nsec_eq]
    push_cast
    rfl
  have hcarry : (l.tvSec : ℤ) + (r.sec + ((l.tvNsec + r.tvNsec : ℕ) : ℤ).tdiv 1000000000)
      = (l.tvSec + r.tvSec + (l.tvNsec + r.tvNsec) / 1000000000 : ℕ) := by
    rw [Int.tdiv_eq_ediv_of_nonneg (Int.natCast_nonneg _), sec]
    omega
  rw [hl.add_eq hr h, addAssign]
  dsimp only
  rw [hl.nsec_eq, hn, hcarry, wrapU32_natCast hsec, wrapU32_natCast (by omega)]

/-- No time is subtracted from a smaller one. -/
theorem Normal.ge_iff (hl : l.Normal) (hr : r.Normal) :
    l.ge r ↔ r.tvSec < l.tvSec ∨ r.tvSec = l.tvSec ∧ r.tvNsec ≤ l.tvNsec := by
  rw [ge, lt, hl.nsec_eq, hr.nsec_eq, sec, sec]
  simp only [Bool.not_eq_true', Bool.or_eq_false_iff, Bool.and_eq_false_iff, decide_eq_false_iff_not]
  omega

theorem Normal.sub_eq (hl : l.Normal) (hr : r.Normal) (h : l.ge r) :
    l.sub r = if l.tvNsec < r.tvNsec then
        { tvSec := l.tvSec - r.tvSec - 1, tvNsec := l.tvNsec + 1000000000 - r.tvNsec }
      else { tvSec := l.tvSec - r.tvSec, tvNsec := l.tvNsec - r.tvNsec } := by
  have hle := (hl.ge_iff hr).mp h
  have hsec := hl.sec_lt
  have hl' := hl.nsec_lt
  have hr' := hr.nsec_lt
  rw [sub, hl.nsec_eq, hr.nsec_eq, sec, sec]
  by_cases hborrow : l.tvNsec < r.tvNsec
  · have hs : (l.tvSec : ℤ) - r.tvSec - 1 = (l.tvSec - r.tvSec - 1 : ℕ) := by omega
    rw [if_pos (by omega), if_pos (by omega), if_pos hborrow, make_of_lt _ (by omega) (by omega), hs,
      wrapU32_natCast (by omega)]
    congr 1
    omega
  · have hs : (l.tvSec : ℤ) - r.tvSec - 0 = (l.tvSec - r.tvSec : ℕ) := by omega
    rw [if_neg (by omega), if_neg (by omega), if_neg hborrow, make_of_lt _ (by omega) (by omega), hs,
      wrapU32_natCast (by omega)]
    congr 1
    omega

theorem Normal.subAssign_eq (hl : l.Normal) (hr : r.Normal) (h : l.ge r) :
    l.subAssign r = l.sub r := by
  have hle := (hl.ge_iff hr).mp h
  have hsec := hl.sec_lt
  have hl' := hl.nsec_lt
  have hr' := hr.nsec_lt
  rw [hl.sub_eq hr h, subAssign, hr.nsec_eq, sec]
  have hs : wrapU32 (l.tvSec - r.tvSec) = l.tvSec - r.tvSec := by
    rw [← Int.natCast_sub (by omega), wrapU32_natCast (by omega)]
  have hnsec : nsec { l with tvSec := wrapU32 (l.tvSec - r.tvSec) } = l.tvNsec := hl.nsec_eq
  dsimp only
  rw [hnsec, hs]
  by_cases hborrow : l.tvNsec < r.tvNsec
  · have hdown : ((l.tvSec - r.tvSec : ℕ) : ℤ) - 1 = (l.tvSec - r.tvSec - 1 : ℕ) := by omega
    have hup : (l.tvNsec : ℤ) + (1000000000 - r.tvNsec) = (l.tvNsec + 1000000000 - r.tvNsec : ℕ) := by
      omega
    rw [if_neg (by omega), if_pos hborrow, hdown, hup, wrapU32_natCast (by omega),
      wrapU32_natCast (by omega)]
  · have hdown : (l.tvNsec : ℤ) - r.tvNsec = (l.tvNsec - r.tvNsec : ℕ) := by omega
    rw [if_pos (by omega), if_neg hborrow, hdown, wrapU32_natCast (by omega)]

/-! ## What they are for

The number of nanoseconds of a time, and what each operation should make of it. -/

theorem Normal.add_normal (hl : l.Normal) (hr : r.Normal) (h : l.Fits r) : (l.add r).Normal := by
  rw [hl.add_eq hr h]
  exact ⟨(hl.fits_iff hr).mp h, Nat.mod_lt _ (by decide)⟩

theorem Normal.sub_normal (hl : l.Normal) (hr : r.Normal) (h : l.ge r) : (l.sub r).Normal := by
  have hsec := hl.sec_lt
  have hl' := hl.nsec_lt
  rw [hl.sub_eq hr h]
  by_cases hborrow : l.tvNsec < r.tvNsec
  · rw [if_pos hborrow]
    exact ⟨by dsimp only; omega, by dsimp only; omega⟩
  · rw [if_neg hborrow]
    exact ⟨by dsimp only; omega, by dsimp only; omega⟩

/-- Between normal times everything is exact. -/
theorem Normal.exact (hl : l.Normal) (hr : r.Normal) : l.Exact r := by
  have hl' := hl.nsec_lt
  have hr' := hr.nsec_lt
  have hlt : l.lt r ↔ l.toNsec < r.toNsec := by
    rw [Utime.lt, hl.nsec_eq, hr.nsec_eq, sec, sec, toNsec, toNsec]
    simp only [Bool.or_eq_true, Bool.and_eq_true, decide_eq_true_eq]
    omega
  have hgt : l.gt r ↔ r.toNsec < l.toNsec := by
    rw [Utime.gt, hl.nsec_eq, hr.nsec_eq, sec, sec, toNsec, toNsec]
    simp only [Bool.or_eq_true, Bool.and_eq_true, decide_eq_true_eq]
    omega
  refine ⟨hl', hgt, ?_, hlt, ?_, ?_, ?_, fun h ↦ ⟨?_, hl.addAssign_eq hr h⟩,
    fun h ↦ ⟨?_, hl.subAssign_eq hr h⟩⟩
  · rw [Utime.le, Bool.not_eq_true', ← Bool.not_eq_true, hgt, Nat.not_lt]
  · rw [Utime.ge, Bool.not_eq_true', ← Bool.not_eq_true, hlt, Nat.not_lt]
  · rw [Utime.eq, hl.nsec_eq, hr.nsec_eq, sec, sec, toNsec, toNsec]
    simp only [Bool.and_eq_true, decide_eq_true_eq]
    omega
  · rw [Utime.ne, hl.nsec_eq, hr.nsec_eq, sec, sec, toNsec, toNsec]
    simp only [ne_eq, Bool.or_eq_true, decide_eq_true_eq]
    omega
  · rw [hl.add_eq hr h, toNsec, toNsec, toNsec]
    dsimp only
    omega
  · have hle := (hl.ge_iff hr).mp h
    rw [hl.sub_eq hr h, toNsec, toNsec, toNsec]
    by_cases hborrow : l.tvNsec < r.tvNsec
    · rw [if_pos hborrow]
      dsimp only
      omega
    · rw [if_neg hborrow]
      dsimp only
      omega

end Utime

namespace TimeOp

open Utime

variable {c c' : ℕ → Utime} {ops : List TimeOp}

/-! ## Runs

A run is a list of operations on times that were made before, in any order. -/

/-- The operation does not make a time with a second of nanoseconds. -/
def Carries : TimeOp → Prop
  | .make _ _ n => n ≠ 1000000000
  | _ => True

/-- **Step lemma.** Every operation makes a normal time of normal times. -/
theorem normal_step {op : TimeOp} (hall : ∀ i, (c i).Normal) (hlegal : Legal c op ∧ op.Carries)
    (hstep : step c op = some c') : ∀ i, (c' i).Normal := by
  have hset : ∀ k (t : Utime), t.Normal → ∀ i, (Function.update c k t i).Normal := by
    intro k t ht i
    by_cases hi : i = k
    · rw [hi, Function.update_self]
      exact ht
    · rw [Function.update_of_ne hi]
      exact hall i
  cases op with
  | make k s n =>
    obtain ⟨⟨-, hn, hlt, -⟩, hne⟩ := hlegal
    exact Option.some.inj hstep ▸ hset k _ (make_normal s hn hlt hne)
  | add k i j => exact Option.some.inj hstep ▸ hset k _ ((hall i).add_normal (hall j) hlegal.1)
  | sub k i j => exact Option.some.inj hstep ▸ hset k _ ((hall i).sub_normal (hall j) hlegal.1)
  | addAssign i j =>
    have hsum := (hall i).add_normal (hall j) hlegal.1
    rw [← (hall i).addAssign_eq (hall j) hlegal.1] at hsum
    exact Option.some.inj hstep ▸ hset i _ hsum
  | subAssign i j =>
    have hdiff := (hall i).sub_normal (hall j) hlegal.1
    rw [← (hall i).subAssign_eq (hall j) hlegal.1] at hdiff
    exact Option.some.inj hstep ▸ hset i _ hdiff

/-- **Run lemma.** -/
theorem normal_run (hlegal : Run.Meets step (fun c op ↦ Legal c op ∧ op.Carries) c ops)
    (hall : ∀ i, (c i).Normal) (hrun : Run.exec step c ops = some c') : ∀ i, (c' i).Normal :=
  Run.invariant_of_meets (I := fun c ↦ ∀ i, (c i).Normal) (fun _ _ _ ↦ normal_step) hall hlegal hrun

theorem zero_normal : Normal {} := ⟨by decide, by decide⟩

/-- No operation ever fails. -/
theorem exec_isSome (c : ℕ → Utime) (ops : List TimeOp) : ∃ c', Run.exec step c ops = some c' := by
  induction ops generalizing c with
  | nil => exact ⟨c, rfl⟩
  | cons op ops ih =>
    cases op with
    | _ => exact ih _

/-- **Time arithmetic is exact** exactly if no time is made with a whole second of nanoseconds. -/
theorem exact_iff (hlegal : Run.Meets step Legal (fun _ ↦ {}) ops) :
    (∀ ops₁ ops₂ c, ops = ops₁ ++ ops₂ → Run.exec step (fun _ ↦ {}) ops₁ = some c →
      ∀ i j, (c i).Exact (c j)) ↔ ∀ k s, .make k s 1000000000 ∉ ops := by
  constructor
  · intro hall k s hmem
    obtain ⟨ops₁, ops₂, rfl⟩ := List.append_of_mem hmem
    obtain ⟨c, hc⟩ := exec_isSome (fun _ ↦ {}) ops₁
    have hrun : Run.exec step (fun _ ↦ {}) (ops₁ ++ [.make k s 1000000000])
        = some (Function.update c k (Utime.make s 1000000000)) := by
      rw [Run.exec_append, hc]
      rfl
    have hlt := (hall _ ops₂ _ (List.append_cons ..) hrun k k).nsec_lt
    rw [Function.update_self, make_second] at hlt
    exact Nat.lt_irrefl _ hlt
  · rintro hnone ops₁ ops₂ c rfl hrun
    have hcarries : ∀ op ∈ ops₁ ++ ops₂, ∀ _ : ℕ → Utime, op.Carries := by
      intro op hop _
      cases op with
      | make k s n =>
        intro hn
        subst hn
        exact hnone k s hop
      | _ => trivial
    have hmeets := hlegal.and (Run.Meets.of_forall hcarries _)
    have hnormal := normal_run hmeets.of_append (fun _ ↦ zero_normal) hrun
    exact fun i j ↦ (hnormal i).exact (hnormal j)

instance (l r : Utime) : Decidable (l.Fits r) := inferInstanceAs (Decidable (_ < _))

instance (c : ℕ → Utime) : (op : TimeOp) → Decidable (Legal c op)
  | .make .. => inferInstanceAs (Decidable (_ ∧ _))
  | .add .. | .addAssign .. => inferInstanceAs (Decidable (Fits _ _))
  | .sub .. | .subAssign .. => inferInstanceAs (Decidable (_ = true))

/-- One nanosecond less than a second, and one nanosecond more. -/
def almost : List TimeOp :=
  [.make 0 1 999999999, .make 1 1 1, .add 2 0 1, .sub 3 2 0, .make 4 0 1500000000, .subAssign 2 4]

theorem almost_exact :
    (∀ ops₁ ops₂ c, almost = ops₁ ++ ops₂ → Run.exec step (fun _ ↦ {}) ops₁ = some c →
      ∀ i j, (c i).Exact (c j)) ↔ ∀ k s, .make k s 1000000000 ∉ almost := by
  have hcheck : Run.check step (fun c op ↦ decide (Legal c op)) (fun _ ↦ {}) almost = true := by decide
  exact exact_iff (Run.Meets.of_check (fun _ _ ↦ of_decide_eq_true) hcheck)

/-- `utime_t(1, 1000000000)` and `utime_t(2, 0)` are the same time, but one is less than the other.
-/
theorem second_inexact :
    Run.Meets step Legal (fun _ ↦ {}) [.make 0 1 1000000000, .make 1 2 0]
      ∧ ∃ c, Run.exec step (fun _ ↦ {}) [.make 0 1 1000000000, .make 1 2 0] = some c
        ∧ (c 0).tvNsec = 1000000000 ∧ (c 0).toNsec = (c 1).toNsec ∧ (c 0).lt (c 1)
        ∧ ¬(c 0).Exact (c 1) := by
  have hcheck : Run.check step (fun c op ↦ decide (Legal c op)) (fun _ ↦ {})
      [.make 0 1 1000000000, .make 1 2 0] = true := by decide
  refine ⟨Run.Meets.of_check (fun _ _ ↦ of_decide_eq_true) hcheck, _, rfl, by decide, by decide,
    by decide, fun h ↦ ?_⟩
  exact absurd h.nsec_lt (by decide)

end TimeOp

end AsyncMessenger
