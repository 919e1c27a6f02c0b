import Mathlib.Data.List.Lex
import Mathlib.Order.Compare
import AsyncMessenger.Slicing

/-!
# Comparing lists

`contents_equal` goes through both lists at once and compares as many bytes as are left in both
segments. The operators look up byte by byte. Both see the byte strings only, and the order is the
lexicographic one.

Whether a `char` has a sign is left to the compiler; the comparisons do not depend on it.

## Two notions of a list's bytes

What the operators see of a list is its first `_len` bytes (`key`), while `contents_equal` goes on
to the end of the segments once the two `_len` are equal. For lists that are shorter than `2 ^ 32`
bytes the two are the same. For longer ones `_len` has wrapped around, and a comparison may come out
wrong, or right by chance: `compares_iff` says when, in terms of the two byte strings and of what is
counted of them.
-/

namespace AsyncMessenger

open Buffer

/-- A byte as a `char`. -/
def char (signed : Bool) (b : UInt8) : ℤ := if signed then b.toInt8.toInt else b.toNat

namespace BufferList

/-- The next place in a list, after so many bytes of the first segment. -/
def passed (p : Ptr) (ps : List Ptr) (off len : ℕ) : List Ptr × ℕ :=
  if off + len = p.len then (ps, 0) else (p :: ps, off + len)

/-- The loop of `contents_equal`, with at most so many rounds. -/
def equalLoop (h : Heap) : ℕ → List Ptr → ℕ → List Ptr → ℕ → Option (Except Halt Bool)
  | _, [], _, b, _ => some (if b = [] then .ok true else .error .assertion)
  | 0, _ :: _, _, _, _ => none
  | _ + 1, _ :: _, _, [], _ => some (.error .stray)
  | fuel + 1, p :: a, aoff, q :: b, boff =>
    let len := min (p.len - aoff) (q.len - boff)
    if ((p.bytes h).drop aoff).take len = ((q.bytes h).drop boff).take len then
      let x := passed p a aoff len
      let y := passed q b boff len
      equalLoop h fuel x.1 x.2 y.1 y.2
    else some (.ok false)

/-- `contents_equal`. -/
def contentsEqual (h : Heap) (rounds : ℕ) (a b : BufferList) : Option (Except Halt Bool) :=
  if a.len ≠ b.len then some (.ok false) else equalLoop h rounds a.buffers 0 b.buffers 0

/-- The loop of `operator[]`. -/
def lookup (h : Heap) : List Ptr → ℕ → Except Halt UInt8
  | [], _ => .error .stray
  | p :: ps, n =>
    if p.len ≤ n then lookup h ps (n - p.len)
    else
      match (p.bytes h)[n]? with
      | none => .error .assertion
      | some b => .ok b

/-- `operator[]`. -/
def index (h : Heap) (l : BufferList) (n : ℕ) : Except Halt UInt8 :=
  if l.len ≤ n then .error .endOfBuffer else lookup h l.buffers n

section

variable (signed : Bool) (h : Heap) (l r : BufferList)

/-- The last two lines of the loops of `operator>` and `operator>=`: the answer, if they give one. -/
def compareAt (p : ℕ) : Except Halt (Option Bool) :=
  (l.index h p).bind fun x ↦ (r.index h p).map fun y ↦
    if char signed y < char signed x then some true
    else if char signed x < char signed y then some false
    else none

/-- The loop of `operator>`, from `p` on. -/
def gtLoop : ℕ → ℕ → Option (Except Halt Bool)
  | 0, _ => none
  | fuel + 1, p =>
    if p < l.len ∧ r.len = p then some (.ok true)
    else if l.len = p then some (.ok false)
    else
      match compareAt signed h l r p with
      | .error e => some (.error e)
      | .ok (some b) => some (.ok b)
      | .ok none => gtLoop fuel (p + 1)

/-- The loop of `operator>=`. -/
def geLoop : ℕ → ℕ → Option (Except Halt Bool)
  | 0, _ => none
  | fuel + 1, p =>
    if p < l.len ∧ r.len = p then some (.ok true)
    else if r.len = p ∧ l.len = p then some (.ok true)
    else if l.len = p ∧ p < r.len then some (.ok false)
    else
      match compareAt signed h l r p with
      | .error e => some (.error e)
      | .ok (some b) => some (.ok b)
      | .ok none => geLoop fuel (p + 1)

/-- `operator>`. -/
def gt (rounds : ℕ) : Option (Except Halt Bool) := gtLoop signed h l r rounds 0

/-- `operator>=`. -/
def ge (rounds : ℕ) : Option (Except Halt Bool) := geLoop signed h l r rounds 0

/-- `operator<`. -/
def lt (rounds : ℕ) : Option (Except Halt Bool) := gt signed h r l rounds

/-- `operator<=`. -/
def le (rounds : ℕ) : Option (Except Halt Bool) := ge signed h r l rounds

/-- The loop of `operator==`: so many bytes are left to compare, from `p` on. -/
def eqLoop : ℕ → ℕ → Except Halt Bool
  | 0, _ => .ok true
  | n + 1, p =>
    (l.index h p).bind fun x ↦ (r.index h p).bind fun y ↦
      if char signed x ≠ char signed y then .ok false else eqLoop n (p + 1)

/-- `operator==`. -/
def eq : Except Halt Bool := if l.len ≠ r.len then .ok false else eqLoop signed h l r l.len 0

end

variable {signed : Bool} {h : Heap} {used : ℕ → ℕ} {a b l r : BufferList} {p q : Ptr} {ps qs : List Ptr}
  {m n len : ℕ}

theorem char_injective (signed : Bool) : Function.Injective (char signed) := by
  intro x y hxy
  cases signed with
  | false =>
    have hnat : (x.toNat : ℤ) = y.toNat := hxy
    exact UInt8.toNat_inj.mp (Int.ofNat_inj.mp hnat)
  | true =>
    have hint : x.toInt8.toInt = y.toInt8.toInt := hxy
    have height := congrArg Int8.toUInt8 (Int8.toInt_inj.mp hint)
    rwa [UInt8.toUInt8_toInt8, UInt8.toUInt8_toInt8] at height

/-! ## `contents_equal`

The places in the two lists are moved on by the same number of bytes, so what is left of both is
what the loop speaks of. -/

/-- The bytes from a place on. -/
def restOf (h : Heap) (ps : List Ptr) (n : ℕ) : Bytes := (ps.flatMap (Ptr.bytes h)).drop n

theorem restOf_passed (hp : p.In h used) (htidy : Tidy h used) :
    restOf h (passed p ps n len).1 (passed p ps n len).2 = (restOf h (p :: ps) n).drop len := by
  rw [passed, restOf, restOf, List.drop_drop]
  split_ifs with hend
  · rw [hend, List.drop_zero, List.flatMap_cons, List.drop_left' (hp.length_bytes htidy)]
  · rfl

theorem within_passed (hps : ∀ p ∈ ps, 0 < p.len) (hle : n + len ≤ p.len) :
    Within (passed p ps n len).1 (passed p ps n len).2 := by
  rw [passed]
  split_ifs with hend
  · exact within_zero hps
  · exact .inr ⟨p, ps, rfl, lt_of_le_of_ne hle hend⟩

theorem length_passed (p : Ptr) (ps : List Ptr) (n len : ℕ) :
    (passed p ps n len).1.length = if n + len = p.len then ps.length else ps.length + 1 := by
  rw [passed]
  split_ifs <;> rfl

theorem mem_passed (hq : q ∈ (passed p ps n len).1) : q ∈ p :: ps := by
  rw [passed] at hq
  split_ifs at hq
  · exact List.mem_cons_of_mem p hq
  · exact hq

theorem take_restOf (hp : p.In h used) (htidy : Tidy h used) (hle : n + len ≤ p.len) :
    (restOf h (p :: ps) n).take len = ((p.bytes h).drop n).take len :=
  take_drop_inside hp htidy hle

theorem restOf_ne_nil (ps : List Ptr) (hp : p.In h used) (htidy : Tidy h used) (hlt : n < p.len) :
    0 < (restOf h (p :: ps) n).length := by
  rw [restOf, List.length_drop, List.flatMap_cons, List.length_append, hp.length_bytes htidy]
  omega

theorem prefix_of_drop {x y : Bytes} {k : ℕ} (htake : x.take k = y.take k) (hdrop : x.drop k <+: y.drop k) :
    x <+: y := by
  rw [← List.take_append_drop k x, ← List.take_append_drop k y, htake]
  exact (List.prefix_append_right_inj _).mpr hdrop

/-- The loop compares what is left of both lists, unless one of them is the beginning of the other. -/
theorem equalLoop_eq (hps : ∀ p ∈ ps, p.In h used ∧ 0 < p.len) (hqs : ∀ q ∈ qs, q.In h used ∧ 0 < q.len)
    (htidy : Tidy h used) (hm : Within ps m) (hn : Within qs n)
    (hapart : restOf h ps m <+: restOf h qs n ∨ restOf h qs n <+: restOf h ps m →
      restOf h ps m = restOf h qs n) {fuel : ℕ} (hfuel : ps.length + qs.length ≤ fuel) :
    equalLoop h fuel ps m qs n = some (.ok (decide (restOf h ps m = restOf h qs n))) := by
  induction fuel generalizing ps m qs n with
  | zero =>
    have hnil : ps = [] := List.eq_nil_of_length_eq_zero (by omega)
    have hnil' : qs = [] := List.eq_nil_of_length_eq_zero (by omega)
    subst hnil hnil'
    rw [equalLoop, if_pos rfl, restOf, restOf, List.flatMap_nil, List.drop_nil, List.drop_nil]
    rfl
  | succ fuel ih =>
    cases ps with
    | nil =>
      have hempty : restOf h [] m = [] := by rw [restOf, List.flatMap_nil, List.drop_nil]
      -- the loop ends with the first list, so the other has to be at its end as well
      have hnil : qs = [] := by
        by_contra hne
        obtain ⟨q, qs', rfl, hlt⟩ := hn.resolve_left fun h ↦ hne h.1
        have hpos := restOf_ne_nil qs' (hqs q List.mem_cons_self).1 htidy hlt
        rw [← hapart (.inl (hempty ▸ List.nil_prefix)), hempty] at hpos
        exact absurd hpos (by decide)
      subst hnil
      rw [equalLoop, if_pos rfl, hempty, restOf, List.flatMap_nil, List.drop_nil]
      rfl
    | cons p ps =>
      obtain ⟨p', ps', hcons, hplt⟩ := hm.resolve_left fun h ↦ by cases h.1
      obtain ⟨rfl, rfl⟩ := List.cons.inj hcons
      have hp := (hps p List.mem_cons_self).1
      have hpos := restOf_ne_nil ps hp htidy hplt
      cases qs with
      | nil =>
        have hempty : restOf h [] n = [] := by rw [restOf, List.flatMap_nil, List.drop_nil]
        rw [hapart (.inr (hempty ▸ List.nil_prefix)), hempty] at hpos
        exact absurd hpos (by decide)
      | cons q qs =>
        obtain ⟨q', qs', hcons', hqlt⟩ := hn.resolve_left fun h ↦ by cases h.1
        obtain ⟨rfl, rfl⟩ := List.cons.inj hcons'
        have hq := (hqs q List.mem_cons_self).1
        -- `k` bytes are compared in one round: as many as both segments still have
        obtain ⟨k, hk⟩ : ∃ k, min (p.len - m) (q.len - n) = k := ⟨_, rfl⟩
        have hpk : m + k ≤ p.len := by omega
        have hqk : n + k ≤ q.len := by omega
        have htakes : (restOf h (p :: ps) m).take k = (restOf h (q :: qs) n).take k ↔
            ((p.bytes h).drop m).take k = ((q.bytes h).drop n).take k := by
          rw [take_restOf hp htidy hpk, take_restOf hq htidy hqk]
        rw [equalLoop, hk]
        by_cases hsame : ((p.bytes h).drop m).take k = ((q.bytes h).drop n).take k
        · have htake := htakes.mpr hsame
          have hdrops : (restOf h (p :: ps) m).drop k = (restOf h (q :: qs) n).drop k ↔
              restOf h (p :: ps) m = restOf h (q :: qs) n := by
            constructor
            · intro hdrop
              rw [← List.take_append_drop k (restOf h (p :: ps) m), htake, hdrop, List.take_append_drop]
            · intro heq
              rw [heq]
          dsimp only
          rw [if_pos hsame, ih (fun x hx ↦ hps x (mem_passed hx)) (fun x hx ↦ hqs x (mem_passed hx))
            (within_passed (fun x hx ↦ (hps x (List.mem_cons_of_mem p hx)).2) hpk)
            (within_passed (fun x hx ↦ (hqs x (List.mem_cons_of_mem q hx)).2) hqk)]
          · rw [restOf_passed hp htidy, restOf_passed hq htidy]
            simp only [hdrops]
          · rw [restOf_passed hp htidy, restOf_passed hq htidy, hdrops]
            rintro (hpre | hpre)
            · exact hapart (.inl (prefix_of_drop htake hpre))
            · exact hapart (.inr (prefix_of_drop htake.symm hpre))
          · rw [length_passed, length_passed]
            rw [List.length_cons, List.length_cons] at hfuel
            split_ifs <;> omega
        · dsimp only
          rw [if_neg hsame, decide_eq_false fun heq ↦ hsame (htakes.mp (by rw [heq]))]

/-! ## The bytes that `_len` counts

`operator[]` finds the byte at each index below `_len`. From here on the segments do not matter. -/

/-- The bytes that `_len` counts, as `char`s. -/
def key (signed : Bool) (h : Heap) (l : BufferList) : List ℤ :=
  ((l.contents h).take l.len).map (char signed)

/-- All bytes, as `char`s. -/
def chars (signed : Bool) (h : Heap) (l : BufferList) : List ℤ := (l.contents h).map (char signed)

theorem chars_eq_iff (signed : Bool) : chars signed h a = chars signed h b ↔ a.contents h = b.contents h :=
  (List.map_injective_iff.mpr (char_injective signed)).eq_iff

theorem Sound.len_le (hl : l.Sound h used) (htidy : Tidy h used) : l.len ≤ (l.contents h).length := by
  rw [hl.length_contents htidy, hl.len]
  exact Nat.mod_le _ _

theorem Sound.length_key (hl : l.Sound h used) (htidy : Tidy h used) : (key signed h l).length = l.len := by
  rw [key, List.length_map, List.length_take, min_eq_left (hl.len_le htidy)]

/-- Of a list that is not too long, `_len` counts all bytes. -/
theorem Proper.key_eq (hl : l.Proper h) : key signed h l = chars signed h l := by
  rw [key, chars, List.take_of_length_le hl.length_contents.le]

theorem lookup_eq (hps : ∀ p ∈ ps, p.In h used) (htidy : Tidy h used) {c : UInt8}
    (hc : (ps.flatMap (Ptr.bytes h))[n]? = some c) : lookup h ps n = .ok c := by
  induction ps generalizing n with
  | nil => simp at hc
  | cons p ps ih =>
    have hp := (hps p List.mem_cons_self).length_bytes htidy
    rw [List.flatMap_cons] at hc
    rw [lookup]
    by_cases hle : p.len ≤ n
    · rw [if_pos hle]
      rw [List.getElem?_append_right (hp ▸ hle), hp] at hc
      exact ih (fun q hq ↦ hps q (List.mem_cons_of_mem p hq)) hc
    · rw [if_neg hle]
      rw [List.getElem?_append_left (by omega)] at hc
      rw [hc]

/-- `operator[]` gives the byte at that place. -/
theorem Sound.index_eq (hl : l.Sound h used) (htidy : Tidy h used) (signed : Bool) (hn : n < l.len) :
    ∃ c, index h l n = .ok c ∧ (key signed h l).drop n = char signed c :: (key signed h l).drop (n + 1) := by
  have hlt : n < (l.contents h).length := lt_of_lt_of_le hn (hl.len_le htidy)
  refine ⟨(l.contents h)[n], ?_, ?_⟩
  · rw [index, if_neg (Nat.not_le.mpr hn)]
    exact lookup_eq (fun p hp ↦ (hl.segment p hp).1) htidy (List.getElem?_eq_getElem hlt)
  · have hkey : n < (key signed h l).length := (hl.length_key htidy).symm ▸ hn
    rw [List.drop_eq_getElem_cons hkey]
    congr 1
    simp only [key, List.getElem_map, List.getElem_take]

theorem Sound.key_drop_eq_nil (hl : l.Sound h used) (htidy : Tidy h used) (hn : l.len = n) :
    (key signed h l).drop n = [] :=
  List.drop_eq_nil_of_le ((hl.length_key htidy).trans hn).le

/-! ## The operators

The loops of `operator>` and `operator>=` are the three-way comparison of the lexicographic order
from the current index on; the other two are their negations. -/

/-- The library's three-way comparison of lists is the lexicographic order. -/
theorem compare_compares (xs ys : List ℤ) : (compare xs ys).Compares xs ys := by
  induction xs generalizing ys with
  | nil =>
    cases ys with
    | nil => exact rfl
    | cons y ys =>
      rw [List.compare_nil_cons]
      exact List.nil_lt_cons y ys
  | cons x xs ih =>
    cases ys with
    | nil =>
      rw [List.compare_cons_nil]
      exact List.nil_lt_cons x xs
    | cons y ys =>
      rw [List.compare_cons_cons]
      rcases lt_trichotomy x y with hxy | rfl | hxy
      · rw [compare_lt_iff_lt.mpr hxy, Ordering.lt_then]
        exact List.cons_lt_cons_iff.mpr (.inl hxy)
      · rw [compare_eq_iff_eq.mpr rfl, Ordering.eq_then]
        have hrest := ih ys
        cases hc : compare xs ys with
        | lt =>
          rw [hc] at hrest
          exact List.cons_lt_cons_iff.mpr (.inr ⟨rfl, hrest⟩)
        | eq =>
          rw [hc] at hrest
          exact congrArg (x :: ·) hrest
        | gt =>
          rw [hc] at hrest
          exact List.cons_lt_cons_iff.mpr (.inr ⟨rfl, hrest⟩)
      · rw [compare_gt_iff_gt.mpr hxy, Ordering.gt_then]
        exact List.cons_lt_cons_iff.mpr (.inl hxy)

theorem compare_eq_gt {xs ys : List ℤ} : compare xs ys = .gt ↔ ys < xs :=
  Ordering.Compares.eq_gt (compare_compares xs ys)

theorem compare_eq_lt {xs ys : List ℤ} : compare xs ys = .lt ↔ xs < ys :=
  Ordering.Compares.eq_lt (compare_compares xs ys)

theorem compare_eq_eq {xs ys : List ℤ} : compare xs ys = .eq ↔ xs = ys :=
  Ordering.Compares.eq_eq (compare_compares xs ys)

/-- Two pairs of lists compare alike. -/
theorem compare_eq_compare {xs ys xs' ys' : List ℤ} :
    compare xs ys = compare xs' ys' ↔ (xs < ys ↔ xs' < ys') ∧ (ys < xs ↔ ys' < xs') := by
  rw [← compare_eq_lt, ← compare_eq_lt, ← compare_eq_gt, ← compare_eq_gt]
  cases compare xs ys <;> cases compare xs' ys' <;> simp

/-- The answer of the last two lines of the loops, for the order of the two bytes. -/
def verdict : Ordering → Option Bool
  | .lt => some false
  | .eq => none
  | .gt => some true

theorem compareAt_eq (signed : Bool) (hl : l.Sound h used) (hr : r.Sound h used) (htidy : Tidy h used)
    (hnl : n < l.len) (hnr : n < r.len) :
    ∃ o, compareAt signed h l r n = .ok (verdict o) ∧
      compare ((key signed h l).drop n) ((key signed h r).drop n) =
        o.then (compare ((key signed h l).drop (n + 1)) ((key signed h r).drop (n + 1))) := by
  obtain ⟨x, hx, hxl⟩ := hl.index_eq htidy signed hnl
  obtain ⟨y, hy, hyr⟩ := hr.index_eq htidy signed hnr
  refine ⟨compare (char signed x) (char signed y), ?_, ?_⟩
  · have hat : compareAt signed h l r n = .ok (if char signed y < char signed x then some true
        else if char signed x < char signed y then some false else none) := by
      rw [compareAt, hx, hy]
      rfl
    rw [hat]
    rcases lt_trichotomy (char signed x) (char signed y) with hxy | heq | hxy
    · rw [if_neg hxy.asymm, if_pos hxy, compare_lt_iff_lt.mpr hxy]
      rfl
    · rw [heq, if_neg (lt_irrefl _), if_neg (lt_irrefl _), compare_eq_iff_eq.mpr rfl]
      rfl
    · rw [if_pos hxy, compare_gt_iff_gt.mpr hxy]
      rfl
  · rw [hxl, hyr, List.compare_cons_cons]

/-- `operator>`, from `n` on. -/
theorem gtLoop_eq (signed : Bool) (hl : l.Sound h used) (hr : r.Sound h used) (htidy : Tidy h used)
    (hnl : n ≤ l.len) (hnr : n ≤ r.len) {fuel : ℕ} (hfuel : l.len < n + fuel) :
    gtLoop signed h l r fuel n =
      some (.ok (decide (compare ((key signed h l).drop n) ((key signed h r).drop n) = .gt))) := by
  induction fuel generalizing n with
  | zero => omega
  | succ fuel ih =>
    rw [gtLoop]
    by_cases hfirst : n < l.len ∧ r.len = n
    · rw [if_pos hfirst]
      obtain ⟨c, -, hc⟩ := hl.index_eq htidy signed hfirst.1
      rw [hc, hr.key_drop_eq_nil htidy hfirst.2, List.compare_cons_nil]
      rfl
    · rw [if_neg hfirst]
      by_cases hend : l.len = n
      · rw [if_pos hend, hl.key_drop_eq_nil htidy hend]
        cases hkey : (key signed h r).drop n with
        | nil => rfl
        | cons y ys => rfl
      · rw [if_neg hend]
        have hnl' : n < l.len := by omega
        have hnr' : n < r.len := by omega
        obtain ⟨o, hat, ho⟩ := compareAt_eq signed hl hr htidy hnl' hnr'
        rw [hat, ho]
        cases o with
        | lt => rfl
        | gt => rfl
        | eq =>
          rw [Ordering.eq_then]
          exact ih hnl' hnr' (by omega)

/-- `operator>=`, from `n` on. -/
theorem geLoop_eq (signed : Bool) (hl : l.Sound h used) (hr : r.Sound h used) (htidy : Tidy h used)
    (hnl : n ≤ l.len) (hnr : n ≤ r.len) {fuel : ℕ} (hfuel : l.len < n + fuel) :
    geLoop signed h l r fuel n =
      some (.ok (decide (compare ((key signed h l).drop n) ((key signed h r).drop n) ≠ .lt))) := by
  induction fuel generalizing n with
  | zero => omega
  | succ fuel ih =>
    rw [geLoop]
    by_cases hfirst : n < l.len ∧ r.len = n
    · rw [if_pos hfirst]
      obtain ⟨c, -, hc⟩ := hl.index_eq htidy signed hfirst.1
      rw [hc, hr.key_drop_eq_nil htidy hfirst.2, List.compare_cons_nil]
      rfl
    · rw [if_neg hfirst]
      by_cases hboth : r.len = n ∧ l.len = n
      · rw [if_pos hboth, hl.key_drop_eq_nil htidy hboth.2, hr.key_drop_eq_nil htidy hboth.1]
        rfl
      · rw [if_neg hboth]
        by_cases hend : l.len = n ∧ n < r.len
        · obtain ⟨c, -, hc⟩ := hr.index_eq htidy signed hend.2
          rw [if_pos hend, hl.key_drop_eq_nil htidy hend.1, hc, List.compare_nil_cons]
          rfl
        · rw [if_neg hend]
          have hnl' : n < l.len := by omega
          have hnr' : n < r.len := by omega
          obtain ⟨o, hat, ho⟩ := compareAt_eq signed hl hr htidy hnl' hnr'
          rw [hat, ho]
          cases o with
          | lt => rfl
          | gt => rfl
          | eq =>
            rw [Ordering.eq_then]
            exact ih hnl' hnr' (by omega)

/-- `operator==`, from `n` on. -/
theorem eqLoop_eq (signed : Bool) (hl : l.Sound h used) (hr : r.Sound h used) (htidy : Tidy h used) {left : ℕ}
    (hnl : n + left = l.len) (hnr : n + left = r.len) :
    eqLoop signed h l r left n = .ok (decide ((key signed h l).drop n = (key signed h r).drop n)) := by
  induction left generalizing n with
  | zero =>
    rw [Nat.add_zero] at hnl hnr
    rw [eqLoop, hl.key_drop_eq_nil htidy hnl.symm, hr.key_drop_eq_nil htidy hnr.symm]
    rfl
  | succ left ih =>
    obtain ⟨x, hx, hxl⟩ := hl.index_eq htidy signed (show n < l.len by omega)
    obtain ⟨y, hy, hyr⟩ := hr.index_eq htidy signed (show n < r.len by omega)
    have hstep : eqLoop signed h l r (left + 1) n =
        if char signed x ≠ char signed y then .ok false else eqLoop signed h l r left (n + 1) := by
      rw [eqLoop, hx, hy]
      rfl
    rw [hstep, ih (by omega) (by omega), hxl, hyr]
    by_cases hxy : char signed x = char signed y
    · rw [if_neg (not_not.mpr hxy), hxy]
      simp only [List.cons.injEq, true_and]
    · rw [if_pos hxy, decide_eq_false fun heq ↦ hxy (List.cons.inj heq).1]

section

variable (hl : l.Sound h used) (hr : r.Sound h used) (htidy : Tidy h used)

include hl hr htidy

theorem gt_eq {rounds : ℕ} (hrounds : l.len < rounds) :
    gt signed h l r rounds = some (.ok (decide (key signed h r < key signed h l))) := by
  have hgt := gtLoop_eq signed hl hr htidy (Nat.zero_le _) (Nat.zero_le _)
    (show l.len < 0 + rounds by omega)
  rw [List.drop_zero, List.drop_zero] at hgt
  simp only [compare_eq_gt] at hgt
  exact hgt

theorem ge_eq {rounds : ℕ} (hrounds : l.len < rounds) :
    ge signed h l r rounds = some (.ok (decide (key signed h r ≤ key signed h l))) := by
  have hge := geLoop_eq signed hl hr htidy (Nat.zero_le _) (Nat.zero_le _)
    (show l.len < 0 + rounds by omega)
  rw [List.drop_zero, List.drop_zero] at hge
  have hnot : compare (key signed h l) (key signed h r) ≠ .lt ↔ key signed h r ≤ key signed h l :=
    compare_eq_lt.not.trans not_lt
  simp only [hnot] at hge
  exact hge

theorem eq_eq : eq signed h l r = .ok (decide (key signed h l = key signed h r)) := by
  rw [eq]
  by_cases hlen : l.len = r.len
  · have heq := eqLoop_eq signed hl hr htidy (Nat.zero_add l.len) ((Nat.zero_add _).trans hlen)
    rw [List.drop_zero, List.drop_zero] at heq
    rw [if_neg (not_not.mpr hlen), heq]
  · rw [if_pos hlen, decide_eq_false]
    intro hkey
    have hsame := congrArg List.length hkey
    rw [hl.length_key htidy, hr.length_key htidy] at hsame
    exact hlen hsame

/-- `contents_equal` compares all bytes, unless one list is the beginning of the other and `_len` does not tell. -/
theorem contentsEqual_eq {rounds : ℕ} (hrounds : l.buffers.length + r.buffers.length ≤ rounds)
    (hapart : l.len = r.len → l.contents h <+: r.contents h ∨ r.contents h <+: l.contents h →
      l.contents h = r.contents h) :
    contentsEqual h rounds l r = some (.ok (decide (l.contents h = r.contents h))) := by
  rw [contentsEqual]
  by_cases hlen : l.len = r.len
  · rw [if_neg (not_not.mpr hlen)]
    exact equalLoop_eq hl.segment hr.segment htidy (within_zero fun p hp ↦ (hl.segment p hp).2)
      (within_zero fun p hp ↦ (hr.segment p hp).2) (hapart hlen) hrounds
  · rw [if_pos hlen, decide_eq_false]
    intro heq
    have hsum := congrArg List.length heq
    rw [hl.length_contents htidy, hr.length_contents htidy] at hsum
    exact hlen (by rw [hl.len, hr.len, hsum])

end

/-- The comparisons are those of the byte strings: `contents_equal` and `operator==` tell whether they are the
same, the others their lexicographic order, and exactly one of `<`, `==` and `>` holds. All of them return. -/
structure Compares (signed : Bool) (h : Heap) (a b : BufferList) : Prop where
  contentsEqual : ∀ rounds, a.buffers.length + b.buffers.length ≤ rounds →
    contentsEqual h rounds a b = some (.ok (decide (a.contents h = b.contents h)))
  eq : eq signed h a b = .ok (decide (a.contents h = b.contents h))
  gt : ∀ rounds, a.len + b.len < rounds →
    gt signed h a b rounds = some (.ok (decide (chars signed h b < chars signed h a)))
  ge : ∀ rounds, a.len + b.len < rounds →
    ge signed h a b rounds = some (.ok (decide (chars signed h b ≤ chars signed h a)))
  lt : ∀ rounds, a.len + b.len < rounds →
    lt signed h a b rounds = some (.ok (decide (chars signed h a < chars signed h b)))
  le : ∀ rounds, a.len + b.len < rounds →
    le signed h a b rounds = some (.ok (decide (chars signed h a ≤ chars signed h b)))
  one : ∀ rounds, a.len + b.len < rounds → ∃ x y z, BufferList.lt signed h a b rounds = some (.ok x) ∧
    BufferList.eq signed h a b = .ok y ∧ BufferList.gt signed h a b rounds = some (.ok z) ∧
      [x, y, z].count true = 1

theorem take_congr_prefixed {x y : Bytes} (hpre : x <+: y) (hn : n ≤ x.length) : x.take n = y.take n := by
  rw [List.prefix_iff_eq_take.mp hpre, List.take_take, min_eq_left hn]

theorem count_one (xs ys : List ℤ) :
    [decide (xs < ys), decide (xs = ys), decide (ys < xs)].count true = 1 := by
  rcases lt_trichotomy xs ys with hlt | rfl | hgt
  · rw [decide_eq_true hlt, decide_eq_false hlt.ne, decide_eq_false hlt.asymm]
    rfl
  · rw [decide_eq_true rfl, decide_eq_false (lt_irrefl xs)]
    rfl
  · rw [decide_eq_true hgt, decide_eq_false hgt.ne', decide_eq_false hgt.asymm]
    rfl

/-- The comparisons are those of the byte strings, if these compare like what `_len` counts of them. -/
theorem compares_of_counted (ha : a.Sound h h.extent) (hb : b.Sound h h.extent)
    (hlt : key signed h a < key signed h b ↔ chars signed h a < chars signed h b)
    (hgt : key signed h b < key signed h a ↔ chars signed h b < chars signed h a) : Compares signed h a b := by
  have htidy := tidy_extent h
  have hle : key signed h a ≤ key signed h b ↔ chars signed h a ≤ chars signed h b :=
    not_lt.symm.trans (hgt.not.trans not_lt)
  have hge : key signed h b ≤ key signed h a ↔ chars signed h b ≤ chars signed h a :=
    not_lt.symm.trans (hlt.not.trans not_lt)
  have heq : key signed h a = key signed h b ↔ a.contents h = b.contents h := by
    rw [← compare_eq_eq, compare_eq_compare.mpr ⟨hlt, hgt⟩, compare_eq_eq, chars_eq_iff]
  have hEq : eq signed h a b = .ok (decide (a.contents h = b.contents h)) := by
    rw [eq_eq ha hb htidy, decide_eq_decide.mpr heq]
  have hGt : ∀ rounds, a.len + b.len < rounds →
      gt signed h a b rounds = some (.ok (decide (chars signed h b < chars signed h a))) := by
    intro rounds hrounds
    rw [gt_eq ha hb htidy (by omega), decide_eq_decide.mpr hgt]
  have hLt : ∀ rounds, a.len + b.len < rounds →
      lt signed h a b rounds = some (.ok (decide (chars signed h a < chars signed h b))) := by
    intro rounds hrounds
    rw [lt, gt_eq hb ha htidy (by omega), decide_eq_decide.mpr hlt]
  refine ⟨?_, hEq, hGt, ?_, hLt, ?_, ?_⟩
  · intro rounds hrounds
    refine contentsEqual_eq ha hb htidy hrounds fun hlen hpre ↦ heq.mp ?_
    -- One list is the beginning of the other, so `_len` counts the same bytes of both.
    have htake : (a.contents h).take a.len = (b.contents h).take b.len := by
      rcases hpre with hpre | hpre
      · rw [take_congr_prefixed hpre (ha.len_le htidy), hlen]
      · rw [hlen, take_congr_prefixed hpre (hb.len_le htidy)]
    rw [key, key, htake]
  · intro rounds hrounds
    rw [ge_eq ha hb htidy (by omega), decide_eq_decide.mpr hge]
  · intro rounds hrounds
    rw [le, ge_eq hb ha htidy (by omega), decide_eq_decide.mpr hle]
  · intro rounds hrounds
    refine ⟨_, _, _, hLt rounds hrounds, hEq, hGt rounds hrounds, ?_⟩
    rw [← decide_eq_decide.mpr (chars_eq_iff signed)]
    exact count_one _ _

/-- The comparisons are those of the byte strings if and only if these compare like what `_len` counts of them. -/
theorem compares_iff (ha : a.Sound h h.extent) (hb : b.Sound h h.extent) :
    Compares signed h a b ↔
      compare (key signed h a) (key signed h b) = compare (chars signed h a) (chars signed h b) := by
  rw [compare_eq_compare]
  constructor
  · intro hc
    have hgt := hc.gt (a.len + b.len + 1) (Nat.lt_succ_self _)
    have hlt := hc.lt (a.len + b.len + 1) (Nat.lt_succ_self _)
    rw [lt] at hlt
    rw [gt_eq ha hb (tidy_extent h) (by omega), Option.some_inj, Except.ok.injEq, decide_eq_decide] at hgt
    rw [gt_eq hb ha (tidy_extent h) (by omega), Option.some_inj, Except.ok.injEq, decide_eq_decide] at hlt
    exact ⟨hlt, hgt⟩
  · rintro ⟨hlt, hgt⟩
    exact compares_of_counted ha hb hlt hgt

/-- Lists of less than `2 ^ 32` bytes compare like their byte strings. -/
theorem Proper.compares (ha : a.Proper h) (hb : b.Proper h) : Compares signed h a b := by
  apply compares_of_counted ha.sound hb.sound <;> rw [ha.key_eq, hb.key_eq]

/-- Three bytes in two segments. -/
def halves : BufferList where
  buffers := [{ raw := some 0, len := 1 }, { raw := some 0, off := 1, len := 2 }]
  len := 3

/-- The same bytes in one segment. -/
def whole : BufferList where
  buffers := [{ raw := some 0, len := 3 }]
  len := 3

theorem compares_halves : Compares true [{ bytes := [1, 128, 3] }] halves whole := by
  refine (compares_iff ⟨fun p hp ↦ ?_, rfl⟩ ⟨fun p hp ↦ ?_, rfl⟩).mpr rfl
  · rcases List.mem_cons.mp hp with rfl | hp
    · exact ⟨⟨by rintro ⟨⟩, by rintro r ⟨⟩; decide⟩, by decide⟩
    · rw [List.mem_singleton.mp hp]
      exact ⟨⟨by rintro ⟨⟩, by rintro r ⟨⟩; decide⟩, by decide⟩
  · rw [List.mem_singleton.mp hp]
    exact ⟨⟨by rintro ⟨⟩, by rintro r ⟨⟩; decide⟩, by decide⟩

/-- `2 ^ 32` bytes: the same raw buffer 65536 times. -/
def overlong : BufferList where
  buffers := List.replicate 65536 { raw := some 0, len := 65536 }
  len := 0

/-- A list of `2 ^ 32` bytes equals the empty list. -/
theorem overlong_equals_empty : ¬∀ (signed : Bool) (h : Heap) (a b : BufferList),
    a.Sound h h.extent → b.Sound h h.extent → Compares signed h a b := by
  intro hall
  have hsum : (overlong.buffers.map Ptr.len).sum = 65536 * 65536 := by
    rw [overlong, List.map_replicate, List.sum_replicate_nat]
  have hsound : overlong.Sound [{ bytes := List.replicate 65536 0 }]
      (Heap.extent [{ bytes := List.replicate 65536 0 }]) := by
    constructor
    · intro p hp
      rw [List.eq_of_mem_replicate hp]
      have hextent : Heap.extent [{ bytes := List.replicate 65536 0 }] 0 = 65536 := List.length_replicate
      refine ⟨⟨by rintro ⟨⟩, fun r hr ↦ ?_⟩, by decide⟩
      obtain rfl := Option.some_inj.mp hr
      exact ⟨Nat.zero_lt_one, hextent.ge⟩
    · rw [hsum]
      rfl
  have hempty : ({} : BufferList).Sound [{ bytes := List.replicate 65536 0 }]
      (Heap.extent [{ bytes := List.replicate 65536 0 }]) :=
    ⟨fun p hp ↦ absurd hp List.not_mem_nil, rfl⟩
  have heq := (hall true _ overlong {} hsound hempty).eq
  have hcontents : overlong.contents [{ bytes := List.replicate 65536 0 }] = [] :=
    of_decide_eq_true (Except.ok.inj heq).symm
  have hlength := hsound.length_contents (tidy_extent _)
  rw [hcontents, hsum] at hlength
  exact absurd hlength (by decide)

end BufferList

end AsyncMessenger
