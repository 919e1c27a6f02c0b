import Mathlib.Data.List.Basic
import Mathlib.Data.List.Perm.Basic
import Mathlib.Order.Basic

/-!
# Arrivals

A queue as the list of those that wait in it, in the order in which they came. Some have a priority
and are served before all others: the oldest of the highest priority is next. Without them, it is
the oldest.

This says what a queue with priorities is for. An implementation keeps a queue for each priority and
need not know who came before whom in another one; it serves rightly if its queues are those of
`ofKind` and it takes from the one that `top` names (`serve_eq`). A queue that is emptied serves
everyone once, in the order `order`.
-/

/-- Something that waits, with a priority or without. -/
structure Arrival (β : Type*) where
  priority : Option ℕ
  entry : β

namespace Arrivals

variable {β : Type*} {l l' : List (Arrival β)} {b : β} {p : ℕ} {o : Option ℕ}

/-- The highest priority, if there is one. -/
def top (l : List (Arrival β)) : Option ℕ := (l.filterMap Arrival.priority).max?

/-- The next one, and those that are left. -/
def serve (l : List (Arrival β)) : Option (Arrival β × List (Arrival β)) :=
  (l.find? fun a ↦ a.priority = top l).map fun a ↦ (a, l.eraseP fun a ↦ a.priority = top l)

/-- Serve so many. -/
def serveMany : ℕ → List (Arrival β) → List (Arrival β)
  | 0, _ => []
  | n + 1, l => match serve l with
    | none => []
    | some (a, rest) => a :: serveMany n rest

/-- All of them, in the order in which they are served. -/
def order (l : List (Arrival β)) : List (Arrival β) := serveMany l.length l

/-- The entries of one kind, in the order in which they came. -/
def ofKind (l : List (Arrival β)) (o : Option ℕ) : List β :=
  (l.filter fun a ↦ a.priority = o).map Arrival.entry

/-! ## The highest priority

There is one exactly if someone with a priority waits. -/

theorem ofKind_ne_nil : ofKind l o ≠ [] ↔ ∃ a ∈ l, a.priority = o := by
  rw [ofKind, ne_eq, List.map_eq_nil_iff, List.filter_eq_nil_iff]
  push Not
  simp only [decide_eq_true_eq]

theorem top_eq_none (h : ∀ p, ofKind l (some p) = []) : top l = none := by
  rw [top, List.max?_eq_none_iff, List.filterMap_eq_nil_iff]
  intro a ha
  by_contra hne
  obtain ⟨p, hp⟩ := Option.ne_none_iff_exists'.mp hne
  exact ofKind_ne_nil.mpr ⟨a, ha, hp⟩ (h p)

theorem top_eq_some (hp : ofKind l (some p) ≠ []) (hmax : ∀ p', ofKind l (some p') ≠ [] → p' ≤ p) :
    top l = some p := by
  rw [top, List.max?_eq_some_iff]
  constructor
  · obtain ⟨a, ha, hap⟩ := ofKind_ne_nil.mp hp
    exact List.mem_filterMap.mpr ⟨a, ha, hap⟩
  · intro p' hp'
    obtain ⟨a, ha, hap⟩ := List.mem_filterMap.mp hp'
    exact hmax p' (ofKind_ne_nil.mpr ⟨a, ha, hap⟩)

/-! ## Serving

Only the oldest of its kind leaves, and the other kinds stay as they are. -/

theorem filter_eraseP_self {α : Type*} (f : α → Bool) (l : List α) :
    (l.eraseP f).filter f = (l.filter f).tail := by
  induction l with
  | nil => rfl
  | cons a l ih =>
    by_cases ha : f a = true
    · rw [List.eraseP_cons_of_pos ha, List.filter_cons_of_pos ha, List.tail_cons]
    · rw [List.eraseP_cons_of_neg ha, List.filter_cons_of_neg ha, List.filter_cons_of_neg ha, ih]

theorem filter_eraseP_of_disjoint {α : Type*} {f g : α → Bool} (h : ∀ a, f a = true → g a = false)
    (l : List α) : (l.eraseP f).filter g = l.filter g := by
  induction l with
  | nil => rfl
  | cons a l ih =>
    by_cases ha : f a = true
    · rw [List.eraseP_cons_of_pos ha, List.filter_cons_of_neg (by rw [h a ha]; decide)]
    · rw [List.eraseP_cons_of_neg ha, List.filter_cons, List.filter_cons, ih]

theorem perm_cons_eraseP {α : Type*} {f : α → Bool} {a : α} {l : List α} (h : l.find? f = some a) :
    l.Perm (a :: l.eraseP f) := by
  induction l with
  | nil => exact absurd h (by simp)
  | cons x l ih =>
    by_cases hx : f x = true
    · rw [List.find?_cons_of_pos hx, Option.some_inj] at h
      rw [List.eraseP_cons_of_pos hx, h]
    · rw [List.find?_cons_of_neg hx] at h
      rw [List.eraseP_cons_of_neg hx]
      exact ((ih h).cons x).trans (List.Perm.swap a x _)

/-- The oldest of the kind that is served first. -/
theorem serve_eq {bs : List β} (h : ofKind l (top l) = b :: bs) :
    ∃ a l', serve l = some (a, l') ∧ a.entry = b ∧ ofKind l' (top l) = bs ∧
      ∀ o, o ≠ top l → ofKind l' o = ofKind l o := by
  obtain ⟨a, as, hfilter, rfl, rfl⟩ := List.map_eq_cons_iff.mp h
  have hfind : (l.find? fun a ↦ a.priority = top l) = some a := by
    rw [← List.head?_filter, hfilter, List.head?_cons]
  refine ⟨a, _, by rw [serve, hfind]; rfl, rfl, ?_, fun o ho ↦ ?_⟩
  · rw [ofKind, filter_eraseP_self, hfilter, List.tail_cons]
  · rw [ofKind, filter_eraseP_of_disjoint, ofKind]
    intro x hx
    rw [of_decide_eq_true hx]
    exact decide_eq_false (Ne.symm ho)

/-- If nothing is left of the kind that is served first, nothing is left. -/
theorem eq_nil_of_ofKind_top (h : ofKind l (top l) = []) : l = [] := by
  by_contra hne
  obtain ⟨a, ha⟩ := List.exists_mem_of_ne_nil l hne
  cases htop : top l with
  | none =>
    rw [top, List.max?_eq_none_iff, List.filterMap_eq_nil_iff] at htop
    refine ofKind_ne_nil.mpr ⟨a, ha, ?_⟩ h
    rw [htop a ha, top, List.max?_eq_none_iff.mpr (List.filterMap_eq_nil_iff.mpr htop)]
  | some p =>
    obtain ⟨x, hx, hxp⟩ := List.mem_filterMap.mp (List.max?_mem htop)
    exact ofKind_ne_nil.mpr ⟨x, hx, hxp.trans htop.symm⟩ h

theorem perm_of_serve {a : Arrival β} (h : serve l = some (a, l')) : l.Perm (a :: l') := by
  obtain ⟨x, hfind, hx⟩ := Option.map_eq_some_iff.mp h
  obtain ⟨rfl, rfl⟩ := Prod.mk.inj hx
  exact perm_cons_eraseP hfind

theorem eq_nil_of_serve (h : serve l = none) : l = [] := by
  cases hkind : ofKind l (top l) with
  | nil => exact eq_nil_of_ofKind_top hkind
  | cons b bs =>
    obtain ⟨a, l', hserve, -⟩ := serve_eq hkind
    exact absurd (h.symm.trans hserve) (by simp)

/-! ## The order of service

The recursion is on the number of those that wait, which `serve` makes smaller by one. -/

theorem order_nil : order ([] : List (Arrival β)) = [] := rfl

theorem order_cons {a : Arrival β} (h : serve l = some (a, l')) : order l = a :: order l' := by
  rw [order, (perm_of_serve h).length_eq, List.length_cons, serveMany, h, order]

/-- Everyone is served once. -/
theorem order_perm (l : List (Arrival β)) : (order l).Perm l := by
  obtain ⟨n, hn⟩ : ∃ n, l.length = n := ⟨_, rfl⟩
  induction n generalizing l with
  | zero => rw [List.eq_nil_of_length_eq_zero hn, order_nil]
  | succ n ih =>
    cases hserve : serve l with
    | none =>
      rw [eq_nil_of_serve hserve] at hn
      exact absurd hn (by simp)
    | some x =>
      obtain ⟨a, l'⟩ := x
      have hperm := perm_of_serve hserve
      have hlen := hperm.length_eq
      rw [List.length_cons] at hlen
      rw [order_cons hserve]
      exact ((ih l' (by omega)).cons a).trans hperm.symm

end Arrivals
