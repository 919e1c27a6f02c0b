import Mathlib.Data.List.Basic
import Mathlib.Tactic.Common

/-!
# Priority maps of queues

A map from priorities to queues, kept as an association list with the keys in strictly decreasing
order, so that the greatest key is at the head. Reading a key that is not there creates it with an
empty queue, as `operator[]` of a C++ map does.

`WF` is the representation invariant: the keys decrease strictly, and no queue is empty. Each
operation keeps it, and is described by what it does to `queueAt`, the elements at one key; two
operations on different keys then do not meet. What is asked of all elements together, how many
there are with some property, is said of `elements`.
-/

/-- A finite map from priorities to queues; `PrioMap.WF` is its representation invariant. -/
abbrev PrioMap (α : Type*) := List (ℕ × List α)

namespace PrioMap

variable {α : Type*}

/-- Apply `f` to the queue stored at `k`, creating an empty one first if there is none. -/
def modify (f : List α → List α) (k : ℕ) : PrioMap α → PrioMap α
  | [] => [(k, f [])]
  | (j, l) :: q =>
    if j < k then (k, f []) :: (j, l) :: q
    else if j = k then (k, f l) :: q
    else (j, l) :: modify f k q

def pushBack (k : ℕ) (a : α) (q : PrioMap α) : PrioMap α := modify (· ++ [a]) k q

/-- The queue stored at `k`, if there is one. -/
def find? (k : ℕ) : PrioMap α → Option (List α)
  | [] => none
  | (j, l) :: q => if j = k then some l else find? k q

/-- The elements stored at `k`. -/
def queueAt (q : PrioMap α) (k : ℕ) : List α := (q.find? k).getD []

def eraseKey (k : ℕ) : PrioMap α → PrioMap α
  | [] => []
  | (j, l) :: q => if j = k then q else (j, l) :: eraseKey k q

/-- Take the oldest element of the greatest key; empty queues met on the way are erased, and so is
the queue that becomes empty. -/
def popMax : PrioMap α → Option (α × PrioMap α)
  | [] => none
  | (_, []) :: q => popMax q
  | (_, [a]) :: q => some (a, q)
  | (k, a :: b :: l) :: q => some (a, (k, b :: l) :: q)

/-- Keys strictly decreasing, no queue empty. -/
structure WF (q : PrioMap α) : Prop where
  sorted : q.Pairwise fun x y ↦ y.1 < x.1
  nonempty : ∀ x ∈ q, x.2 ≠ []

theorem WF.nil : WF ([] : PrioMap α) := ⟨List.Pairwise.nil, by simp⟩

theorem WF.tail {x : ℕ × List α} {q : PrioMap α} (h : WF (x :: q)) : WF q :=
  ⟨(List.pairwise_cons.mp h.sorted).2, fun y hy ↦ h.nonempty y (List.mem_cons_of_mem x hy)⟩

/-! ## Updates

The key that is written has the new queue, and every other key the one it had. -/

theorem mem_keys_modify {f : List α → List α} {k j : ℕ} :
    ∀ {q : PrioMap α}, j ∈ (modify f k q).map Prod.fst → j = k ∨ j ∈ q.map Prod.fst := by
  intro q
  induction q with
  | nil => intro h; simpa [modify] using h
  | cons x q ih =>
    obtain ⟨i, l⟩ := x
    intro h
    simp only [modify] at h
    split_ifs at h with h1 h2
    · simpa using h
    · subst h2
      simp only [List.map_cons, List.mem_cons] at h ⊢
      tauto
    · simp only [List.map_cons, List.mem_cons] at h ⊢
      rcases h with h | h
      · exact Or.inr (Or.inl h)
      · exact (ih h).imp_right Or.inr

theorem WF.modify {f : List α → List α} (hf : ∀ l, f l ≠ []) {k : ℕ} :
    ∀ {q : PrioMap α}, WF q → WF (modify f k q) := by
  intro q
  induction q with
  | nil => intro _; exact ⟨by simp [PrioMap.modify], by simp [PrioMap.modify, hf]⟩
  | cons x q ih =>
    obtain ⟨j, l⟩ := x
    intro h
    obtain ⟨hlt, hpw⟩ := List.pairwise_cons.mp h.sorted
    simp only [PrioMap.modify]
    split_ifs with h1 h2
    · refine ⟨List.pairwise_cons.mpr ⟨?_, h.sorted⟩, ?_⟩
      · intro y hy
        rcases List.mem_cons.mp hy with rfl | hy
        · exact h1
        · exact Nat.lt_trans (hlt y hy) h1
      · intro y hy
        rcases List.mem_cons.mp hy with rfl | hy
        · exact hf []
        · exact h.nonempty y hy
    · refine ⟨List.pairwise_cons.mpr ⟨fun y hy ↦ h2 ▸ hlt y hy, hpw⟩, ?_⟩
      intro y hy
      rcases List.mem_cons.mp hy with rfl | hy
      · exact hf l
      · exact h.nonempty y (List.mem_cons_of_mem _ hy)
    · have ih' := ih h.tail
      refine ⟨List.pairwise_cons.mpr ⟨?_, ih'.sorted⟩, ?_⟩
      · intro y hy
        rcases mem_keys_modify (List.mem_map_of_mem hy) with hk | hk
        · rw [hk]; omega
        · obtain ⟨z, hz, hzy⟩ := List.mem_map.mp hk
          rw [← hzy]
          exact hlt z hz
      · intro y hy
        rcases List.mem_cons.mp hy with rfl | hy
        · exact h.nonempty _ List.mem_cons_self
        · exact ih'.nonempty y hy

theorem queueAt_cons_self (k : ℕ) (l : List α) (q : PrioMap α) : queueAt ((k, l) :: q) k = l := by
  rw [queueAt, find?, if_pos rfl, Option.getD_some]

theorem queueAt_cons_of_ne {j k : ℕ} (h : j ≠ k) (l : List α) (q : PrioMap α) :
    queueAt ((j, l) :: q) k = queueAt q k := by
  rw [queueAt, queueAt, find?, if_neg h]

theorem queueAt_of_lt {k : ℕ} {q : PrioMap α} (h : ∀ x ∈ q, x.1 < k) : queueAt q k = [] := by
  induction q with
  | nil => rfl
  | cons x q ih =>
    obtain ⟨j, l⟩ := x
    have hj : j < k := h (j, l) List.mem_cons_self
    rw [queueAt_cons_of_ne (by omega)]
    exact ih fun y hy ↦ h y (List.mem_cons_of_mem _ hy)

theorem WF.queueAt_of_mem {x : ℕ × List α} {q : PrioMap α} (h : WF q) (hx : x ∈ q) : queueAt q x.1 = x.2 := by
  induction q with
  | nil => exact absurd hx List.not_mem_nil
  | cons y q ih =>
    obtain ⟨j, l⟩ := y
    obtain ⟨hlt, -⟩ := List.pairwise_cons.mp h.sorted
    rcases List.mem_cons.mp hx with rfl | hrest
    · exact queueAt_cons_self j l q
    · rw [queueAt_cons_of_ne (Nat.ne_of_gt (hlt x hrest)), ih h.tail hrest]

theorem mem_of_queueAt_ne_nil {k : ℕ} {q : PrioMap α} (h : queueAt q k ≠ []) : (k, queueAt q k) ∈ q := by
  induction q with
  | nil => exact absurd rfl h
  | cons y q ih =>
    obtain ⟨j, l⟩ := y
    by_cases hj : j = k
    · rw [hj, queueAt_cons_self]
      exact List.mem_cons_self
    · rw [queueAt_cons_of_ne hj] at h ⊢
      exact List.mem_cons_of_mem _ (ih h)

theorem queueAt_modify_self {f : List α → List α} {k : ℕ} {q : PrioMap α} (h : WF q) :
    queueAt (modify f k q) k = f (queueAt q k) := by
  induction q with
  | nil => rw [modify, queueAt_cons_self]; rfl
  | cons x q ih =>
    obtain ⟨j, l⟩ := x
    obtain ⟨hlt, -⟩ := List.pairwise_cons.mp h.sorted
    simp only [modify]
    split_ifs with hj heq
    · -- all keys are below `k`
      have habsent : queueAt ((j, l) :: q) k = [] := by
        refine queueAt_of_lt fun y hy ↦ ?_
        rcases List.mem_cons.mp hy with rfl | hy
        · exact hj
        · exact Nat.lt_trans (hlt y hy) hj
      rw [queueAt_cons_self, habsent]
    · rw [heq, queueAt_cons_self, queueAt_cons_self]
    · rw [queueAt_cons_of_ne heq, queueAt_cons_of_ne heq, ih h.tail]

theorem queueAt_modify_of_ne {f : List α → List α} {j k : ℕ} (hne : j ≠ k) {q : PrioMap α} :
    queueAt (modify f j q) k = queueAt q k := by
  induction q with
  | nil => rw [modify, queueAt_cons_of_ne hne]
  | cons x q ih =>
    obtain ⟨i, l⟩ := x
    simp only [modify]
    split_ifs with hi heq
    · rw [queueAt_cons_of_ne hne]
    · rw [queueAt_cons_of_ne hne, queueAt_cons_of_ne (heq ▸ hne)]
    · by_cases hik : i = k
      · rw [hik, queueAt_cons_self, queueAt_cons_self]
      · rw [queueAt_cons_of_ne hik, queueAt_cons_of_ne hik, ih]

/-! ## Erasing a key -/

theorem mem_of_mem_eraseKey {k : ℕ} {q : PrioMap α} {x : ℕ × List α} (h : x ∈ eraseKey k q) :
    x ∈ q := by
  induction q with
  | nil => exact h
  | cons y q ih =>
    obtain ⟨j, l⟩ := y
    rw [eraseKey] at h
    split_ifs at h
    · exact List.mem_cons_of_mem _ h
    · rcases List.mem_cons.mp h with h | h
      · exact h ▸ List.mem_cons_self
      · exact List.mem_cons_of_mem _ (ih h)

theorem WF.eraseKey {k : ℕ} {q : PrioMap α} (h : WF q) : WF (eraseKey k q) := by
  induction q with
  | nil => exact h
  | cons x q ih =>
    obtain ⟨j, l⟩ := x
    rw [PrioMap.eraseKey]
    split_ifs
    · exact h.tail
    · refine ⟨List.pairwise_cons.mpr ⟨fun y hy ↦ ?_, (ih h.tail).sorted⟩, fun y hy ↦ ?_⟩
      · exact (List.pairwise_cons.mp h.sorted).1 y (mem_of_mem_eraseKey hy)
      · rcases List.mem_cons.mp hy with rfl | hy
        · exact h.nonempty _ List.mem_cons_self
        · exact (ih h.tail).nonempty y hy

theorem queueAt_eraseKey {k : ℕ} {q : PrioMap α} (h : WF q) : queueAt (eraseKey k q) k = [] := by
  induction q with
  | nil => rfl
  | cons x q ih =>
    obtain ⟨j, l⟩ := x
    rw [eraseKey]
    split_ifs with hj
    · exact queueAt_of_lt fun y hy ↦ hj ▸ (List.pairwise_cons.mp h.sorted).1 y hy
    · rw [queueAt_cons_of_ne hj, ih h.tail]

theorem queueAt_eraseKey_of_ne {j k : ℕ} (hne : j ≠ k) {q : PrioMap α} :
    queueAt (eraseKey j q) k = queueAt q k := by
  induction q with
  | nil => rfl
  | cons x q ih =>
    obtain ⟨i, l⟩ := x
    rw [eraseKey]
    split_ifs with hi
    · rw [queueAt_cons_of_ne (hi ▸ hne)]
    · by_cases hik : i = k
      · rw [hik, queueAt_cons_self, queueAt_cons_self]
      · rw [queueAt_cons_of_ne hik, queueAt_cons_of_ne hik, ih]

/-! ## Taking from the greatest key

One statement covers the key that is taken from and those that are not, so that a caller can follow
any key. -/

/-- What is taken is the oldest element of `k`, or the elements of `k` stay as they are. While there are
any and no key is above `k`, it is the former. -/
theorem popMax_spec {k : ℕ} {q q' : PrioMap α} {a : α} (h : WF q)
    (hpop : popMax q = some (a, q')) :
    WF q' ∧ (queueAt q k = a :: queueAt q' k ∨
      queueAt q' k = queueAt q k ∧ ((∀ x ∈ q, x.1 ≤ k) → queueAt q k = [])) := by
  cases q with
  | nil => exact absurd hpop (by simp [popMax])
  | cons x q =>
    obtain ⟨j, l⟩ := x
    obtain ⟨hlt, hpw⟩ := List.pairwise_cons.mp h.sorted
    -- below the greatest key `j` there is nothing at `k`, unless `j` is above `k`
    have hrest (hj : j ≤ k) : queueAt q k = [] :=
      queueAt_of_lt fun y hy ↦ Nat.lt_of_lt_of_le (hlt y hy) hj
    match l with
    | [] => exact absurd rfl (h.nonempty (j, []) List.mem_cons_self)
    | [b] =>
      rw [popMax, Option.some_inj, Prod.mk.injEq] at hpop
      obtain ⟨rfl, rfl⟩ := hpop
      refine ⟨h.tail, ?_⟩
      by_cases heq : j = k
      · exact Or.inl (by rw [heq, queueAt_cons_self, hrest (Nat.le_of_eq heq)])
      · rw [queueAt_cons_of_ne heq]
        exact Or.inr ⟨rfl, fun hk ↦ hrest (hk _ List.mem_cons_self)⟩
    | b :: c :: l =>
      rw [popMax, Option.some_inj, Prod.mk.injEq] at hpop
      obtain ⟨rfl, rfl⟩ := hpop
      refine ⟨⟨List.pairwise_cons.mpr ⟨hlt, hpw⟩, fun y hy ↦ ?_⟩, ?_⟩
      · rcases List.mem_cons.mp hy with rfl | hy
        · simp
        · exact h.tail.nonempty y hy
      · by_cases heq : j = k
        · exact Or.inl (by rw [heq, queueAt_cons_self, queueAt_cons_self])
        · rw [queueAt_cons_of_ne heq, queueAt_cons_of_ne heq]
          exact Or.inr ⟨rfl, fun hk ↦ hrest (hk _ List.mem_cons_self)⟩

/-! ## Leaving out elements

Some of the elements are gone, and the order of the others is what it was. -/

/-- Keep the elements that `f` accepts; queues that become empty are erased. -/
def prune (f : α → Bool) (q : PrioMap α) : PrioMap α :=
  (q.map fun x ↦ (x.1, x.2.filter f)).filter fun x ↦ x.2 ≠ []

theorem mem_prune {f : α → Bool} {q : PrioMap α} {x : ℕ × List α} (h : x ∈ prune f q) :
    x.2 ≠ [] ∧ ∃ y ∈ q, x = (y.1, y.2.filter f) := by
  obtain ⟨hmem, hne⟩ := List.mem_filter.mp h
  obtain ⟨y, hy, rfl⟩ := List.mem_map.mp hmem
  exact ⟨of_decide_eq_true hne, y, hy, rfl⟩

theorem prune_cons (f : α → Bool) (k : ℕ) (l : List α) (q : PrioMap α) :
    prune f ((k, l) :: q) = if l.filter f = [] then prune f q else (k, l.filter f) :: prune f q := by
  rw [prune, List.map_cons]
  by_cases hnil : l.filter f = []
  · rw [if_pos hnil, List.filter_cons_of_neg (by simpa using hnil), prune]
  · rw [if_neg hnil, List.filter_cons_of_pos (by simpa using hnil), prune]

theorem WF.prune {f : α → Bool} {q : PrioMap α} (h : WF q) : WF (prune f q) := by
  induction q with
  | nil => exact h
  | cons x q ih =>
    obtain ⟨k, l⟩ := x
    obtain ⟨hlt, -⟩ := List.pairwise_cons.mp h.sorted
    have hrest := ih h.tail
    rw [prune_cons]
    split_ifs with hnil
    · exact hrest
    · refine ⟨List.pairwise_cons.mpr ⟨fun y hy ↦ ?_, hrest.sorted⟩, fun y hy ↦ ?_⟩
      · obtain ⟨-, z, hz, rfl⟩ := mem_prune hy
        exact hlt z hz
      · rcases List.mem_cons.mp hy with rfl | hy
        · exact hnil
        · exact hrest.nonempty y hy

theorem queueAt_prune {f : α → Bool} {q : PrioMap α} (h : WF q) (k : ℕ) :
    queueAt (prune f q) k = (queueAt q k).filter f := by
  induction q with
  | nil => rfl
  | cons x q ih =>
    obtain ⟨j, l⟩ := x
    obtain ⟨hlt, -⟩ := List.pairwise_cons.mp h.sorted
    have hrest := ih h.tail
    rw [prune_cons]
    by_cases hj : j = k
    · -- no other queue has this key
      have hnone : queueAt q k = [] := queueAt_of_lt fun y hy ↦ hj ▸ hlt y hy
      rw [hj, queueAt_cons_self]
      split_ifs with hnil
      · rw [hrest, hnone, hnil]
        rfl
      · rw [queueAt_cons_self]
    · rw [queueAt_cons_of_ne hj]
      split_ifs with hnil
      · exact hrest
      · rw [queueAt_cons_of_ne hj, hrest]

/-! ## All elements -/

/-- The elements of all queues. -/
def elements (q : PrioMap α) : List α := q.flatMap Prod.snd

@[simp] theorem elements_cons (k : ℕ) (l : List α) (q : PrioMap α) :
    elements ((k, l) :: q) = l ++ elements q := rfl

theorem elements_prune (f : α → Bool) (q : PrioMap α) : elements (prune f q) = (elements q).filter f := by
  induction q with
  | nil => rfl
  | cons x q ih =>
    obtain ⟨k, l⟩ := x
    rw [prune_cons, elements_cons, List.filter_append]
    split_ifs with hnil
    · rw [hnil, ih, List.nil_append]
    · rw [elements_cons, ih]

theorem mem_elements_pushBack {k : ℕ} {a b : α} {q : PrioMap α} (h : a ∈ elements (pushBack k b q)) :
    a = b ∨ a ∈ elements q := by
  rw [pushBack] at h
  induction q with
  | nil => exact Or.inl (by simpa [modify, elements] using h)
  | cons x q ih =>
    obtain ⟨j, l⟩ := x
    rw [modify] at h
    split_ifs at h with hlt heq
    · simpa using h
    · simp only [elements_cons, List.mem_append, List.mem_singleton] at h ⊢
      tauto
    · simp only [elements_cons, List.mem_append] at h ⊢
      rcases h with h | h
      · exact Or.inr (Or.inl h)
      · exact (ih h).imp_right Or.inr

theorem mem_elements_popMax {a : α} {q q' : PrioMap α} (hpop : popMax q = some (a, q')) :
    a ∈ elements q ∧ ∀ b ∈ elements q', b ∈ elements q := by
  induction q with
  | nil => exact absurd hpop (by simp [popMax])
  | cons x q ih =>
    obtain ⟨j, l⟩ := x
    match l with
    | [] =>
      obtain ⟨hmem, hsub⟩ := ih hpop
      exact ⟨hmem, hsub⟩
    | [b] =>
      rw [popMax, Option.some_inj, Prod.mk.injEq] at hpop
      obtain ⟨rfl, rfl⟩ := hpop
      exact ⟨List.mem_cons_self, fun c hc ↦ List.mem_cons_of_mem b hc⟩
    | b :: c :: l =>
      rw [popMax, Option.some_inj, Prod.mk.injEq] at hpop
      obtain ⟨rfl, rfl⟩ := hpop
      exact ⟨List.mem_cons_self, fun d hd ↦ List.mem_cons_of_mem b hd⟩

theorem countP_elements_modify {f : List α → List α} {k : ℕ} {q : PrioMap α} (h : WF q) (p : α → Bool) :
    (elements (modify f k q)).countP p + (queueAt q k).countP p =
      (elements q).countP p + (f (queueAt q k)).countP p := by
  induction q with
  | nil => simp [modify, elements, queueAt, find?]
  | cons x q ih =>
    obtain ⟨j, l⟩ := x
    have hlt := (List.pairwise_cons.mp h.sorted).1
    rw [modify]
    split_ifs with hjk heq
    · have hnone : queueAt ((j, l) :: q) k = [] := by
        refine queueAt_of_lt fun y hy ↦ ?_
        rcases List.mem_cons.mp hy with rfl | hy
        · exact hjk
        · exact Nat.lt_trans (hlt y hy) hjk
      rw [hnone, elements_cons, List.countP_append, List.countP_nil]
      omega
    · rw [heq, queueAt_cons_self, elements_cons, elements_cons, List.countP_append, List.countP_append]
      omega
    · have hrest := ih h.tail
      rw [queueAt_cons_of_ne heq, elements_cons, elements_cons, List.countP_append, List.countP_append]
      omega

theorem countP_elements_eraseKey (k : ℕ) (q : PrioMap α) (p : α → Bool) :
    (elements (eraseKey k q)).countP p + (queueAt q k).countP p = (elements q).countP p := by
  induction q with
  | nil => simp [eraseKey, elements, queueAt, find?]
  | cons x q ih =>
    obtain ⟨j, l⟩ := x
    rw [eraseKey]
    split_ifs with heq
    · rw [heq, queueAt_cons_self, elements_cons, List.countP_append]
      omega
    · rw [queueAt_cons_of_ne heq, elements_cons, elements_cons, List.countP_append, List.countP_append]
      omega

theorem countP_elements_popMax {a : α} {q q' : PrioMap α} (hpop : popMax q = some (a, q'))
    (p : α → Bool) : (elements q).countP p = (elements q').countP p + [a].countP p := by
  induction q with
  | nil => exact absurd hpop (by simp [popMax])
  | cons x q ih =>
    obtain ⟨j, l⟩ := x
    match l with
    | [] => exact ih hpop
    | [b] =>
      rw [popMax, Option.some_inj, Prod.mk.injEq] at hpop
      obtain ⟨rfl, rfl⟩ := hpop
      rw [elements_cons, List.countP_append]
      omega
    | b :: c :: l =>
      rw [popMax, Option.some_inj, Prod.mk.injEq] at hpop
      obtain ⟨rfl, rfl⟩ := hpop
      rw [elements_cons, elements_cons, List.cons_append, ← List.singleton_append, List.countP_append]
      omega

end PrioMap
