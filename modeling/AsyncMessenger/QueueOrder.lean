import Mathlib.Data.List.Induction
import AsyncMessenger.Lib.Arrivals
import AsyncMessenger.DispatchQueue

/-!
# The order of a `FIFOQueue`

The order is spread over a map of lists and a plain list. Here the queue is compared with the list of its
entries in the order in which they came: every call answers as that list does, whatever was called before.

`remove_by_class` goes through the lists from the back and puts what it removes in front of its output, the
normal entries first and then the priorities upwards; in the output the entries stand as `dequeue` would have
returned them.

## The comparison

`Holds` relates a queue to a list of arrivals, each with its priority, or none for the normal
entries: the queue has the entries of each priority in the order of their arrival. On the list the
answers are simple. The next entry is the first of the highest priority there is, and to remove a
class is to leave out its entries. Every call keeps the relation and gives the same answer on both
sides.

What `length` returns is a sum of 32 bits, and the source asserts that there are as many entries as
it says; so `Countable` asks for fewer than `2 ^ 32` of them, and that is all that is asked for.
-/

namespace AsyncMessenger

namespace FifoQueue

variable {α : Type}

/-! ## The calls -/

/-- `SubQueue::remove_by_class`: what is left, and the output. -/
def subRemoveByClass (k : ℕ) (q : List (ℕ × α)) (out : List α) : List (ℕ × α) × List α :=
  (q.filter fun e ↦ e.1 ≠ k, q.foldr (fun e out ↦ if e.1 = k then e.2 :: out else out) out)

/-- The loop of `remove_by_class` over `high_queue`, which begins with the lowest priority. -/
def removeLoop (k : ℕ) : PrioMap (ℕ × α) → List α → PrioMap (ℕ × α) × List α
  | [], out => ([], out)
  | x :: high, out =>
    let (high, out) := removeLoop k high out
    let (q, out) := subRemoveByClass k x.2 out
    (if q = [] then high else (x.1, q) :: high, out)

/-- `remove_by_class`, with its output. -/
def removeByClassOut (q : FifoQueue α) (k : ℕ) (out : List α) : FifoQueue α × List α :=
  let (low, out) := subRemoveByClass k q.low out
  let (high, out) := removeLoop k q.high out
  ({ high, low }, out)

/-- `empty`. -/
def empty (q : FifoQueue α) : Bool := q.low.isEmpty && q.high.isEmpty

/-- The loop of `length`; `none` is its failed assertion. -/
def lengthLoop : PrioMap (ℕ × α) → Option ℕ
  | [] => some 0
  | x :: high => (lengthLoop high).bind fun total ↦
    if x.2.length % 2 ^ 32 = 0 then none else some ((total + x.2.length) % 2 ^ 32)

/-- `length`. -/
def length (q : FifoQueue α) : Option ℕ := (lengthLoop q.high).map fun total ↦ (total + q.low.length) % 2 ^ 32

/-- `dequeue` with its assertions: the queue is not empty, and neither is the one with the highest priority. -/
def dequeueAssert (q : FifoQueue α) : Option (α × FifoQueue α) :=
  if q.empty then none
  else
    match q.high with
    | (_, []) :: _ => none
    | (p, e :: sub) :: high => some (e.2, { q with high := if sub = [] then high else (p, sub) :: high })
    | [] => match q.low with
      | [] => none
      | e :: low => some (e.2, { q with low })

/-- The calls; `enqueue` gets a priority and a cost, too, but does not look at them. -/
inductive Call (α : Type)
  | enqueueStrict (cl priority : ℕ) (item : α)
  | enqueue (cl priority cost : ℕ) (item : α)
  | dequeue
  | removeByClass (k : ℕ)

/-- One call, and what it hands out; the output of `remove_by_class` is empty before. -/
def call (q : FifoQueue α) : Call α → Option (FifoQueue α × List α)
  | .enqueueStrict cl priority item => some (q.enqueueStrict cl priority item, [])
  | .enqueue cl _ _ item => some (q.enqueue cl item, [])
  | .dequeue => q.dequeueAssert.map fun x ↦ (x.2, [x.1])
  | .removeByClass k => some (q.removeByClassOut k [])

/-! ## `remove_by_class`

The loop over one list from its back is a filter, and what it puts in front of the output is the
rest, in the order in which it stood. -/

theorem foldr_class (k : ℕ) (q : List (ℕ × α)) (out : List α) :
    q.foldr (fun e out ↦ if e.1 = k then e.2 :: out else out) out =
      (q.filter fun e ↦ e.1 = k).map Prod.snd ++ out := by
  induction q with
  | nil => rfl
  | cons e q ih =>
    rw [List.foldr_cons, ih]
    by_cases he : e.1 = k
    · rw [if_pos he, List.filter_cons_of_pos (by simpa using he), List.map_cons, List.cons_append]
    · rw [if_neg he, List.filter_cons_of_neg (by simpa using he)]

theorem removeLoop_eq (k : ℕ) (high : PrioMap (ℕ × α)) (out : List α) :
    removeLoop k high out = (high.prune fun e ↦ e.1 ≠ k,
      (high.elements.filter fun e ↦ e.1 = k).map Prod.snd ++ out) := by
  induction high with
  | nil => rfl
  | cons x high ih =>
    obtain ⟨p, sub⟩ := x
    rw [removeLoop, ih, PrioMap.prune_cons, PrioMap.elements_cons, List.filter_append, List.map_append,
      List.append_assoc, ← foldr_class k sub]
    rfl

/-- The output is what `dequeue` would have returned, of this class. -/
theorem removeByClassOut_eq (q : FifoQueue α) (k : ℕ) (out : List α) :
    q.removeByClassOut k out = (q.removeByClass k, (q.removed k).map Prod.snd ++ out) := by
  have hout : (removeLoop k q.high (subRemoveByClass k q.low out).2).2 =
      (q.removed k).map Prod.snd ++ out := by
    rw [removeLoop_eq, removed, entries, List.filter_append, List.map_append, List.append_assoc,
      ← foldr_class k q.low]
    rfl
  have hhigh : (removeLoop k q.high (subRemoveByClass k q.low out).2).1 = (q.removeByClass k).high := by
    rw [removeLoop_eq]
    rfl
  rw [removeByClassOut, ← hout]
  exact congrArg (fun high ↦ (({ high, low := _ } : FifoQueue α), _)) hhigh

theorem entries_removeByClass (q : FifoQueue α) (k : ℕ) :
    (q.removeByClass k).entries = q.entries.filter fun e ↦ e.1 ≠ k := by
  rw [entries, entries, List.filter_append, ← PrioMap.elements_prune]
  rfl

/-! ## The arrivals

The abstract queue is a list of arrivals, as the library on priorities has it. -/

/-- The answers of a queue that is kept as the list of its arrivals, each with its class. -/
def answer (l : List (Arrival (ℕ × α))) : Call α → Option (List (Arrival (ℕ × α)) × List α)
  | .enqueueStrict cl priority item => some (l ++ [⟨some priority, (cl, item)⟩], [])
  | .enqueue cl _ _ item => some (l ++ [⟨none, (cl, item)⟩], [])
  | .dequeue => (Arrivals.serve l).map fun x ↦ (x.2, [x.1.entry.2])
  | .removeByClass k => some (l.filter fun a ↦ a.entry.1 ≠ k,
      ((Arrivals.order l).filter fun a ↦ a.entry.1 = k).map fun a ↦ a.entry.2)

/-- The queue holds these arrivals. -/
structure Holds (q : FifoQueue α) (l : List (Arrival (ℕ × α))) : Prop where
  wf : q.high.WF
  high : ∀ p, q.high.queueAt p = Arrivals.ofKind l (some p)
  low : q.low = Arrivals.ofKind l none

variable {q q' : FifoQueue α} {l l' : List (Arrival (ℕ × α))}

theorem holds_nil : Holds ({} : FifoQueue α) [] := ⟨.nil, fun _ ↦ rfl, rfl⟩

theorem ofKind_append (l : List (Arrival (ℕ × α))) (a : Arrival (ℕ × α)) (o : Option ℕ) :
    Arrivals.ofKind (l ++ [a]) o = Arrivals.ofKind l o ++ if a.priority = o then [a.entry] else [] := by
  rw [Arrivals.ofKind, List.filter_append, List.map_append, Arrivals.ofKind]
  split_ifs with ha
  · rw [List.filter_cons_of_pos (by simpa using ha)]
    rfl
  · rw [List.filter_cons_of_neg (by simpa using ha)]
    rfl

theorem ofKind_filter (l : List (Arrival (ℕ × α))) (f : ℕ × α → Bool) (o : Option ℕ) :
    Arrivals.ofKind (l.filter fun a ↦ f a.entry) o = (Arrivals.ofKind l o).filter f := by
  rw [Arrivals.ofKind, Arrivals.ofKind, List.filter_map, List.filter_filter, List.filter_filter]
  simp only [Function.comp_apply, Bool.and_comm]

theorem Holds.enqueueStrict (h : Holds q l) (cl priority : ℕ) (item : α) :
    Holds (q.enqueueStrict cl priority item) (l ++ [⟨some priority, (cl, item)⟩]) := by
  refine ⟨h.wf.modify (fun l ↦ by simp), fun p ↦ ?_, ?_⟩
  · rw [ofKind_append, ← h.high]
    by_cases hp : priority = p
    · rw [if_pos (congrArg some hp), ← hp]
      exact PrioMap.queueAt_modify_self h.wf
    · rw [if_neg fun heq ↦ hp (Option.some_inj.mp heq), List.append_nil]
      exact PrioMap.queueAt_modify_of_ne hp
  · rw [ofKind_append, if_neg (by simp), List.append_nil]
    exact h.low

theorem Holds.enqueue (h : Holds q l) (cl : ℕ) (item : α) :
    Holds (q.enqueue cl item) (l ++ [⟨none, (cl, item)⟩]) := by
  refine ⟨h.wf, fun p ↦ ?_, ?_⟩
  · rw [ofKind_append, if_neg (by simp), List.append_nil]
    exact h.high p
  · rw [ofKind_append, if_pos rfl, ← h.low]
    rfl

theorem Holds.removeByClass (h : Holds q l) (k : ℕ) :
    Holds (q.removeByClass k) (l.filter fun a ↦ a.entry.1 ≠ k) := by
  refine ⟨h.wf.prune, fun p ↦ ?_, ?_⟩
  · rw [ofKind_filter l fun e ↦ e.1 ≠ k, ← h.high]
    exact PrioMap.queueAt_prune h.wf p
  · rw [ofKind_filter l fun e ↦ e.1 ≠ k, ← h.low]
    rfl

/-- The greatest key is the highest priority. -/
theorem Holds.top (h : Holds q l) : Arrivals.top l = q.high.head?.map Prod.fst := by
  cases hhigh : q.high with
  | nil =>
    refine Arrivals.top_eq_none fun p ↦ ?_
    rw [← h.high, hhigh]
    rfl
  | cons x high =>
    obtain ⟨p, sub⟩ := x
    have hwf := hhigh ▸ h.wf
    obtain ⟨hlt, -⟩ := List.pairwise_cons.mp hwf.sorted
    refine Arrivals.top_eq_some ?_ fun p' hp' ↦ ?_
    · rw [← h.high, hhigh, PrioMap.queueAt_cons_self]
      exact hwf.nonempty _ List.mem_cons_self
    · by_contra hgt
      apply hp'
      rw [← h.high, hhigh]
      refine PrioMap.queueAt_of_lt fun y hy ↦ ?_
      rcases List.mem_cons.mp hy with rfl | hy
      · exact Nat.lt_of_not_le hgt
      · exact Nat.lt_trans (hlt y hy) (Nat.lt_of_not_le hgt)

/-- What is left of the map once the head of its first queue was taken. -/
def afterPop (p : ℕ) (sub : List (ℕ × α)) (high : PrioMap (ℕ × α)) : PrioMap (ℕ × α) :=
  if sub = [] then high else (p, sub) :: high

theorem afterPop_spec {p : ℕ} {e : ℕ × α} {sub : List (ℕ × α)} {high : PrioMap (ℕ × α)}
    (h : PrioMap.WF ((p, e :: sub) :: high)) :
    (afterPop p sub high).WF ∧ (afterPop p sub high).queueAt p = sub ∧
      (∀ j, j ≠ p → (afterPop p sub high).queueAt j = PrioMap.queueAt ((p, e :: sub) :: high) j) ∧
      PrioMap.elements ((p, e :: sub) :: high) = e :: (afterPop p sub high).elements := by
  obtain ⟨hlt, -⟩ := List.pairwise_cons.mp h.sorted
  rw [afterPop, PrioMap.elements_cons]
  by_cases hsub : sub = []
  · rw [if_pos hsub, hsub]
    exact ⟨h.tail, PrioMap.queueAt_of_lt hlt, fun j hj ↦ (PrioMap.queueAt_cons_of_ne hj.symm _ _).symm, rfl⟩
  · rw [if_neg hsub, PrioMap.elements_cons]
    refine ⟨⟨List.pairwise_cons.mpr ⟨hlt, h.tail.sorted⟩, fun y hy ↦ ?_⟩, PrioMap.queueAt_cons_self _ _ _,
      fun j hj ↦ ?_, rfl⟩
    · rcases List.mem_cons.mp hy with rfl | hy
      · exact hsub
      · exact h.tail.nonempty y hy
    · rw [PrioMap.queueAt_cons_of_ne hj.symm, PrioMap.queueAt_cons_of_ne hj.symm]

/-- `dequeue` returns the next of the arrivals. -/
theorem Holds.dequeue (h : Holds q l) (hl : l ≠ []) :
    ∃ a l' q', Arrivals.serve l = some (a, l') ∧ q.dequeueAssert = some (a.entry.2, q') ∧
      q.entries = a.entry :: q'.entries ∧ Holds q' l' := by
  have htop := h.top
  cases hhigh : q.high with
  | nil =>
    rw [hhigh] at htop
    -- nothing is strict: the served entry is the first of the others
    have hlow : q.low = Arrivals.ofKind l (Arrivals.top l) := h.low.trans (htop ▸ rfl)
    cases hfirst : q.low with
    | nil => exact absurd (Arrivals.eq_nil_of_ofKind_top (hlow ▸ hfirst)) hl
    | cons e low =>
      obtain ⟨a, l', hserve, rfl, hsame, hother⟩ := Arrivals.serve_eq (hlow ▸ hfirst)
      refine ⟨a, l', { q with low }, hserve, ?_, ?_, ⟨h.wf, fun p ↦ ?_, ?_⟩⟩
      · rw [dequeueAssert, empty, hfirst, hhigh]
        rfl
      · rw [entries, entries, hhigh, hfirst]
        rfl
      · rw [hother _ (by rw [htop]; rintro ⟨⟩)]
        exact h.high p
      · rw [← hsame, htop]
        rfl
  | cons x high =>
    obtain ⟨p, sub⟩ := x
    have hwf := hhigh ▸ h.wf
    rw [hhigh] at htop
    -- the highest priority that waits is at the front of `high`
    have hqueue : sub = Arrivals.ofKind l (Arrivals.top l) := by
      rw [htop, ← PrioMap.queueAt_cons_self p sub high, ← hhigh]
      exact h.high p
    cases hfirst : sub with
    | nil => exact absurd hfirst (hwf.nonempty _ List.mem_cons_self)
    | cons e sub =>
      subst hfirst
      obtain ⟨a, l', hserve, rfl, hsame, hother⟩ := Arrivals.serve_eq hqueue.symm
      obtain ⟨hwf', hself, hne, helements⟩ := afterPop_spec hwf
      refine ⟨a, l', { q with high := afterPop p sub high }, hserve, ?_, ?_, ⟨hwf', fun j ↦ ?_, ?_⟩⟩
      · rw [dequeueAssert, empty, hhigh, List.isEmpty_cons, Bool.and_false, if_neg (by decide)]
        rfl
      · rw [entries, entries, hhigh, helements]
        rfl
      · by_cases hj : j = p
        · rw [hj, hself, ← hsame, htop]
          rfl
        · rw [hne j hj, hother _ (by rw [htop]; exact fun heq ↦ hj (Option.some_inj.mp heq)), ← h.high, hhigh]
      · rw [hother _ (by rw [htop]; rintro ⟨⟩)]
        exact h.low

/-- Nothing waits if and only if both containers are empty. -/
theorem Holds.nil_iff (h : Holds q l) : l = [] ↔ q.low = [] ∧ q.high = [] := by
  constructor
  · rintro rfl
    refine ⟨h.low, ?_⟩
    have htop := h.top
    cases hhigh : q.high with
    | nil => rfl
    | cons x high =>
      rw [hhigh] at htop
      exact absurd htop (by rintro ⟨⟩)
  · rintro ⟨hlow, hhigh⟩
    apply Arrivals.eq_nil_of_ofKind_top
    have htop := h.top
    rw [hhigh] at htop
    rw [htop, ← hlow, h.low]
    rfl

theorem Holds.empty_eq (h : Holds q l) : q.empty = true ↔ l = [] := by
  rw [empty, Bool.and_eq_true, List.isEmpty_iff, List.isEmpty_iff, h.nil_iff]

/-- The entries stand in the order in which `dequeue` returns them. -/
theorem Holds.entries_eq (h : Holds q l) : q.entries = (Arrivals.order l).map Arrival.entry := by
  obtain ⟨n, hn⟩ : ∃ n, l.length = n := ⟨_, rfl⟩
  induction n generalizing q l with
  | zero =>
    have hnil := List.eq_nil_of_length_eq_zero hn
    obtain ⟨hlow, hhigh⟩ := h.nil_iff.mp hnil
    rw [entries, hlow, hhigh, hnil]
    rfl
  | succ n ih =>
    obtain ⟨a, l', q', hserve, -, hentries, hq'⟩ := h.dequeue (by rintro rfl; simp at hn)
    have hlen := (Arrivals.perm_of_serve hserve).length_eq
    rw [List.length_cons] at hlen
    rw [hentries, Arrivals.order_cons hserve, List.map_cons, ih hq' (by omega)]

theorem Holds.perm (h : Holds q l) : q.entries.Perm (l.map Arrival.entry) := by
  rw [h.entries_eq]
  exact (Arrivals.order_perm l).map _

theorem Holds.perm_append {a : Arrival (ℕ × α)} (h : Holds q l) (h' : Holds q' (l ++ [a])) :
    q'.entries.Perm (q.entries ++ [a.entry]) := by
  have hperm := h'.perm
  rw [List.map_append] at hperm
  exact hperm.trans (h.perm.symm.append_right _)

/-! ## `length` -/

/-- The assertion in `length` fails on an empty queue, and on `2 ^ 32` entries: `SubQueue::length` cuts the
size down to an `unsigned`. -/
theorem lengthLoop_eq (high : PrioMap (ℕ × α)) :
    lengthLoop high = if ∀ x ∈ high, x.2.length % 2 ^ 32 ≠ 0 then some (high.elements.length % 2 ^ 32)
      else none := by
  induction high with
  | nil => rfl
  | cons x high ih =>
    obtain ⟨p, sub⟩ := x
    rw [lengthLoop, ih, PrioMap.elements_cons, List.length_append]
    simp only [List.forall_mem_cons]
    by_cases hrest : ∀ x ∈ high, x.2.length % 2 ^ 32 ≠ 0
    · rw [if_pos hrest, Option.bind_some]
      by_cases hsub : sub.length % 2 ^ 32 = 0
      · rw [if_pos hsub, if_neg fun h ↦ h.1 hsub]
      · rw [if_neg hsub, if_pos ⟨hsub, hrest⟩, Nat.mod_add_mod, Nat.add_comm]
    · rw [if_neg hrest, if_neg fun h ↦ hrest h.2, Option.bind_none]

/-- No priority has a number of entries that `unsigned` cannot tell from none. -/
def Countable (l : List (Arrival (ℕ × α))) : Prop :=
  ∀ p, (Arrivals.ofKind l (some p)).length % 2 ^ 32 = 0 → Arrivals.ofKind l (some p) = []

theorem Holds.countable_iff (h : Holds q l) : Countable l ↔ ∀ x ∈ q.high, x.2.length % 2 ^ 32 ≠ 0 := by
  constructor
  · intro hl x hx hzero
    have hqueue := h.high x.1
    rw [h.wf.queueAt_of_mem hx] at hqueue
    exact h.wf.nonempty x hx (hqueue.trans (hl x.1 (hqueue ▸ hzero)))
  · intro hq p hzero
    by_contra hne
    rw [← h.high] at hzero hne
    exact hq _ (PrioMap.mem_of_queueAt_ne_nil hne) hzero

theorem Holds.length_eq (h : Holds q l) :
    q.length = if ∀ x ∈ q.high, x.2.length % 2 ^ 32 ≠ 0 then some (l.length % 2 ^ 32) else none := by
  have hlen : l.length = q.high.elements.length + q.low.length := by
    rw [← (Arrivals.order_perm l).length_eq, ← List.length_map, ← h.entries_eq, entries, List.length_append]
  rw [length, lengthLoop_eq, hlen]
  split_ifs with hall
  · rw [Option.map_some, Nat.mod_add_mod]
  · rfl

/-! ## Runs

Two more facts about runs: nothing comes out that was not put in, and what comes out has not been in
the queue any more since. -/

/-- The items that a call brings. -/
def Call.brought : Call α → List α
  | .enqueueStrict _ _ item => [item]
  | .enqueue _ _ _ item => [item]
  | .dequeue => []
  | .removeByClass _ => []

/-- The items, in the order in which they came. -/
def items (l : List (Arrival (ℕ × α))) : List α := l.map fun a ↦ a.entry.2

/-- Every call answers like the list of arrivals. -/
theorem Holds.call (h : Holds q l) (c : Call α) :
    (c = .dequeue ∧ l = [] ∧ q.call c = none ∧ answer l c = none) ∨
      ∃ q' l' out, q.call c = some (q', out) ∧ answer l c = some (l', out) ∧ Holds q' l' := by
  cases c with
  | enqueueStrict cl priority item => exact .inr ⟨_, _, _, rfl, rfl, h.enqueueStrict cl priority item⟩
  | enqueue cl priority cost item => exact .inr ⟨_, _, _, rfl, rfl, h.enqueue cl item⟩
  | dequeue =>
    by_cases hl : l = []
    · refine .inl ⟨rfl, hl, ?_, ?_⟩
      · rw [FifoQueue.call, dequeueAssert, if_pos (h.empty_eq.mpr hl)]
        rfl
      · rw [hl]
        rfl
    · obtain ⟨a, l', q', hserve, hdequeue, -, hq'⟩ := h.dequeue hl
      refine .inr ⟨q', l', [a.entry.2], ?_, ?_, hq'⟩
      · rw [FifoQueue.call, hdequeue]
        rfl
      · rw [answer, hserve]
        rfl
  | removeByClass k =>
    refine .inr ⟨_, _, (q.removed k).map Prod.snd, ?_, ?_, h.removeByClass k⟩
    · rw [FifoQueue.call, removeByClassOut_eq, List.append_nil]
    · rw [answer, removed, h.entries_eq, List.filter_map, List.map_map]
      rfl

/-- Nothing is lost, and nothing comes twice. -/
theorem perm_of_answer {c : Call α} {out : List α} (h : answer l c = some (l', out)) :
    (out ++ items l').Perm (items l ++ c.brought) := by
  cases c with
  | enqueueStrict cl priority item =>
    obtain ⟨rfl, rfl⟩ := Prod.mk.inj (Option.some.inj h)
    rw [List.nil_append, items, List.map_append]
    rfl
  | enqueue cl priority cost item =>
    obtain ⟨rfl, rfl⟩ := Prod.mk.inj (Option.some.inj h)
    rw [List.nil_append, items, List.map_append]
    rfl
  | dequeue =>
    obtain ⟨⟨a, rest⟩, hserve, hx⟩ := Option.map_eq_some_iff.mp h
    obtain ⟨rfl, rfl⟩ := Prod.mk.inj hx
    rw [Call.brought, List.append_nil]
    exact ((Arrivals.perm_of_serve hserve).map fun a ↦ a.entry.2).symm
  | removeByClass k =>
    obtain ⟨rfl, rfl⟩ := Prod.mk.inj (Option.some.inj h)
    rw [Call.brought, List.append_nil, items, ← List.map_append]
    apply List.Perm.map _
    have hnot : (fun a : Arrival (ℕ × α) ↦ decide (a.entry.1 ≠ k)) = fun a ↦ !decide (a.entry.1 = k) := by
      funext a
      exact decide_not
    rw [hnot]
    exact (((Arrivals.order_perm l).filter _).append_right _).trans (List.filter_append_perm _ l)

/-- Calls one after the other; what they hand out is recorded. -/
def recorded {σ : Type} (call : σ → Call α → Option (σ × List α)) (s : σ × List (List α)) (c : Call α) :
    Option (σ × List (List α)) :=
  (call s.1 c).map fun x ↦ (x.1, s.2 ++ [x.2])

/-- After these calls the queue has answered like the list of arrivals, and everything that came was handed out
or still waits, once. No sub-queue is empty, `length` and `empty` do not fail and are right, and no assertion of
the next call fails except for `dequeue` without entries. Removing a class leaves the others in their order. -/
structure Agrees (cs : List (Call α)) (q : FifoQueue α × List (List α))
    (l : List (Arrival (ℕ × α)) × List (List α)) : Prop where
  answers : q.2 = l.2
  nonempty : ∀ x ∈ q.1.high, x.2 ≠ []
  length : q.1.length = some (l.1.length % 2 ^ 32)
  empty : q.1.empty = true ↔ l.1 = []
  aborts : ∀ c, q.1.call c = none ↔ c = .dequeue ∧ l.1 = []
  conserved : (l.2.flatten ++ items l.1).Perm (cs.flatMap Call.brought)
  others : ∀ k, (Arrivals.order (l.1.filter fun a ↦ a.entry.1 ≠ k)).map Arrival.entry =
    ((Arrivals.order l.1).map Arrival.entry).filter fun e ↦ e.1 ≠ k

/-- Both are run at once. -/
theorem runs_together (cs : List (Call α)) :
    (Run.exec (recorded FifoQueue.call) ({}, []) cs = none ∧ Run.exec (recorded answer) ([], []) cs = none) ∨
      ∃ q l out, Run.exec (recorded FifoQueue.call) ({}, []) cs = some (q, out) ∧
        Run.exec (recorded answer) ([], []) cs = some (l, out) ∧ Holds q l ∧
        (out.flatten ++ items l).Perm (cs.flatMap Call.brought) := by
  induction cs using List.reverseRecOn with
  | nil => exact .inr ⟨{}, [], [], rfl, rfl, holds_nil, .refl _⟩
  | append_singleton cs c ih =>
    rw [Run.exec_append, Run.exec_append]
    obtain ⟨hq, hl⟩ | ⟨q, l, out, hq, hl, h, hperm⟩ := ih
    · rw [hq, hl]
      exact .inl ⟨rfl, rfl⟩
    · rw [hq, hl, Option.bind_some, Option.bind_some, Run.exec_cons, Run.exec_cons]
      obtain ⟨-, -, hcall, hanswer⟩ | ⟨q', l', out', hcall, hanswer, h'⟩ := h.call c
      · left
        rw [recorded, recorded, hcall, hanswer]
        exact ⟨rfl, rfl⟩
      · right
        refine ⟨q', l', out ++ [out'], ?_, ?_, h', ?_⟩
        · rw [recorded, hcall]
          rfl
        · rw [recorded, hanswer]
          rfl
        · rw [List.flatten_append, List.flatten_singleton, List.flatMap_append, List.flatMap_singleton,
            List.append_assoc]
          refine ((perm_of_answer hanswer).append_left _).trans ?_
          rw [← List.append_assoc]
          exact hperm.append_right _

/-- The queue agrees with the list of its arrivals after any calls, if and only if no priority has a multiple of
`2 ^ 32` entries then. -/
theorem agrees_iff (cs : List (Call α)) :
    (Run.exec (recorded FifoQueue.call) ({}, []) cs = none ∧ Run.exec (recorded answer) ([], []) cs = none) ∨
      ∃ q l, Run.exec (recorded FifoQueue.call) ({}, []) cs = some q ∧
        Run.exec (recorded answer) ([], []) cs = some l ∧ (Agrees cs q l ↔ Countable l.1) := by
  obtain hnone | ⟨q, l, out, hq, hl, h, hperm⟩ := runs_together cs
  · exact .inl hnone
  · refine .inr ⟨(q, out), (l, out), hq, hl, ?_⟩
    have hlength := h.length_eq
    constructor
    · intro hagrees
      rw [h.countable_iff]
      by_contra hnot
      rw [if_neg hnot] at hlength
      exact absurd (hlength.symm.trans hagrees.length) (by simp)
    · intro hcount
      rw [if_pos (h.countable_iff.mp hcount)] at hlength
      refine ⟨rfl, h.wf.nonempty, hlength, h.empty_eq, fun c ↦ ?_, hperm, fun k ↦ ?_⟩
      · obtain ⟨hc, hnil, hcall, -⟩ | ⟨q', l', out', hcall, hanswer, -⟩ := h.call c
        · exact ⟨fun _ ↦ ⟨hc, hnil⟩, fun _ ↦ hcall⟩
        · constructor
          · intro hnone
            exact absurd (hnone.symm.trans hcall) (by simp)
          · rintro ⟨rfl, hnil⟩
            dsimp only at hnil
            rw [hnil] at hanswer
            exact absurd hanswer (by rintro ⟨⟩)
      · rw [← (h.removeByClass k).entries_eq, entries_removeByClass, h.entries_eq]

/-- The same strict entry, again and again. -/
theorem exec_replicate (n : ℕ) :
    Run.exec (recorded answer) ([], []) (List.replicate n (Call.enqueueStrict 0 64 ())) =
      some (List.replicate n ⟨some 64, (0, ())⟩, List.replicate n []) := by
  induction n with
  | zero => rfl
  | succ n ih =>
    rw [List.replicate_succ', Run.exec_append, ih, Option.bind_some, List.replicate_succ', List.replicate_succ']
    rfl

/-- The assertion of `length` fails when an `unsigned` takes the entries of one priority for none. -/
theorem not_agrees {n : ℕ} (hn : n % 2 ^ 32 = 0) (hpos : 0 < n) :
    ∃ q l, Run.exec (recorded FifoQueue.call) ({}, []) (List.replicate n (Call.enqueueStrict 0 64 ())) = some q ∧
      Run.exec (recorded answer) ([], []) (List.replicate n (Call.enqueueStrict 0 64 ())) = some l ∧
      ¬Agrees (List.replicate n (Call.enqueueStrict 0 64 ())) q l := by
  have hrun := exec_replicate n
  obtain ⟨-, hnone⟩ | ⟨q, l, out, hq, hl, h, -⟩ := runs_together (List.replicate n (Call.enqueueStrict 0 64 ()))
  · exact absurd (hrun.symm.trans hnone) (by simp)
  · have hkind : (Arrivals.ofKind l (some 64)).length = n := by
      obtain ⟨rfl, -⟩ := Prod.mk.inj (Option.some.inj (hl.symm.trans hrun))
      rw [Arrivals.ofKind, List.length_map, List.filter_replicate, if_pos (decide_eq_true rfl), List.length_replicate]
    have hcount : ¬Countable l := by
      intro hcount
      rw [hcount 64 (by rw [hkind, hn])] at hkind
      exact hpos.ne hkind
    have hlength := h.length_eq
    rw [if_neg fun hq ↦ hcount (h.countable_iff.mpr hq)] at hlength
    exact ⟨_, _, hq, hl, fun hagrees ↦ absurd (hlength.symm.trans hagrees.length) (by simp)⟩

/-- After `2 ^ 32` strict entries of one priority the assertion of `length` fails. -/
theorem length_asserts : ¬∀ (cs : List (Call Unit)) (q : FifoQueue Unit × List (List Unit))
    (l : List (Arrival (ℕ × Unit)) × List (List Unit)),
    Run.exec (recorded FifoQueue.call) ({}, []) cs = some q → Run.exec (recorded answer) ([], []) cs = some l →
      Agrees cs q l := by
  intro hall
  obtain ⟨q, l, hq, hl, hnot⟩ := not_agrees (Nat.mod_self (2 ^ 32)) (Nat.two_pow_pos 32)
  exact hnot (hall _ q l hq hl)

end FifoQueue

end AsyncMessenger
