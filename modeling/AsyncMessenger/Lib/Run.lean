import Mathlib.Data.List.Basic
import Mathlib.Tactic.Common

/-!
# Runs of a labelled step function

A system is a partial step function: `step s e = none` says that event `e` is not enabled in state
`s`. Nondeterminism lives in the events, so a run is a list of events and the state it reaches is a
function of that list.

An invariant is usually preserved only by the steps that respect some side condition `C`, which
sees the state *before* the step and the event. `Meets` says that every step of a run does, and
`invariant_of_meets` is the one induction over runs that the developments below need.
-/

namespace Run

variable {σ ε : Type*} (step : σ → ε → Option σ)

/-- The state reached by the events of a list, from left to right. -/
def exec : σ → List ε → Option σ
  | s, [] => some s
  | s, e :: es => (step s e).bind fun s' ↦ exec s' es

/-- Every step of the run meets `C`, a condition on the state before the step and the event. -/
def Meets (C : σ → ε → Prop) : σ → List ε → Prop
  | _, [] => True
  | s, e :: es => C s e ∧ ∀ s', step s e = some s' → Meets C s' es

/-- `Meets` for a condition that can be evaluated. -/
def check (C : σ → ε → Bool) : σ → List ε → Bool
  | _, [] => true
  | s, e :: es => C s e && (step s e).all fun s' ↦ check C s' es

variable {step}

@[simp] theorem exec_nil (s : σ) : exec step s [] = some s := rfl

@[simp] theorem exec_cons (s : σ) (e : ε) (es : List ε) :
    exec step s (e :: es) = (step s e).bind fun s' ↦ exec step s' es := rfl

theorem exec_append (s : σ) (es fs : List ε) :
    exec step s (es ++ fs) = (exec step s es).bind fun s' ↦ exec step s' fs := by
  induction es generalizing s with
  | nil => rfl
  | cons e es ih =>
    rw [List.cons_append, exec_cons, exec_cons, Option.bind_assoc]
    congr 1
    funext s'
    exact ih s'

/-- **The invariant rule.** What holds at the start and is kept by every step that meets `C` holds
wherever a run that meets `C` throughout ends. -/
theorem invariant_of_meets {C : σ → ε → Prop} {I : σ → Prop}
    (hstep : ∀ s e s', I s → C s e → step s e = some s' → I s') :
    ∀ {es : List ε} {s s' : σ}, I s → Meets step C s es → exec step s es = some s' → I s' := by
  intro es
  induction es with
  | nil =>
    intro s s' hs _ hrun
    rw [exec_nil, Option.some_inj] at hrun
    exact hrun ▸ hs
  | cons e es ih =>
    intro s s' hs hmeets hrun
    rw [exec_cons, Option.bind_eq_some_iff] at hrun
    obtain ⟨t, hst, hrest⟩ := hrun
    exact ih (hstep s e t hs hmeets.1 hst) (hmeets.2 t hst) hrest

/-- If every step that meets `C` succeeds and keeps `I`, so does a whole run. -/
theorem exists_of_meets {C : σ → ε → Prop} {I : σ → Prop}
    (hstep : ∀ s e, I s → C s e → ∃ s', step s e = some s' ∧ I s') :
    ∀ {es : List ε} {s : σ}, I s → Meets step C s es → ∃ s', exec step s es = some s' ∧ I s' := by
  intro es
  induction es with
  | nil => exact fun hs _ ↦ ⟨_, rfl, hs⟩
  | cons e es ih =>
    intro s hs hmeets
    obtain ⟨s', hs', hI⟩ := hstep s e hs hmeets.1
    obtain ⟨t, ht, hIt⟩ := ih hI (hmeets.2 s' hs')
    exact ⟨t, by rw [exec_cons, hs', Option.bind_some, ht], hIt⟩

/-- What follows from an invariant and a condition at every step of a run. -/
theorem Meets.of_invariant {C P : σ → ε → Prop} {I : σ → Prop}
    (hstep : ∀ s e s', I s → C s e → step s e = some s' → I s')
    (hP : ∀ s e, I s → C s e → P s e) :
    ∀ {es : List ε} {s : σ}, I s → Meets step C s es → Meets step P s es := by
  intro es
  induction es with
  | nil => exact fun _ _ ↦ trivial
  | cons e es ih =>
    intro s hs hmeets
    exact ⟨hP s e hs hmeets.1, fun s' hs' ↦ ih (hstep s e s' hs hmeets.1 hs') (hmeets.2 s' hs')⟩

/-- The invariant rule without a side condition. -/
theorem invariant {I : σ → Prop} (hstep : ∀ s e s', I s → step s e = some s' → I s')
    {es : List ε} {s s' : σ} (hs : I s) (hrun : exec step s es = some s') : I s' := by
  refine invariant_of_meets (C := fun _ _ ↦ True) (fun t e t' ht _ h ↦ hstep t e t' ht h) hs ?_ hrun
  clear hrun hs
  induction es generalizing s with
  | nil => trivial
  | cons e es ih => exact ⟨trivial, fun t _ ↦ ih⟩

/-- The invariant rule for what relates a state to the events that have led to it. -/
theorem invariant_past {I : List ε → σ → Prop}
    (hstep : ∀ past s e s', I past s → step s e = some s' → I (past ++ [e]) s') :
    ∀ {es past : List ε} {s s' : σ}, I past s → exec step s es = some s' → I (past ++ es) s' := by
  intro es
  induction es with
  | nil =>
    intro past s s' hs hrun
    rw [exec_nil, Option.some_inj] at hrun
    rw [List.append_nil]
    exact hrun ▸ hs
  | cons e es ih =>
    intro past s s' hs hrun
    rw [exec_cons, Option.bind_eq_some_iff] at hrun
    obtain ⟨t, hst, hrest⟩ := hrun
    rw [List.append_cons]
    exact ih (hstep past s e t hs hst) hrest

theorem Meets.cons {C : σ → ε → Prop} {s s' : σ} {e : ε} {es : List ε} (hC : C s e)
    (hstep : step s e = some s') (hrest : Meets step C s' es) : Meets step C s (e :: es) := by
  refine ⟨hC, fun t ht ↦ ?_⟩
  rw [hstep, Option.some_inj] at ht
  exact ht ▸ hrest

/-- A condition that the events meet in any state. -/
theorem Meets.of_forall {C : σ → ε → Prop} {es : List ε} (h : ∀ e ∈ es, ∀ s, C s e) :
    ∀ s, Meets step C s es := by
  induction es with
  | nil => exact fun _ ↦ trivial
  | cons e es ih =>
    have htail := ih fun f hf ↦ h f (List.mem_cons_of_mem e hf)
    exact fun s ↦ ⟨h e List.mem_cons_self s, fun t _ ↦ htail t⟩

theorem Meets.and {C P : σ → ε → Prop} {es : List ε} :
    ∀ {s : σ}, Meets step C s es → Meets step P s es → Meets step (fun s e ↦ C s e ∧ P s e) s es := by
  induction es with
  | nil => exact fun _ _ ↦ trivial
  | cons e es ih => exact fun hC hP ↦ ⟨⟨hC.1, hP.1⟩, fun s' hs' ↦ ih (hC.2 s' hs') (hP.2 s' hs')⟩

/-- A run meets a condition if the evaluation says so. -/
theorem Meets.of_check {C : σ → ε → Prop} {test : σ → ε → Bool}
    (htest : ∀ s e, test s e = true → C s e) {es : List ε} :
    ∀ {s : σ}, check step test s es = true → Meets step C s es := by
  induction es with
  | nil => exact fun _ ↦ trivial
  | cons e es ih =>
    intro s h
    rw [check, Bool.and_eq_true] at h
    refine ⟨htest s e h.1, fun s' hs' ↦ ih ?_⟩
    rw [hs', Option.all_some] at h
    exact h.2

/-- Two runs that meet a condition, one after the other. -/
theorem Meets.append {C : σ → ε → Prop} {s t : σ} {es fs : List ε} (hrun : exec step s es = some t)
    (hfst : Meets step C s es) (hsnd : Meets step C t fs) : Meets step C s (es ++ fs) := by
  induction es generalizing s with
  | nil =>
    rw [exec_nil, Option.some_inj] at hrun
    exact hrun ▸ hsnd
  | cons e es ih =>
    refine ⟨hfst.1, fun s' hs' ↦ ih ?_ (hfst.2 s' hs')⟩
    rw [exec_cons, hs', Option.bind_some] at hrun
    exact hrun

/-- A condition met throughout a run is met by what follows a prefix of it. -/
theorem Meets.of_exec {C : σ → ε → Prop} {s t : σ} {es fs : List ε}
    (h : Meets step C s (es ++ fs)) (hrun : exec step s es = some t) : Meets step C t fs := by
  induction es generalizing s with
  | nil =>
    rw [exec_nil, Option.some_inj] at hrun
    exact hrun ▸ h
  | cons e es ih =>
    rw [exec_cons, Option.bind_eq_some_iff] at hrun
    obtain ⟨s', hs', hrest⟩ := hrun
    exact ih (h.2 s' hs') hrest

/-- A condition met throughout a run is met throughout each of its prefixes. -/
theorem Meets.of_append {C : σ → ε → Prop} {s : σ} {es fs : List ε}
    (h : Meets step C s (es ++ fs)) : Meets step C s es := by
  induction es generalizing s with
  | nil => trivial
  | cons e es ih => exact ⟨h.1, fun t ht ↦ ih (h.2 t ht)⟩

end Run
