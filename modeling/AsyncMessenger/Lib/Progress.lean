import AsyncMessenger.Lib.Run
import Mathlib.Order.WellFounded

/-!
# Progress

Some of the events of a system are moves of a few agents, and the rest is what others do to them.
Left to themselves, the agents come to a goal if, wherever they have not reached it, one of them has
a move that makes a measure smaller.

The rule says that there is such a run. It does not say that the agents take it: that needs a
scheduler, or that every move makes the measure smaller. What holds on the way is a parameter, since
a state that is not reached need not have such a move.
-/

namespace Run

variable {σ ε : Type*} {step : σ → ε → Option σ}

/-- **The progress rule.** `I` is what holds on the way, `G` is the goal, and `A` says which events
are moves. -/
theorem exists_of_measure {α : Type*} [Preorder α] [WellFoundedLT α] {I G : σ → Prop} {A : ε → Prop}
    (μ : σ → α)
    (hstep : ∀ s, I s → ¬ G s → ∃ e s', A e ∧ step s e = some s' ∧ I s' ∧ μ s' < μ s) {s : σ} (hs : I s) :
    ∃ es s', (∀ e ∈ es, A e) ∧ exec step s es = some s' ∧ I s' ∧ G s' := by
  induction h : μ s using WellFoundedLT.induction generalizing s with
  | ind a ih =>
    by_cases hG : G s
    · exact ⟨[], s, fun e he ↦ absurd he List.not_mem_nil, rfl, hs, hG⟩
    · obtain ⟨e, t, hA, ht, hI, hlt⟩ := hstep s hs hG
      obtain ⟨es, s', hall, hrun, hI', hG'⟩ := ih (μ t) (h ▸ hlt) hI rfl
      refine ⟨e :: es, s', fun f hf ↦ ?_, by rw [exec_cons, ht, Option.bind_some, hrun], hI', hG'⟩
      rcases List.mem_cons.mp hf with rfl | hf
      · exact hA
      · exact hall f hf

end Run
