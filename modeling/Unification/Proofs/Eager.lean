import Unification.Proofs.Composition
import Unification.Proofs.Lockstep
import Unification.Proofs.Relevance

/-!
# Unifying on top of a substitution

A substitution can be followed while unification goes on, or all at once before it
starts.  Both come to the same: unification on top of `σ` and unification of the
replaced expressions on top of nothing succeed together, and then the first result
and the second one composed after `σ` are instances of each other; or they fail
together, on the same kind of obstruction.
-/

namespace Unification

namespace Substitution

variable {σ τ : Substitution}

/-- Bindings about variables that `σ` leaves can be composed after `σ`. -/
theorem exists_compose_of_adds (h : Adds (fun w => σ.lookup? w = none) ∅ τ) :
    ∃ ρ, σ.compose τ = .ok ρ := by
  have hfree (v : Variable) : ¬σ.Blocked τ v := by
    intro hblocked
    obtain ⟨-, w, hw, hmoved⟩ := hblocked
    -- What `v` is moved to mentions only variables that neither binds.
    have hτ : τ.lookup? w = none := Term.unbound_of_mem_replace hw
    obtain ⟨u, hu, hwu⟩ := Term.mem_subst.1 hw
    have hσ : σ.lookup? w = none := by
      refine h.mem_of_mem_value (fun x hx => ?_) hwu
      rw [Substitution.value_of_unbound rfl, Term.mem_var] at hx
      exact hx ▸ Term.unbound_of_mem_value hu
    exact hmoved (inTurn_of_unbound hσ hτ)
  exact exists_compose_of_not_blocked hfree

end Substitution

namespace Pair

variable {σ τ : Substitution} {p : Pair}

theorem adds_of_unify_replace (h : (p.replace σ).unify ∅ = .ok τ) :
    Substitution.Adds (fun w => σ.lookup? w = none) ∅ τ := by
  rw [← solve_problem, Problem.solve_eq_ok_iff, (p.problem_follows_replace σ).1] at h
  refine Substitution.solve_adds h.1 fun e he w hw => ?_
  obtain ⟨e, -, rfl⟩ := List.mem_map.1 he
  rw [Term.replace_empty, Term.replace_empty] at hw
  exact hw.elim Term.unbound_of_mem_replace Term.unbound_of_mem_replace

/-- To follow a substitution while unifying is to follow it first. -/
theorem unify_together_replace (σ : Substitution) (p : Pair) :
    Together
      (fun ρ τ => ∃ κ, σ.compose τ = .ok κ ∧ ∃ δ ε : Variable → Term, ∀ t : Term,
        (t.replace ρ).subst δ = t.replace κ ∧ (t.replace κ).subst ε = t.replace ρ)
      (p.unify σ) ((p.replace σ).unify ∅) := by
  let same : Exchange := ⟨.var, .var⟩
  have hsame (t : Term) : same.Links (t.replace σ) ((t.replace σ).replace ∅) := by
    rw [Term.replace_empty]
    exact ⟨Term.subst_id _, Term.subst_id _⟩
  have hruns := (p.problem_follows_replace σ).solve_together (τ := ∅)
    fun e _ => .inl ⟨hsame e.1, hsame e.2⟩
  rw [solve_problem, solve_problem] at hruns
  refine hruns.mono fun ρ τ _ hτ ⟨y, hy⟩ => ?_
  obtain ⟨κ, hκ⟩ := Substitution.exists_compose_of_adds (adds_of_unify_replace hτ)
  obtain ⟨hbindings, hfree⟩ := Substitution.compose_eq_ok_iff.1 hκ
  have hrepresents := Substitution.represents_of_bindings hbindings hfree
  refine ⟨κ, hκ, y.forth, y.back, fun t => ?_⟩
  rw [hrepresents t]
  exact hy t (t.replace σ) (hsame t)

end Pair
end Unification
