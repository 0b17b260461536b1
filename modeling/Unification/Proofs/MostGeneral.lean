import Unification.Proofs.Problem

/-!
# Most general unifiers

Unification of two expressions on top of a substitution finds a substitution
whenever there is a common solution at all, and what it finds has exactly the
common solutions: it makes the two expressions agree, and it asks for nothing
that a solution does not have to grant.  Any substitution may be the one to start
from, whatever operations have led to it, and a solution may be any map.
-/

namespace Unification
namespace Pair

/-- Whatever solves the substitution and makes the expressions agree solves the
substitution that unification returns, and it does return one. -/
theorem exists_unify_of_solution {σ : Substitution} {θ : Variable → Term} {p : Pair}
    (hσ : σ.SolvedBy θ) (hp : (p.subst θ).Agree) :
    ∃ τ, p.unify σ = .ok τ ∧ τ.SolvedBy θ ∧ ∀ t : Term, (t.replace τ).subst θ = t.subst θ := by
  have hproblem : p.problem.SolvedBy θ := (problem_solvedBy θ p).2 hp
  obtain ⟨τ, hτ⟩ := Problem.exists_solve_eq_ok hσ hproblem
  have hsolved : τ.SolvedBy θ := (Problem.solve_solvedBy hτ θ).2 ⟨hσ, hproblem⟩
  rw [solve_problem] at hτ
  exact ⟨τ, hτ, hsolved, hsolved.subst_replace⟩

theorem exists_unify_of_solution_atoms :
    Sample.bound.SolvedBy Sample.ground ∧ (Sample.atoms.subst Sample.ground).Agree ∧
      ∃ τ, Sample.atoms.unify Sample.bound = .ok τ ∧ τ.SolvedBy Sample.ground ∧
        ∀ t : Term, (t.replace τ).subst Sample.ground = t.subst Sample.ground := by
  have hσ : Sample.bound.SolvedBy Sample.ground := by
    intro e he
    rw [List.mem_singleton.1 he]
    decide
  have hp : (Sample.atoms.subst Sample.ground).Agree :=
    Formula.predicate_equiv_predicate.2 (by decide)
  exact ⟨hσ, hp, exists_unify_of_solution hσ hp⟩

/-- Under the substitution that unification returns the expressions agree. -/
theorem agree_of_unify_eq_ok {σ τ : Substitution} {p : Pair} (h : p.unify σ = .ok τ) :
    (p.replace τ).Agree := by
  rw [← solve_problem] at h
  have hsolved : τ.SolvedBy τ.value := τ.solvedBy_value
  have hproblem : p.problem.SolvedBy τ.value := ((Problem.solve_solvedBy h τ.value).1 hsolved).2
  rw [replace_eq_subst]
  exact (problem_solvedBy τ.value p).1 hproblem

theorem agree_of_unify_eq_ok_repeated :
    ∃ τ, Sample.repeated.unify ∅ = .ok τ ∧ (Sample.repeated.replace τ).Agree := by
  let θ : Variable → Term := fun _ => .const Sample.a
  have hσ : (∅ : Substitution).SolvedBy θ := fun e he => nomatch he
  have hp : Sample.repeated.problem.SolvedBy θ :=
    (problem_solvedBy θ Sample.repeated).2 rfl
  obtain ⟨τ, hτ⟩ := Problem.exists_solve_eq_ok hσ hp
  rw [solve_problem] at hτ
  exact ⟨τ, hτ, agree_of_unify_eq_ok hτ⟩

end Pair
end Unification
