import Unification.Proofs.Lockstep
import Unification.Proofs.Rearrangement
import Unification.Proofs.Unchecked.Unifying

/-!
# Failure does not depend on the side

With the two expressions exchanged, other variables are bound on the way, so two runs
that come from a pair and from the exchanged pair meet a difficulty with different
substitutions.  They are in lockstep all the same, each equation of the one being an
equation of the other turned round.  So both fail or neither does, and what is in the
way is the same but for the order of its two sides (`failure_symmetric`).
-/

namespace Unification

namespace Formula

variable {f g : Formula} {cause : UnificationError}

theorem Clash.swap (h : Clash f g cause) :
    ∃ cause', Clash g f cause' ∧ cause'.kind = cause.kind := by
  have hswap {α : Type} (kind : Sym2 α → UnificationError.Kind) (a b : α) :
      kind s(b, a) = kind s(a, b) := congrArg kind Sym2.eq_swap
  cases h with
  | symbols hp => exact ⟨_, .symbols hp.symm, hswap .symbolClash _ _⟩
  | arguments hlen => exact ⟨_, .arguments hlen.symm, hswap .arityMismatch _ _⟩
  | connectives hk => exact ⟨_, .connectives hk.symm, hswap .operatorClash _ _⟩
  | operands hlen => exact ⟨_, .operands hlen.symm, hswap .arityMismatch _ _⟩
  | predicateOperator => exact ⟨_, .operatorPredicate, rfl⟩
  | operatorPredicate => exact ⟨_, .predicateOperator, rfl⟩

/-- Exchanged formulas stand for the same equations turned round. -/
theorem problem_follows_swap (f g : Formula) : (f.problem g).Follows Prod.swap (g.problem f) := by
  induction f, g using pair_induction with
  | clash f g cause h =>
    obtain ⟨cause', h', hkind⟩ := h.swap
    rw [problem_of_clash h, problem_of_clash h']
    exact Problem.follows_blocked hkind
  | predicates p ss ts a b hlen =>
    rw [problem_predicates hlen, problem_predicates hlen.symm]
    exact Problem.follows_ofEquations (List.zip_swap ss ts).symm
  | operators k fs gs a b h =>
    rw [problem_operators h.length_eq, problem_operators h.length_eq.symm]
    induction h with
    | nil => exact Problem.follows_ofEquations rfl
    | cons hfg _ ih => exact hfg.andThen ih

end Formula

namespace Pair

theorem problem_follows_swap (p : Pair) : p.problem.Follows Prod.swap p.swap.problem := by
  cases p with
  | terms s t => exact Problem.follows_ofEquations rfl
  | formulas f g => exact Formula.problem_follows_swap f g

theorem unify_together_swap (σ : Substitution) (p : Pair) :
    Together (fun τ τ' => ∃ x, Substitution.Leads ⟨.var, .var⟩ x σ σ τ τ')
      (p.unify σ) (p.swap.unify σ) := by
  -- Before anything is bound, equations are linked crosswise and no variables exchanged.
  have hsame (t : Term) : (⟨.var, .var⟩ : Exchange).Links t t := ⟨t.subst_id, t.subst_id⟩
  have hruns := p.problem_follows_swap.solve_together (σ := σ) (τ := σ)
    fun e _ => .inr ⟨hsame (e.1.replace σ), hsame (e.2.replace σ)⟩
  rwa [solve_problem, solve_problem] at hruns

/-- Unification fails from both sides or from none, on the same variant of obstruction and
with the same two components where it has any. -/
theorem failure_symmetric (σ : Substitution) (p : Pair) :
    ((∃ cause, p.unify σ = .error cause) ↔ ∃ cause, p.swap.unify σ = .error cause) ∧
      ∀ cause cause', p.unify σ = .error cause → p.swap.unify σ = .error cause' →
        cause.kind = cause'.kind := by
  have hruns := unify_together_swap σ p
  exact ⟨hruns.exists_error_iff, fun _ _ hl hr => hruns.kind_eq hl hr⟩

/-- By the time of the occurs check `X` has been bound to `Y` from the one side, and `Y`
to `X` from the other. -/
theorem failure_symmetric_crossed :
    let f : List Term → Term := .app Sample.f
    let p : Pair := .terms (f [.var Sample.x, .var Sample.y])
      (f [.var Sample.y, f [.var Sample.x]])
    ∃ cause cause', p.unify ∅ = .error cause ∧ p.swap.unify ∅ = .error cause' ∧
      cause ≠ cause' ∧ cause.kind = cause'.kind := by
  intro f p
  have hl : p.unify ∅ = .error (.occursCheck Sample.y (f [.var Sample.y])) :=
    Bindings.unify_eq_error_of_ends (.of_depth 8 fun _ => rfl)
  have hr : p.swap.unify ∅ = .error (.occursCheck Sample.x (f [.var Sample.x])) :=
    Bindings.unify_eq_error_of_ends (.of_depth 8 fun _ => rfl)
  exact ⟨_, _, hl, hr, by decide, (failure_symmetric ∅ p).2 _ _ hl hr⟩

end Pair
end Unification
