import Unification.Proofs.Lockstep
import Unification.Proofs.Rearrangement
import Unification.Proofs.Unchecked.Unifying

/-!
# Nothing left to do

Two expressions may be written through different chains of bindings and still be the same
once these are followed.  Unification then returns the substitution that it was given, and
it does so in no other case (`unify_unchanged_iff_agree`): no chain leads it to add a
binding that says nothing new.  One of the two directions is that a result is a solution.
The other is that `solve` drops an equation whose fully replaced sides are equal.
-/

namespace Unification

namespace Term

theorem subst_of_isGround {t : Term} (h : t.isGround = true) (θ : Variable → Term) :
    t.subst θ = t := by
  have hfixed : t.subst θ = t.subst .var := subst_congr fun v hv => absurd hv (isGround_iff.1 h v)
  rw [hfixed, subst_id]

end Term

namespace Formula

/-- Nothing but the values of its operators can change in a formula without variables. -/
theorem subst_equiv_of_isGround {f : Formula} (h : f.isGround = true) (θ : Variable → Term) :
    f.subst θ ≈ f := by
  induction f with
  | predicate p args v =>
    rw [isGround, List.all_eq_true] at h
    have hargs : args.map (Term.subst θ) = args.map id :=
      List.map_congr_left fun t ht => Term.subst_of_isGround (h t ht) θ
    rw [subst_predicate, hargs, List.map_id, predicate_equiv_predicate]
    exact ⟨rfl, rfl⟩
  | operator k operands v ih =>
    rw [isGround, allGround_eq, List.all_eq_true] at h
    rw [subst_operator, connect, operator_equiv_operator, List.map_map]
    exact ⟨rfl, List.map_congr_left fun f hf => ih f hf (h f hf)⟩

end Formula

namespace Pair

variable {σ τ : Substitution} {p : Pair}

/-- Neither expression has variables. -/
def isGround : Pair → Bool
  | terms s t => s.isGround && t.isGround
  | formulas f g => f.isGround && g.isGround

theorem agree_subst_of_isGround (h : p.isGround = true) (θ : Variable → Term) :
    (p.subst θ).Agree ↔ p.Agree := by
  cases p with
  | terms s t =>
    obtain ⟨hs, ht⟩ := Bool.and_eq_true_iff.1 h
    rw [subst, Term.subst_of_isGround hs, Term.subst_of_isGround ht]
  | formulas f g =>
    obtain ⟨hf, hg⟩ := Bool.and_eq_true_iff.1 h
    have hf' : f.subst θ ≈ f := Formula.subst_equiv_of_isGround hf θ
    have hg' : g.subst θ ≈ g := Formula.subst_equiv_of_isGround hg θ
    constructor
    · intro hfg
      exact hf'.symm.trans (hfg.trans hg')
    · intro hfg
      exact hf'.trans (hfg.trans hg'.symm)

theorem unify_of_agree_value (h : (p.subst σ.value).Agree) : p.unify σ = .ok σ := by
  obtain ⟨hclear, hequal⟩ := (problem_solvedBy σ.value p).2 h
  rw [← solve_problem, Problem.solve_eq_ok_iff]
  exact ⟨Substitution.solve_of_replace_eq hequal, hclear⟩

/-- The substitution comes back as it was, with no binding added, exactly where it already
makes the two expressions agree.  So an expression is always unified with itself for
nothing, expressions without variables can be unified only where they agree to begin with,
and whatever has been unified once stays so, from either side. -/
theorem unify_unchanged_iff_agree (σ : Substitution) (p : Pair) :
    (p.unify σ = .ok σ ↔ (p.replace σ).Agree) ∧
      (∀ t : Term, (terms t t).unify σ = .ok σ) ∧
      (∀ f : Formula, (formulas f f).unify σ = .ok σ) ∧
      (p.isGround = true → ((∃ τ, p.unify σ = .ok τ) ↔ p.Agree)) ∧
      ∀ τ, p.unify σ = .ok τ → p.unify τ = .ok τ ∧ p.swap.unify τ = .ok τ := by
  refine ⟨?_, fun t => ?_, fun f => ?_, fun hground => ?_, fun τ h => ?_⟩
  · rw [replace_eq_subst]
    exact ⟨fun h => (solvedBy_value_of_unify h).2, unify_of_agree_value⟩
  · exact unify_of_agree_value (p := terms t t) rfl
  · exact unify_of_agree_value (p := formulas f f) rfl
  · constructor
    · rintro ⟨τ, h⟩
      exact (agree_subst_of_isGround hground τ.value).1 (solvedBy_value_of_unify h).2
    · intro h
      exact ⟨σ, unify_of_agree_value ((agree_subst_of_isGround hground σ.value).2 h)⟩
  · have hagree : (p.subst τ.value).Agree := (solvedBy_value_of_unify h).2
    have hswapped : (p.swap.subst τ.value).Agree := (agree_swap_subst p τ.value).2 hagree
    exact ⟨unify_of_agree_value hagree, unify_of_agree_value hswapped⟩

/-- With `Y` bound to `X`, there is nothing to do for `X` and `Y` in either order.  Once `X`
is bound to `a` as well, nothing is left to do for the pair that led to it. -/
theorem unify_unchanged_iff_agree_chained :
    let σ : Substitution :=
      ⟨[(Sample.y, .var Sample.x)], by decide, Bindings.wellFounded_of_disjoint (by decide)⟩
    let crossed : Pair := .terms (.app Sample.f [.var Sample.x, .var Sample.y])
      (.app Sample.f [.var Sample.y, .var Sample.x])
    let ground : Pair := .terms (.const Sample.a) (.app Sample.f [.const Sample.a])
    crossed.unify σ = .ok σ ∧ (crossed.replace σ).Agree ∧
      ground.isGround = true ∧ (¬∃ τ, ground.unify σ = .ok τ) ∧
      ∃ τ, Sample.repeated.unify σ = .ok τ ∧ τ ≠ σ ∧
        Sample.repeated.unify τ = .ok τ ∧ Sample.repeated.swap.unify τ = .ok τ := by
  intro σ crossed ground
  have hcrossed : crossed.unify σ = .ok σ := by
    obtain ⟨τ, hτ, hbindings⟩ := Bindings.exists_unify_of_ends (σ := σ) (p := crossed)
      (b := σ.bindings) (.of_depth 8 fun _ => rfl)
    rw [hτ, Substitution.ext_bindings hbindings]
  have hground : ¬ground.Agree := nofun
  obtain ⟨τ, hτ, hbindings⟩ := Bindings.exists_unify_of_ends (σ := σ) (p := Sample.repeated)
    (b := [(Sample.y, .var Sample.x), (Sample.x, .const Sample.a)]) (.of_depth 8 fun _ => rfl)
  have hne : τ ≠ σ := by
    intro heq
    rw [heq] at hbindings
    exact absurd hbindings (by decide)
  exact ⟨hcrossed, (unify_unchanged_iff_agree σ crossed).1.1 hcrossed, rfl,
    fun h => hground (((unify_unchanged_iff_agree σ ground).2.2.2.1 rfl).1 h),
    τ, hτ, hne, (unify_unchanged_iff_agree σ Sample.repeated).2.2.2.2 τ hτ⟩

end Pair
end Unification
