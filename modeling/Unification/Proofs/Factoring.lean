import Mathlib.Data.List.Nodup
import Unification.Proofs.Composition
import Unification.Proofs.MostGeneral

/-!
# Unifiers factor through the computed one

A substitution that makes two expressions agree has the unifier that is computed for
them in it already: composing it after that unifier is possible and gives back what
it was, up to the order of the bindings (`unifier_absorbs_computed`).  The order has
to be left open: a composition lists the variables of its first part first.

What a composition binds is settled by what its two parts do in turn
(`composedBindings_perm`), so it suffices to see that both ways replace alike.
-/

namespace Unification
namespace Substitution

variable {σ τ σ' τ' ρ ρ' : Substitution}

theorem nodup_of_nodup_keys {α : Type} {m : VariableMap α} (h : m.keys.Nodup) : m.Nodup :=
  .of_map Prod.fst h

/-- Parts that do the same in turn record the same bindings. -/
theorem composedBindings_perm (h : ∀ v, σ.inTurn τ v = σ'.inTurn τ' v) :
    (σ.composedBindings τ).Perm (σ'.composedBindings τ') := by
  have hnodup := nodup_of_nodup_keys (nodup_composedBindings σ τ)
  have hnodup' := nodup_of_nodup_keys (nodup_composedBindings σ' τ')
  refine (List.perm_ext_iff_of_nodup hnodup hnodup').2 fun p => ?_
  rw [mem_composedBindings, mem_composedBindings, h p.1]

theorem equiv_of_compose (hρ : σ.compose τ = .ok ρ) (hρ' : σ'.compose τ' = .ok ρ')
    (h : ∀ v, σ.inTurn τ v = σ'.inTurn τ' v) : ρ ≈ ρ' := by
  show ρ.bindings.Perm ρ'.bindings
  rw [(compose_eq_ok_iff.1 hρ).1, (compose_eq_ok_iff.1 hρ').1]
  exact composedBindings_perm h

theorem Represents.exists_compose (h : ρ.Represents σ τ) : ∃ κ, σ.compose τ = .ok κ :=
  exists_compose_of_not_blocked h.not_blocked

end Substitution

namespace Pair

open Substitution

variable {p : Pair} {θ : Substitution}

/-- Whatever substitution makes the expressions agree, the computed unifier and then
that substitution compose to that substitution with its bindings followed to the end. -/
theorem unifier_absorbs_computed (h : (p.replace θ).Agree) :
    ∃ σ κ ρ, p.unify ∅ = .ok σ ∧ σ.compose θ = .ok κ ∧ θ.compose ∅ = .ok ρ ∧ κ ≈ ρ ∧
      ∀ t : Term, t.replace κ = t.replace θ := by
  rw [replace_eq_subst] at h
  obtain ⟨σ, hσ⟩ := exists_unify_eq_ok (solvedBy_empty θ.value) h
  have hsolved : σ.SolvedBy θ.value := (unify_solvedBy hσ θ.value).2 ⟨solvedBy_empty θ.value, h⟩
  have hafter : θ.Represents σ θ := fun t => (hsolved.subst_replace t).symm
  have halone : θ.Represents θ ∅ := fun t => (Term.replace_empty _).symm
  obtain ⟨κ, hκ⟩ := hafter.exists_compose
  obtain ⟨ρ, hρ⟩ := halone.exists_compose
  have hsame (v : Variable) : σ.inTurn θ v = θ.inTurn ∅ v :=
    (represents_iff.1 hafter v).symm.trans (represents_iff.1 halone v)
  refine ⟨σ, κ, ρ, hσ, hκ, hρ, equiv_of_compose hκ hρ hsame, fun t => ?_⟩
  obtain ⟨hbindings, hfree⟩ := compose_eq_ok_iff.1 hκ
  rw [represents_of_bindings hbindings hfree t, hafter t]

/-- The substitution is a chain, and binds a variable that the expressions do not have. -/
theorem unifier_absorbs_computed_chain :
    ∃ θ : Substitution,
      θ.bindings = [(Sample.z, .app Sample.f [.var Sample.x]), (Sample.x, .var Sample.y),
        (Sample.y, .const Sample.a)] ∧
      (Sample.repeated.replace θ).Agree ∧
      ∃ σ κ ρ, Sample.repeated.unify ∅ = .ok σ ∧ σ.compose θ = .ok κ ∧ θ.compose ∅ = .ok ρ ∧
        κ ≈ ρ ∧ ∀ t : Term, t.replace κ = t.replace θ := by
  let chain : Bindings := [(Sample.z, .app Sample.f [.var Sample.x]), (Sample.x, .var Sample.y),
    (Sample.y, .const Sample.a)]
  have hchain : Ends (Bindings.addAll? · [] chain) (.ok chain) := .of_depth 6 fun _ => rfl
  obtain ⟨θ, hθ⟩ := (Bindings.Reachable.ofBindings hchain).exists_substitution
  have hreplace {t u : Term} (h : Ends (chain.replace? · t) u) : t.replace θ = u := by
    rw [← hθ] at h
    exact (Bindings.replace?_bindings θ t).unique h
  have hagree : (Sample.repeated.replace θ).Agree := by
    show Term.replace _ θ = Term.replace _ θ
    rw [hreplace (.of_depth 6 fun _ => rfl), hreplace (.of_depth 6 fun _ => rfl)]
  exact ⟨θ, hθ, hagree, unifier_absorbs_computed hagree⟩

end Pair
end Unification
