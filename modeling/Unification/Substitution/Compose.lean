import Unification.Substitution.Lemmas

/-!
# Composition

The composition of `σ` and `τ` is to act as `σ` followed by `τ`.  It binds every
variable that the two move together, each to what it becomes in the end, so its
terms need no further following.  A substitution is always followed to the end,
though, so a composition that would bind a variable to a term with another bound
variable in it cannot be expressed and is refused.
-/

namespace Unification
namespace Substitution

/-- What each variable becomes under `σ` and then `τ`: the variables of `σ`, then
the others of `τ`, without those that come back to themselves. -/
def composedBindings (σ τ : Substitution) : Bindings :=
  ((σ.domain ++ τ.domain.filter (fun v => !σ.isBound v)).map
    fun v => (v, (σ.value v).replace τ)).filter (fun p => p.2 ≠ .var p.1)

theorem nodup_domain_append (σ τ : Substitution) :
    (σ.domain ++ τ.domain.filter (fun v => !σ.isBound v)).Nodup := by
  refine List.nodup_append.2 ⟨σ.nodup, τ.nodup.filter _, fun v hv w hw e => ?_⟩
  have hw := (List.mem_filter.1 hw).2
  rw [← e, Bool.not_eq_true', isBound, Option.isSome_eq_false_iff, Option.isNone_iff_eq_none] at hw
  exact VariableMap.lookup?_eq_none_iff.1 hw hv

theorem nodup_composedBindings (σ τ : Substitution) : (composedBindings σ τ).keys.Nodup := by
  refine List.Nodup.sublist (List.filter_sublist.map Prod.fst) ?_
  rw [List.map_map]
  exact (List.map_id' _).symm ▸ nodup_domain_append σ τ

/-- The substitution that acts as `σ` and then `τ`, if there is one. -/
def compose (σ τ : Substitution) : Except Error Substitution :=
  let b := composedBindings σ τ
  match h : b.find? (fun p => b.keys.any (p.2.contains ·)) with
  | some (v, t) => .error (.unrepresentableComposition v t)
  | none => .ok {
      bindings := b
      nodup := nodup_composedBindings σ τ
      acyclic := Bindings.wellFounded_of_disjoint fun p hp v hv hmem =>
        List.find?_eq_none.1 h p hp (List.any_eq_true.2 ⟨v, hv, hmem⟩) }

theorem compose_eq_error {σ τ : Substitution} {v : Variable} {t : Term}
    (h : (composedBindings σ τ).find? (fun p => (composedBindings σ τ).keys.any (p.2.contains ·)) =
      some (v, t)) :
    σ.compose τ = .error (.unrepresentableComposition v t) := by
  unfold compose
  dsimp only
  split
  · next hfound =>
    cases hfound.symm.trans h
    rfl
  · next hnone => cases hnone.symm.trans h

theorem compose_eq_ok {σ τ : Substitution}
    (h : (composedBindings σ τ).find? (fun p => (composedBindings σ τ).keys.any (p.2.contains ·)) =
      none) :
    ∃ ρ, σ.compose τ = .ok ρ ∧ ρ.bindings = composedBindings σ τ := by
  unfold compose
  dsimp only
  split
  · next hfound => cases hfound.symm.trans h
  · exact ⟨_, rfl, rfl⟩

end Substitution
end Unification
