import Unification.Proofs.Construction
import Unification.Proofs.Elimination
import Unification.Proofs.Unchecked.Reachable

/-!
# Replaced to the end

Replacement follows every binding that it meets, in the terms that it puts in as well, so
its result has no bound variable, and a second replacement finds nothing to do.  An
expression is given back as it was exactly where none of its variables is bound
(`replaced_to_end`).

For a formula this says something about truth values too.  Replacement derives the value of
every operator anew, so a formula comes back equal only if it has the derived values to
begin with, and what can be constructed has them (`Formula.subst_of_wellFormed`).
-/

namespace Unification

namespace Formula

/-- To build a well-formed formula anew is to give it back, with its values. -/
theorem subst_of_wellFormed {f : Formula} (h : f.WellFormed) : f.subst .var = f := by
  induction f with
  | predicate p args v =>
    rw [subst_predicate, List.map_congr_left fun t _ => t.subst_id, List.map_id']
  | operator k operands v ih =>
    obtain ⟨-, rfl, hoperands⟩ := h
    rw [allWellFormed_iff] at hoperands
    have hsame : operands.map (subst .var) = operands :=
      (List.map_congr_left fun f hf => ih f hf (hoperands f hf)).trans (List.map_id' operands)
    rw [subst_operator, hsame, connect]

end Formula

namespace Expression

variable {e : Expression} {σ : Substitution}

/-- The expression is a term, or a formula that can be constructed. -/
def Reachable : Expression → Prop
  | term _ => True
  | formula f => f.Reachable

theorem subst_of_reachable (h : e.Reachable) : e.subst .var = e := by
  cases e with
  | term t => exact congrArg term t.subst_id
  | formula f => exact congrArg formula (Formula.subst_of_wellFormed h.wellFormed)

theorem unbound_of_mem_vars_replace {w : Variable} (hw : w ∈ (e.replace σ).vars) :
    σ.lookup? w = none := by
  obtain ⟨v, -, hw⟩ := mem_vars_replace.1 hw
  exact Term.unbound_of_mem_value hw

theorem replace_replace (e : Expression) (σ : Substitution) :
    (e.replace σ).replace σ = e.replace σ := by
  rw [replace_eq_subst, replace_eq_subst, subst_subst]
  exact subst_congr fun v _ => Term.replace_replace (.var v)

theorem replace_of_unbound (he : e.Reachable) (h : ∀ v ∈ e.vars, σ.lookup? v = none) :
    e.replace σ = e := by
  rw [replace_eq_subst]
  refine Eq.trans (subst_congr fun v hv => ?_) (subst_of_reachable he)
  exact Substitution.value_of_unbound (h v (mem_vars.2 hv))

/-- Replacement leaves no bound variable and nothing to a second one.  It gives an expression
back as it was, truth values included, exactly where no variable of it is bound; so it does
on top of nothing, and where there are no variables. -/
theorem replaced_to_end (he : e.Reachable) (σ : Substitution) :
    (∀ v ∈ (e.replace σ).vars, σ.lookup? v = none) ∧
      (e.replace σ).replace σ = e.replace σ ∧
      (e.replace σ = e ↔ ∀ v ∈ e.vars, σ.lookup? v = none) ∧
      e.replace ∅ = e ∧ (e.isGround = true → e.replace σ = e) := by
  have hunbound : ∀ v ∈ (e.replace σ).vars, σ.lookup? v = none :=
    fun v hv => unbound_of_mem_vars_replace hv
  refine ⟨hunbound, e.replace_replace σ, ⟨fun heq => ?_, replace_of_unbound he⟩,
    replace_of_unbound he fun v _ => rfl, fun hground => ?_⟩
  · rwa [heq] at hunbound
  · exact replace_of_unbound he fun v hv => absurd hv (isGround_iff.1 hground v)

/-- `Z` is followed to `f(X)` and from there to `f(Y)`, below a negation whose value stays. -/
theorem replaced_to_end_chain :
    ∃ σ : Substitution,
      σ.bindings = [(Sample.z, .app Sample.f [.var Sample.x]), (Sample.x, .var Sample.y)] ∧
      let negated (t : Term) : Expression :=
        formula (.operator .not [.predicate Sample.p [t] .true] .false)
      let ground : Expression := term (.app Sample.f [.const Sample.a])
      (negated (.var Sample.z)).Reachable ∧
      (negated (.var Sample.z)).replace σ = negated (.app Sample.f [.var Sample.y]) ∧
      (∀ v ∈ (negated (.app Sample.f [.var Sample.y])).vars, σ.lookup? v = none) ∧
      (negated (.app Sample.f [.var Sample.y])).replace σ =
        negated (.app Sample.f [.var Sample.y]) ∧
      (¬∀ v ∈ (negated (.var Sample.z)).vars, σ.lookup? v = none) ∧
      (negated (.var Sample.z)).replace ∅ = negated (.var Sample.z) ∧
      ground.Reachable ∧ ground.isGround = true ∧ ground.replace σ = ground := by
  let chain : Bindings := [(Sample.z, .app Sample.f [.var Sample.x]), (Sample.x, .var Sample.y)]
  have hchain : Ends (Bindings.addAll? · [] chain) (.ok chain) := .of_depth 6 fun _ => rfl
  obtain ⟨σ, hσ⟩ := (Bindings.Reachable.ofBindings hchain).exists_substitution
  refine ⟨σ, hσ, ?_⟩
  intro negated ground
  have hreachable : (negated (.var Sample.z)).Reachable :=
    Formula.reachable_of_wellFormed (Formula.wellFormed_not trivial)
  have hreplaced :
      (negated (.var Sample.z)).replace σ = negated (.app Sample.f [.var Sample.y]) := by
    have hrun := Bindings.replaceFormula?_bindings σ
      (.operator .not [.predicate Sample.p [.var Sample.z] .true] .false)
    rw [hσ] at hrun
    exact congrArg formula (hrun.unique (.of_depth 6 fun _ => rfl))
  obtain ⟨hunbound, hrepeated, hsame, hempty, -⟩ := replaced_to_end hreachable σ
  rw [hreplaced] at hunbound hrepeated hsame
  exact ⟨hreachable, hreplaced, hunbound, hrepeated, mt hsame.2 nofun, hempty, trivial, rfl,
    (replaced_to_end (e := ground) trivial σ).2.2.2.2 rfl⟩

end Expression
end Unification
