import Unification.Proofs.Factoring

/-!
# Compositions are settled by what they do

Two compositions whose parts do the same in turn are both refused or both made, with the
same bindings up to their order: no trace is left of the bindings that the parts had or of
the terms in between.  Composing is therefore associative as far as the parts compose at
all, though the two groupings list the variables in different orders.

A substitution composed with nothing, on either side, or with itself, has each binding
followed to the end.  None of the three is ever refused, and no bound variable is lost
(`compose_settled_by_effect`).
-/

namespace Unification
namespace Substitution

variable {σ τ σ' τ' ρ ρ' : Substitution}

/-- Both attempts give a substitution, the same up to the order of the bindings, or both
fail. -/
inductive Alike : Except Error Substitution → Except Error Substitution → Prop
  | error {cause cause' : Error} : Alike (.error cause) (.error cause')
  | ok {ρ ρ' : Substitution} (h : ρ ≈ ρ') : Alike (.ok ρ) (.ok ρ')

theorem compose_alike (h : ∀ v, σ.inTurn τ v = σ'.inTurn τ' v) :
    Alike (σ.compose τ) (σ'.compose τ') := by
  have hblocked (v : Variable) : σ.Blocked τ v ↔ σ'.Blocked τ' v := by
    rw [Blocked, Blocked, funext h]
  cases hleft : σ.compose τ with
  | ok ρ =>
    have hfree : ∀ v, ¬σ'.Blocked τ' v := fun v =>
      mt (hblocked v).2 ((compose_eq_ok_iff.1 hleft).2 v)
    obtain ⟨ρ', hright⟩ := exists_compose_of_not_blocked hfree
    rw [hright]
    exact .ok (equiv_of_compose hleft hright h)
  | error cause =>
    obtain ⟨-, v, -, -, hv, -⟩ := compose_eq_error_iff.1 hleft
    cases hright : σ'.compose τ' with
    | ok ρ' => exact absurd ((hblocked v).1 hv) ((compose_eq_ok_iff.1 hright).2 v)
    | error cause' => exact .error

/-- Both groupings of three parts do what the three do in turn. -/
theorem replace_grouped {υ στ τυ : Substitution} (hστ : στ.Represents σ τ)
    (hτυ : τυ.Represents τ υ) (t : Term) :
    (t.replace στ).replace υ = (t.replace σ).replace τυ := by
  rw [hστ t, hτυ (t.replace σ)]

/-! ## Nothing new to do -/

theorem value_ne_var (h : v ∈ σ.domain) : σ.value v ≠ .var v := by
  intro hself
  have hmem : v ∈ σ.value v := by rw [hself, Term.mem_var]
  exact VariableMap.lookup?_eq_none_iff.1 (Term.unbound_of_mem_value hmem) h

/-- Parts that bind what `ρ` binds and do in turn what `ρ` does compose to `ρ` with its
bindings followed to the end. -/
theorem exists_compose_followed (hdomain : σ.domainInTurn τ = ρ.domain)
    (hρ : ρ.Represents σ τ) :
    ∃ κ, σ.compose τ = .ok κ ∧ κ.bindings = ρ.domain.map fun v => (v, (Term.var v).replace ρ) := by
  obtain ⟨κ, hκ⟩ := hρ.exists_compose
  refine ⟨κ, hκ, ?_⟩
  have hinTurn : σ.inTurn τ = ρ.value := funext fun v => (represents_iff.1 hρ v).symm
  have hkept : ρ.domain.filter (fun v => ρ.value v ≠ .var v) = ρ.domain := by
    rw [List.filter_eq_self]
    intro v hv
    exact decide_eq_true (value_ne_var hv)
  rw [(compose_eq_ok_iff.1 hκ).1, composedBindings_eq, hdomain, hinTurn, hkept]
  rfl

theorem domainInTurn_empty (σ : Substitution) : σ.domainInTurn ∅ = σ.domain :=
  List.append_nil σ.domain

theorem empty_domainInTurn (σ : Substitution) : (∅ : Substitution).domainInTurn σ = σ.domain :=
  List.filter_eq_self.2 fun _ _ => rfl

theorem domainInTurn_self (σ : Substitution) : σ.domainInTurn σ = σ.domain := by
  have hnone : (σ.domain.filter fun v => !σ.isBound v) = [] := by
    rw [List.filter_eq_nil_iff]
    intro v hv hfree
    rw [isBound, Bool.not_eq_true', Option.isSome_eq_false_iff, Option.isNone_iff_eq_none] at hfree
    exact VariableMap.lookup?_eq_none_iff.1 hfree hv
  rw [domainInTurn, hnone, List.append_nil]

/-- On either side of nothing and with itself, a substitution composes to itself with its
bindings followed to the end. -/
theorem exists_followed (σ : Substitution) :
    ∃ ρ, σ.compose ∅ = .ok ρ ∧ (∅ : Substitution).compose σ = .ok ρ ∧ σ.compose σ = .ok ρ ∧
      ρ.bindings = σ.domain.map fun v => (v, (Term.var v).replace σ) := by
  obtain ⟨ρ, hρ, hbindings⟩ :=
    exists_compose_followed σ.domainInTurn_empty fun t => (Term.replace_empty (t.replace σ)).symm
  obtain ⟨ρ₁, hρ₁, hbindings₁⟩ :=
    exists_compose_followed σ.empty_domainInTurn fun t => by rw [Term.replace_empty]
  obtain ⟨ρ₂, hρ₂, hbindings₂⟩ :=
    exists_compose_followed σ.domainInTurn_self fun t => (Term.replace_replace t).symm
  -- The three list the same bindings in the same order, so they are one.
  cases ext_bindings (hbindings₁.trans hbindings.symm)
  cases ext_bindings (hbindings₂.trans hbindings.symm)
  exact ⟨ρ, hρ, hρ₁, hρ₂, hbindings⟩

/-- What a composition gives depends on nothing but what its two parts do in turn.  So
three parts compose alike in both groupings, and composing with nothing or with itself
follows the bindings of a substitution to the end. -/
theorem compose_settled_by_effect :
    (∀ σ τ σ' τ' : Substitution,
      (∀ t : Term, (t.replace σ).replace τ = (t.replace σ').replace τ') →
        Alike (σ.compose τ) (σ'.compose τ')) ∧
      (∀ σ τ υ στ τυ : Substitution, σ.compose τ = .ok στ → τ.compose υ = .ok τυ →
        Alike (στ.compose υ) (σ.compose τυ)) ∧
      ∀ σ : Substitution, ∃ ρ, σ.compose ∅ = .ok ρ ∧ (∅ : Substitution).compose σ = .ok ρ ∧
        σ.compose σ = .ok ρ ∧
          ρ.bindings = σ.domain.map fun v => (v, (Term.var v).replace σ) := by
  refine ⟨fun σ τ σ' τ' h => ?_, fun σ τ υ στ τυ hστ hτυ => ?_, exists_followed⟩
  · exact compose_alike fun v => h (.var v)
  · have hgrouped := replace_grouped (represents_of_compose hστ) (represents_of_compose hτυ)
    exact compose_alike fun v => hgrouped (.var v)

/-- The parts bind variables of each other, and the two groupings list the variables in
different orders. -/
theorem compose_settled_by_effect_chain :
    ∃ σ τ υ στ τυ ρ ρ' κ : Substitution,
      σ.bindings = [(Sample.x, .var Sample.y), (Sample.z, .app Sample.f [.var Sample.x])] ∧
      τ.bindings = [(Sample.y, .var Sample.x)] ∧ υ.bindings = [(Sample.x, .const Sample.a)] ∧
      σ.compose τ = .ok στ ∧ τ.compose υ = .ok τυ ∧
      (∀ t : Term, (t.replace στ).replace υ = (t.replace σ).replace τυ) ∧
      Alike (στ.compose υ) (σ.compose τυ) ∧
      στ.compose υ = .ok ρ ∧ σ.compose τυ = .ok ρ' ∧ ρ ≈ ρ' ∧
      ρ.domain = [Sample.z, Sample.y, Sample.x] ∧ ρ'.domain = [Sample.x, Sample.z, Sample.y] ∧
      σ.compose ∅ = .ok κ ∧ (∅ : Substitution).compose σ = .ok κ ∧ σ.compose σ = .ok κ ∧
        κ.bindings = σ.domain.map fun v => (v, (Term.var v).replace σ) := by
  let chain : Bindings := [(Sample.x, .var Sample.y), (Sample.z, .app Sample.f [.var Sample.x])]
  let back : Bindings := [(Sample.y, .var Sample.x)]
  let ground : Bindings := [(Sample.x, .const Sample.a)]
  let chainBack : Bindings := [(Sample.z, .app Sample.f [.var Sample.x]), (Sample.y, .var Sample.x)]
  let backGround : Bindings := [(Sample.y, .const Sample.a), (Sample.x, .const Sample.a)]
  have hchain : Ends (Bindings.addAll? · [] chain) (.ok chain) := .of_depth 6 fun _ => rfl
  have hback : Ends (Bindings.addAll? · [] back) (.ok back) := .of_depth 6 fun _ => rfl
  have hground : Ends (Bindings.addAll? · [] ground) (.ok ground) := .of_depth 6 fun _ => rfl
  obtain ⟨σ, hσ⟩ := (Bindings.Reachable.ofBindings hchain).exists_substitution
  obtain ⟨τ, hτ⟩ := (Bindings.Reachable.ofBindings hback).exists_substitution
  obtain ⟨υ, hυ⟩ := (Bindings.Reachable.ofBindings hground).exists_substitution
  obtain ⟨στ, hστ, hchainBack⟩ :=
    Bindings.exists_compose_of_ends (d := chainBack) hσ hτ (.of_depth 6 fun _ => rfl)
  obtain ⟨τυ, hτυ, hbackGround⟩ :=
    Bindings.exists_compose_of_ends (d := backGround) hτ hυ (.of_depth 6 fun _ => rfl)
  obtain ⟨ρ, hρ, hleft⟩ :=
    Bindings.exists_compose_of_ends hchainBack hυ (.of_depth 6 fun _ => rfl)
  obtain ⟨ρ', hρ', hright⟩ :=
    Bindings.exists_compose_of_ends hσ hbackGround (.of_depth 6 fun _ => rfl)
  have hgrouped := replace_grouped (represents_of_compose hστ) (represents_of_compose hτυ)
  have hsame := compose_settled_by_effect.2.1 σ τ υ στ τυ hστ hτυ
  rw [hρ, hρ'] at hsame
  obtain ⟨κ, hself⟩ := compose_settled_by_effect.2.2 σ
  cases hsame with
  | ok hequiv =>
    exact ⟨σ, τ, υ, στ, τυ, ρ, ρ', κ, hσ, hτ, hυ, hστ, hτυ, hgrouped,
      compose_settled_by_effect.1 στ υ σ τυ hgrouped, hρ, hρ', hequiv,
      congrArg VariableMap.keys hleft, congrArg VariableMap.keys hright, hself⟩

end Substitution
end Unification
