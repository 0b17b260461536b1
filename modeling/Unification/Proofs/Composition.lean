import Unification.Proofs.Unchecked.Reachable

/-!
# What a composition does, and when there is none

A composition that is returned acts as its two parts in turn, on formulas as well
as on terms (`compose_replaces_in_turn`).  One is refused only where no substitution
of any shape acts so (`compose_refused_iff`): a substitution is followed to the end
and leaves none of its own variables behind, so it cannot move a variable to a term
in which another moved variable stands.  Such a variable is `Blocked`, and the
refusal names the first one.
-/

namespace Unification

namespace Substitution

variable {σ τ ρ : Substitution} {v : Variable}

/-- What a variable becomes under `σ` and then `τ`. -/
def inTurn (σ τ : Substitution) (v : Variable) : Term := (σ.value v).replace τ

/-- On every term `ρ` acts as `σ` and then `τ`. -/
def Represents (ρ σ τ : Substitution) : Prop := ∀ t : Term, t.replace ρ = (t.replace σ).replace τ

/-- The variable is moved, and to a term that mentions a moved variable. -/
def Blocked (σ τ : Substitution) (v : Variable) : Prop :=
  σ.inTurn τ v ≠ .var v ∧ ∃ w ∈ σ.inTurn τ v, σ.inTurn τ w ≠ .var w

theorem subst_inTurn (σ τ : Substitution) (t : Term) :
    t.subst (σ.inTurn τ) = (t.replace σ).replace τ :=
  (Term.subst_subst σ.value τ.value t).symm

theorem represents_iff : ρ.Represents σ τ ↔ ∀ v, ρ.value v = σ.inTurn τ v := by
  constructor
  · intro h v
    exact h (.var v)
  · intro h t
    rw [← subst_inTurn]
    exact Term.subst_congr fun v _ => h v

/-- Where a substitution leaves a variable, that variable is not moved by it. -/
theorem Represents.not_blocked (h : ρ.Represents σ τ) (v : Variable) : ¬σ.Blocked τ v := by
  intro hblocked
  obtain ⟨-, w, hw, hmoved⟩ := hblocked
  rw [represents_iff] at h
  rw [← h v] at hw
  have hunbound : ρ.lookup? w = none := Term.unbound_of_mem_value hw
  rw [← h w, value_of_unbound hunbound] at hmoved
  exact hmoved rfl

theorem Represents.formula (h : ρ.Represents σ τ) (f : Formula) :
    f.replace ρ = (f.replace σ).replace τ := by
  have hvalue : ρ.value = σ.inTurn τ := funext (represents_iff.1 h)
  rw [Formula.replace, hvalue]
  exact (Formula.subst_subst σ.value τ.value f).symm

/-! ## The recorded bindings -/

theorem inTurn_of_unbound (hσ : σ.lookup? v = none) (hτ : τ.lookup? v = none) :
    σ.inTurn τ v = .var v := by
  rw [inTurn, value_of_unbound hσ, Term.replace_var, value_of_unbound hτ]

/-- The variables of the first substitution, then the others of the second. -/
def domainInTurn (σ τ : Substitution) : List Variable :=
  σ.domain ++ τ.domain.filter fun v => !σ.isBound v

theorem mem_domainInTurn (h : σ.inTurn τ v ≠ .var v) : v ∈ σ.domainInTurn τ := by
  rw [domainInTurn, List.mem_append, List.mem_filter]
  cases hσ : σ.lookup? v with
  | some t =>
    left
    by_contra hv
    exact nomatch (VariableMap.lookup?_eq_none_iff.2 hv).symm.trans hσ
  | none =>
    right
    have hfree : (!σ.isBound v) = true := by rw [isBound, hσ]; rfl
    refine ⟨?_, hfree⟩
    by_contra hv
    exact h (inTurn_of_unbound hσ (VariableMap.lookup?_eq_none_iff.2 hv))

theorem composedBindings_eq (σ τ : Substitution) :
    σ.composedBindings τ =
      ((σ.domainInTurn τ).filter fun v => σ.inTurn τ v ≠ .var v).map fun v =>
        (v, σ.inTurn τ v) := by
  rw [composedBindings, List.filter_map]
  rfl

theorem mem_composedBindings {p : Variable × Term} :
    p ∈ σ.composedBindings τ ↔ σ.inTurn τ p.1 = p.2 ∧ p.2 ≠ .var p.1 := by
  obtain ⟨v, t⟩ := p
  simp only [composedBindings_eq, List.mem_map, List.mem_filter, decide_eq_true_eq, Prod.mk.injEq]
  constructor
  · intro h
    obtain ⟨w, ⟨-, hmoved⟩, rfl, rfl⟩ := h
    exact ⟨rfl, hmoved⟩
  · intro h
    obtain ⟨rfl, hmoved⟩ := h
    exact ⟨v, ⟨mem_domainInTurn hmoved, hmoved⟩, rfl, rfl⟩

theorem mem_keys_composedBindings :
    v ∈ (σ.composedBindings τ).keys ↔ σ.inTurn τ v ≠ .var v := by
  rw [VariableMap.keys, List.mem_map]
  constructor
  · intro h
    obtain ⟨p, hp, rfl⟩ := h
    obtain ⟨hvalue, hmoved⟩ := mem_composedBindings.1 hp
    rwa [hvalue]
  · intro hmoved
    exact ⟨(v, σ.inTurn τ v), mem_composedBindings.2 ⟨rfl, hmoved⟩, rfl⟩

/-- The test that refuses a recorded binding. -/
theorem any_contains_iff {t : Term} :
    (σ.composedBindings τ).keys.any (t.contains ·) = true ↔
      ∃ w ∈ t, σ.inTurn τ w ≠ .var w := by
  rw [List.any_eq_true]
  constructor
  · intro h
    obtain ⟨w, hw, hmem⟩ := h
    exact ⟨w, hmem, mem_keys_composedBindings.1 hw⟩
  · intro h
    obtain ⟨w, hmem, hmoved⟩ := h
    exact ⟨w, mem_keys_composedBindings.2 hmoved, hmem⟩

/-- The first recorded binding to fail the test is that of the first blocked
variable. -/
theorem find?_composedBindings_iff {t : Term} :
    ((σ.composedBindings τ).find? fun p =>
      (σ.composedBindings τ).keys.any (p.2.contains ·)) = some (v, t) ↔
      ∃ before after, σ.domainInTurn τ = before ++ v :: after ∧ σ.Blocked τ v ∧
        (∀ w ∈ before, ¬σ.Blocked τ w) ∧ σ.inTurn τ v = t := by
  have htest (w : Variable) :
      (decide (decide (σ.inTurn τ w ≠ .var w) = true ∧
        (σ.composedBindings τ).keys.any ((σ.inTurn τ w).contains ·) = true)) = true ↔
      σ.Blocked τ w := by
    rw [decide_eq_true_eq, decide_eq_true_eq, any_contains_iff, Blocked]
  generalize (σ.composedBindings τ).keys = keys at htest
  rw [composedBindings_eq, List.find?_map, List.find?_filter, Option.map_eq_some_iff]
  simp only [List.find?_eq_some_iff_append, Function.comp_apply, htest, Bool.not_eq_true',
    ← Bool.not_eq_true, Prod.mk.injEq]
  constructor
  · intro h
    obtain ⟨w, ⟨hblocked, before, after, horder, hbefore⟩, rfl, rfl⟩ := h
    exact ⟨before, after, horder, hblocked, hbefore, rfl⟩
  · intro h
    obtain ⟨before, after, horder, hblocked, hbefore, rfl⟩ := h
    exact ⟨v, ⟨hblocked, before, after, horder, hbefore⟩, rfl, rfl⟩

theorem compose_eq_ok_iff :
    σ.compose τ = .ok ρ ↔ ρ.bindings = σ.composedBindings τ ∧ ∀ v, ¬σ.Blocked τ v := by
  cases hfound : (σ.composedBindings τ).find? fun p =>
      (σ.composedBindings τ).keys.any (p.2.contains ·) with
  | none =>
    obtain ⟨ρ', hρ', hbindings⟩ := compose_eq_ok hfound
    have hfree : ∀ v, ¬σ.Blocked τ v := by
      intro v hblocked
      obtain ⟨hmoved, hmentions⟩ := hblocked
      have hmem : (v, σ.inTurn τ v) ∈ σ.composedBindings τ := mem_composedBindings.2 ⟨rfl, hmoved⟩
      exact List.find?_eq_none.1 hfound _ hmem (any_contains_iff.2 hmentions)
    rw [hρ', Except.ok.injEq, and_iff_left hfree, ← hbindings]
    exact ⟨fun h => h ▸ rfl, fun h => (ext_bindings h).symm⟩
  | some p =>
    obtain ⟨-, -, -, hblocked, -, -⟩ := find?_composedBindings_iff.1 hfound
    rw [compose_eq_error hfound]
    exact iff_of_false nofun fun h => h.2 p.1 hblocked

theorem compose_eq_error_iff {cause : Error} :
    σ.compose τ = .error cause ↔
      ∃ before v after, σ.domainInTurn τ = before ++ v :: after ∧ σ.Blocked τ v ∧
        (∀ w ∈ before, ¬σ.Blocked τ w) ∧
        cause = .unrepresentableComposition v (σ.inTurn τ v) := by
  constructor
  · intro h
    cases hfound : (σ.composedBindings τ).find? fun p =>
        (σ.composedBindings τ).keys.any (p.2.contains ·) with
    | none =>
      obtain ⟨ρ, hρ, -⟩ := compose_eq_ok hfound
      rw [hρ] at h
      cases h
    | some p =>
      rw [compose_eq_error hfound] at h
      cases h
      obtain ⟨before, after, horder, hblocked, hbefore, hvalue⟩ := find?_composedBindings_iff.1 hfound
      exact ⟨before, p.1, after, horder, hblocked, hbefore, by rw [hvalue]⟩
  · intro h
    obtain ⟨before, v, after, horder, hblocked, hbefore, rfl⟩ := h
    exact compose_eq_error
      (find?_composedBindings_iff.2 ⟨before, after, horder, hblocked, hbefore, rfl⟩)

/-- Without a blocked variable there is a composition. -/
theorem exists_compose_of_not_blocked (h : ∀ v, ¬σ.Blocked τ v) : ∃ ρ, σ.compose τ = .ok ρ := by
  cases hcompose : σ.compose τ with
  | ok ρ => exact ⟨ρ, rfl⟩
  | error cause =>
    obtain ⟨-, v, -, -, hblocked, -⟩ := compose_eq_error_iff.1 hcompose
    exact absurd hblocked (h v)

/-! ## What a composition does -/

theorem represents_of_bindings (hρ : ρ.bindings = σ.composedBindings τ)
    (hfree : ∀ v, ¬σ.Blocked τ v) : ρ.Represents σ τ := by
  have hlookup {v : Variable} (hv : σ.inTurn τ v = .var v) : ρ.lookup? v = none := by
    rw [lookup?, VariableMap.lookup?_eq_none_iff, hρ, mem_keys_composedBindings]
    exact not_not_intro hv
  rw [represents_iff]
  intro v
  by_cases hv : σ.inTurn τ v = .var v
  · rw [hv, value_of_unbound (hlookup hv)]
  · have hbound : ρ.lookup? v = some (σ.inTurn τ v) := by
      rw [lookup?, VariableMap.lookup?_eq_some_iff ρ.nodup, hρ, mem_composedBindings]
      exact ⟨rfl, hv⟩
    rw [value_of_lookup? hbound]
    refine Term.replace_eq_self fun w hw => hlookup ?_
    by_contra hmoved
    exact hfree v ⟨hv, w, hw, hmoved⟩

theorem represents_of_compose (h : σ.compose τ = .ok ρ) : ρ.Represents σ τ := by
  obtain ⟨hρ, hfree⟩ := compose_eq_ok_iff.1 h
  exact represents_of_bindings hρ hfree

/-- A composition replaces as its two parts do in turn, in formulas with their
truth values too.  It binds no variable to itself and mentions no bound one. -/
theorem compose_replaces_in_turn (h : σ.compose τ = .ok ρ) :
    (∀ t : Term, t.replace ρ = (t.replace σ).replace τ) ∧
      (∀ f : Formula, f.replace ρ = (f.replace σ).replace τ) ∧
      (∀ p ∈ ρ.bindings, ∀ v ∈ ρ.domain, v ∉ p.2) ∧ ∀ v, (v, .var v) ∉ ρ.bindings := by
  obtain ⟨hρ, hfree⟩ := compose_eq_ok_iff.1 h
  have hterms : ρ.Represents σ τ := represents_of_bindings hρ hfree
  refine ⟨hterms, hterms.formula, ?_, ?_⟩
  · intro p hp v hv hmem
    rw [hρ] at hp
    rw [domain, hρ, mem_keys_composedBindings] at hv
    obtain ⟨hvalue, hmoved⟩ := mem_composedBindings.1 hp
    exact hfree p.1 ⟨hvalue ▸ hmoved, v, hvalue ▸ hmem, hv⟩
  · intro v hv
    rw [hρ] at hv
    exact (mem_composedBindings.1 hv).2 rfl

/-- The first part is a chain, and the second brings back a variable that it replaces. -/
theorem compose_replaces_in_turn_chain :
    ∃ σ τ ρ : Substitution,
      σ.bindings = [(Sample.x, .var Sample.y), (Sample.z, .app Sample.f [.var Sample.x])] ∧
      τ.bindings = [(Sample.y, .var Sample.x)] ∧
      ρ.bindings = [(Sample.z, .app Sample.f [.var Sample.x]), (Sample.y, .var Sample.x)] ∧
      σ.compose τ = .ok ρ ∧
      (∀ t : Term, t.replace ρ = (t.replace σ).replace τ) ∧
      (∀ f : Formula, f.replace ρ = (f.replace σ).replace τ) ∧
      (∀ p ∈ ρ.bindings, ∀ v ∈ ρ.domain, v ∉ p.2) ∧ ∀ v, (v, .var v) ∉ ρ.bindings := by
  let chain : Bindings := [(Sample.x, .var Sample.y), (Sample.z, .app Sample.f [.var Sample.x])]
  let back : Bindings := [(Sample.y, .var Sample.x)]
  let composed : Bindings := [(Sample.z, .app Sample.f [.var Sample.x]), (Sample.y, .var Sample.x)]
  have hchain : Ends (Bindings.addAll? · [] chain) (.ok chain) := .of_depth 6 fun _ => rfl
  have hback : Ends (Bindings.addAll? · [] back) (.ok back) := .of_depth 6 fun _ => rfl
  have hrun : Ends (Bindings.compose? · chain back) (.ok composed) := .of_depth 6 fun _ => rfl
  obtain ⟨σ, hσ⟩ := (Bindings.Reachable.ofBindings hchain).exists_substitution
  obtain ⟨τ, hτ⟩ := (Bindings.Reachable.ofBindings hback).exists_substitution
  rw [← hσ, ← hτ] at hrun
  have hcompose := (Bindings.compose?_bindings σ τ).unique hrun
  cases h : σ.compose τ with
  | error cause =>
    rw [h] at hcompose
    cases hcompose
  | ok ρ =>
    rw [h] at hcompose
    exact ⟨σ, τ, ρ, hσ, hτ, Except.ok.inj hcompose, h, compose_replaces_in_turn h⟩

/-! ## When there is none -/

/-- A composition is refused exactly where no substitution acts as the two in
turn, for the first variable in order that such a substitution could not move. -/
theorem compose_refused_iff (σ τ : Substitution) :
    ((∃ cause, σ.compose τ = .error cause) ↔
      ¬∃ ρ : Substitution, ∀ t : Term, t.replace ρ = (t.replace σ).replace τ) ∧
    ∀ cause, σ.compose τ = .error cause ↔
      ∃ before v after, σ.domainInTurn τ = before ++ v :: after ∧ σ.Blocked τ v ∧
        (∀ w ∈ before, ¬σ.Blocked τ w) ∧
        cause = .unrepresentableComposition v (σ.inTurn τ v) := by
  refine ⟨?_, fun cause => compose_eq_error_iff⟩
  constructor
  · intro hrefused hexists
    obtain ⟨cause, hcause⟩ := hrefused
    obtain ⟨ρ, hρ⟩ := hexists
    obtain ⟨-, v, -, -, hblocked, -, -⟩ := compose_eq_error_iff.1 hcause
    exact Represents.not_blocked hρ v hblocked
  · intro hnone
    cases h : σ.compose τ with
    | error cause => exact ⟨cause, rfl⟩
    | ok ρ =>
      obtain ⟨hρ, hfree⟩ := compose_eq_ok_iff.1 h
      exact absurd ⟨ρ, represents_of_bindings hρ hfree⟩ hnone

end Substitution
end Unification
