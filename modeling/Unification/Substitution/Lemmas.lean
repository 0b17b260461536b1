import Unification.Substitution.Basic

/-!
# Lemmas about following bindings

The recursions of `Substitution.Basic` unfold to the equations one expects:
an unbound variable stands for itself and a bound one for what its term stands
for.  Replacement therefore leaves no bound variable (`unbound_of_mem_replace`),
repeating it changes nothing (`replace_replace`), and resolving first makes no
difference to it (`replace_resolve`).

`replace_bind` says what one more binding does: replace as before, then put the
new term in the place of the new variable.
-/

namespace Unification

namespace Substitution

variable {σ : Substitution}

theorem value_of_unbound {v : Variable} (h : σ.lookup? v = none) : σ.value v = .var v := by
  unfold value
  split
  · rfl
  · next t ht => cases h.symm.trans ht

theorem value_of_lookup? {v : Variable} {t : Term} (h : σ.lookup? v = some t) :
    σ.value v = t.replace σ := by
  unfold value
  split
  · next hn => cases hn.symm.trans h
  · next ht =>
    cases ht.symm.trans h
    exact Term.substOn_eq t σ.value

theorem resolveVariable_of_unbound {v : Variable} (h : σ.lookup? v = none) :
    σ.resolveVariable v = .var v := by
  unfold resolveVariable
  split
  · rfl
  · next w hw => cases h.symm.trans hw
  · next t _ ht => cases h.symm.trans ht

theorem resolveVariable_of_lookup? {v : Variable} {t : Term} (h : σ.lookup? v = some t) :
    σ.resolveVariable v = σ.resolve t := by
  unfold resolveVariable
  split
  · next hn => cases hn.symm.trans h
  · next w hw => cases hw.symm.trans h; rfl
  · next hvar ht =>
    cases ht.symm.trans h
    cases t with
    | var w => exact absurd rfl (hvar w)
    | const c => rfl
    | app f args => rfl

theorem value_eq (σ : Substitution) (v : Variable) :
    σ.value v =
      match σ.lookup? v with
      | none => .var v
      | some t => t.replace σ := by
  split
  · next h => exact value_of_unbound h
  · next h => exact value_of_lookup? h

theorem resolveVariable_eq (σ : Substitution) (v : Variable) :
    σ.resolveVariable v =
      match σ.lookup? v with
      | none => .var v
      | some t => σ.resolve t := by
  split
  · next h => exact resolveVariable_of_unbound h
  · next h => exact resolveVariable_of_lookup? h

/-- To prove a property of every variable, prove it of the unbound ones, and of
a bound one from the variables of its term. -/
theorem bound_induction (σ : Substitution) {motive : Variable → Prop}
    (unbound : ∀ v, σ.lookup? v = none → motive v)
    (bound : ∀ v t, σ.lookup? v = some t → (∀ w ∈ t, motive w) → motive v) (v : Variable) :
    motive v := by
  induction v using σ.acyclic.induction with
  | h v ih =>
    cases h : σ.lookup? v with
    | none => exact unbound v h
    | some t => exact bound v t h (fun w hw => ih w ⟨t, h, hw⟩)

end Substitution

namespace Term

variable {σ : Substitution}

@[simp] theorem replace_var (σ : Substitution) (v : Variable) : (Term.var v).replace σ = σ.value v :=
  rfl

@[simp] theorem replace_const (σ : Substitution) (c : Symbol) :
    (Term.const c).replace σ = .const c := rfl

@[simp] theorem replace_app (σ : Substitution) (f : Symbol) (args : List Term) :
    (Term.app f args).replace σ = .app f (args.map (·.replace σ)) :=
  subst_app σ.value f args

@[simp] theorem replace_empty (t : Term) : t.replace ∅ = t :=
  (subst_congr fun _ _ => Substitution.value_of_unbound rfl).trans (subst_id t)

theorem unbound_of_mem_value {v w : Variable} (h : w ∈ σ.value v) : σ.lookup? w = none := by
  induction v using σ.bound_induction with
  | unbound v hv =>
    rw [Substitution.value_of_unbound hv, mem_var] at h
    exact h ▸ hv
  | bound v t ht ih =>
    rw [Substitution.value_of_lookup? ht] at h
    obtain ⟨u, hu, hw⟩ := mem_subst.1 h
    exact ih u hu hw

/-- No bound variable is left. -/
theorem unbound_of_mem_replace {t : Term} {w : Variable} (h : w ∈ t.replace σ) :
    σ.lookup? w = none := by
  obtain ⟨v, _, hw⟩ := mem_subst.1 h
  exact unbound_of_mem_value hw

/-- A term without bound variables stays as it is. -/
theorem replace_eq_self {t : Term} (h : ∀ v ∈ t, σ.lookup? v = none) : t.replace σ = t :=
  (subst_congr fun v hv => Substitution.value_of_unbound (h v hv)).trans (subst_id t)

theorem replace_replace (t : Term) : (t.replace σ).replace σ = t.replace σ :=
  replace_eq_self fun _ h => unbound_of_mem_replace h

theorem replace_resolve (t : Term) : (σ.resolve t).replace σ = t.replace σ := by
  have hvar (v : Variable) : (σ.resolveVariable v).replace σ = σ.value v := by
    induction v using σ.bound_induction with
    | unbound v hv => rw [Substitution.resolveVariable_of_unbound hv, replace_var]
    | bound v t ht ih =>
      rw [Substitution.resolveVariable_of_lookup? ht, Substitution.value_of_lookup? ht]
      cases t with
      | var w => exact ih w (mem_var.2 rfl)
      | const c => rfl
      | app f args => rfl
  cases t with
  | var v => exact hvar v
  | const c => rfl
  | app f args => rfl

/-- A resolved term is no bound variable. -/
theorem unbound_of_resolve_eq_var {t : Term} {v : Variable} (h : σ.resolve t = .var v) :
    σ.lookup? v = none := by
  have hvar (w : Variable) (h : σ.resolveVariable w = .var v) : σ.lookup? v = none := by
    induction w using σ.bound_induction with
    | unbound w hw =>
      rw [Substitution.resolveVariable_of_unbound hw] at h
      exact Term.var.inj h ▸ hw
    | bound w t ht ih =>
      rw [Substitution.resolveVariable_of_lookup? ht] at h
      cases t with
      | var u => exact ih u (mem_var.2 rfl) h
      | const c => cases h
      | app f args => cases h
  cases t with
  | var w => exact hvar w h
  | const c => cases h
  | app f args => cases h

end Term

namespace Substitution

variable {σ : Substitution}

/-- Where the variable is unbound, a term reaches it exactly when replacement
leaves it in the term. -/
theorem leadsTo_iff_mem_value {v w : Variable} (hv : σ.lookup? v = none) :
    σ.leadsTo v w = true ↔ v ∈ σ.value w := by
  induction w using σ.bound_induction with
  | unbound w hw =>
    rw [value_of_unbound hw, Term.mem_var]
    unfold leadsTo
    rw [Bool.or_eq_true, decide_eq_true_eq]
    constructor
    · rintro (rfl | h)
      · rfl
      · split at h
        · cases h
        · next t ht => cases hw.symm.trans ht
    · rintro rfl
      exact .inl rfl
  | bound w t ht ih =>
    rw [value_of_lookup? ht, Term.replace, Term.mem_subst]
    constructor
    · intro h
      unfold leadsTo at h
      rw [Bool.or_eq_true, decide_eq_true_eq] at h
      rcases h with rfl | h
      · cases hv.symm.trans ht
      · split at h
        · cases h
        · next t' ht' =>
          cases ht'.symm.trans ht
          obtain ⟨⟨u, hu⟩, _, h⟩ := List.any_eq_true.1 h
          have hu' := Term.mem_vars.1 hu
          exact ⟨u, hu', (ih u hu').1 h⟩
    · rintro ⟨u, hu, hvu⟩
      exact leadsTo_of_depends ⟨t, ht, hu⟩ ((ih u hu).2 hvu)

theorem reaches_iff_mem_replace {v : Variable} {t : Term} (hv : σ.lookup? v = none) :
    σ.reaches v t = true ↔ v ∈ t.replace σ := by
  rw [reaches_eq_true_iff, Term.replace, Term.mem_subst]
  exact ⟨fun ⟨w, hw, h⟩ => ⟨w, hw, (leadsTo_iff_mem_value hv).1 h⟩,
    fun ⟨w, hw, h⟩ => ⟨w, hw, (leadsTo_iff_mem_value hv).2 h⟩⟩

/-- The map that moves one variable only. -/
def single (v : Variable) (t : Term) (w : Variable) : Term := if w = v then t else .var w

theorem lookup?_bind {v : Variable} {t : Term} {hv : σ.lookup? v = none}
    {ht : σ.reaches v t = false} (w : Variable) :
    (σ.bind v t hv ht).lookup? w = if w = v then some t else σ.lookup? w := by
  simp only [lookup?, bind, VariableMap.lookup?_append, VariableMap.lookup?_cons, VariableMap.lookup?_nil]
  split
  · next h => rw [h]; simp only [lookup?] at hv; rw [hv, Option.none_or]
  · rw [Option.or_none]

theorem value_bind {v : Variable} {t : Term} {hv : σ.lookup? v = none}
    {ht : σ.reaches v t = false} (w : Variable) :
    (σ.bind v t hv ht).value w = (σ.value w).subst (single v (t.replace σ)) := by
  have hvt : v ∉ t.replace σ := fun h => by
    rw [(reaches_iff_mem_replace hv).2 h] at ht; exact Bool.noConfusion ht
  have hlookup (w : Variable) : (σ.bind v t hv ht).lookup? w = if w = v then some t else σ.lookup? w :=
    lookup?_bind w
  have hnew : (σ.bind v t hv ht).value v = t.replace (σ.bind v t hv ht) :=
    value_of_lookup? ((hlookup v).trans (if_pos rfl))
  -- Away from `v` the two sides agree because the bindings do.
  have hother (w : Variable) (h : v ∉ σ.value w) : (σ.bind v t hv ht).value w = σ.value w := by
    induction w using σ.bound_induction with
    | unbound w hw =>
      rw [value_of_unbound hw, Term.mem_var] at h
      rw [value_of_unbound hw]
      exact value_of_unbound ((hlookup w).trans ((if_neg (Ne.symm h)).trans hw))
    | bound w s hs ih =>
      rw [value_of_lookup? hs] at h
      have hw : w ≠ v := fun e => nomatch (e ▸ hv).symm.trans hs
      rw [value_of_lookup? hs, value_of_lookup? ((hlookup w).trans ((if_neg hw).trans hs))]
      exact Term.subst_congr fun u hu => ih u hu (fun hm => h (Term.mem_subst.2 ⟨u, hu, hm⟩))
  have hterm : t.replace (σ.bind v t hv ht) = t.replace σ :=
    Term.subst_congr fun u hu => hother u (fun hm => hvt (Term.mem_subst.2 ⟨u, hu, hm⟩))
  induction w using σ.bound_induction with
  | unbound w hw =>
    rw [value_of_unbound hw, Term.subst_var, single]
    split
    · next h => rw [h, hnew, hterm]
    · next h => exact value_of_unbound ((hlookup w).trans ((if_neg h).trans hw))
  | bound w s hs ih =>
    have hw : w ≠ v := fun e => nomatch (e ▸ hv).symm.trans hs
    rw [value_of_lookup? hs, value_of_lookup? ((hlookup w).trans ((if_neg hw).trans hs))]
    exact (Term.subst_congr ih).trans (Term.subst_subst _ _ s).symm

end Substitution

/-- Replacing after one more binding is replacing as before and then putting
the new term in the place of the new variable. -/
theorem Term.replace_bind {σ : Substitution} {v : Variable} {t : Term} {hv : σ.lookup? v = none}
    {ht : σ.reaches v t = false} (s : Term) :
    s.replace (σ.bind v t hv ht) = (s.replace σ).subst (Substitution.single v (t.replace σ)) :=
  (subst_congr fun w _ => Substitution.value_bind w).trans (subst_subst _ _ s).symm

end Unification
