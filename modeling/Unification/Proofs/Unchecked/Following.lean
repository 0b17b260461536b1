import Unification.Proofs.Unchecked.Basic

/-!
# Following unchecked bindings to the end

On the bindings of a substitution following ends, and it ends with the answer of
the same operation on the substitution.  The induction is along the bindings:
what is known at the variables of a term is known at the term.
-/

namespace Unification
namespace Bindings

variable {σ : Substitution}

theorem resolve?_bindings (σ : Substitution) (t : Term) :
    Ends (σ.bindings.resolve? · t) (σ.resolve t) := by
  have hvar (v : Variable) : Ends (σ.bindings.resolve? · (.var v)) (σ.resolveVariable v) := by
    induction v using σ.bound_induction with
    | unbound v hv =>
      rw [Substitution.resolveVariable_of_unbound hv]
      exact resolve?_unbound hv
    | bound v t ht ih =>
      rw [Substitution.resolveVariable_of_lookup? ht]
      apply resolve?_bound ht
      cases t with
      | var w => exact ih w (Term.mem_var.2 rfl)
      | const c => exact resolve?_of_not_variable rfl
      | app f args => exact resolve?_of_not_variable rfl
  cases t with
  | var v => exact hvar v
  | const c => exact resolve?_of_not_variable rfl
  | app f args => exact resolve?_of_not_variable rfl

/-- A search that is answered at the variables of a term is answered at the term. -/
theorem reaches?_of_vars {v : Variable} {t : Term}
    (h : ∀ w ∈ t, Ends (σ.bindings.reaches? v · (.var w)) (σ.leadsTo v w)) :
    Ends (σ.bindings.reaches? v · t) (σ.reaches v t) := by
  induction t with
  | var w =>
    have hvar : σ.reaches v (.var w) = σ.leadsTo v w := by
      rw [Bool.eq_iff_iff, Substitution.reaches_eq_true_iff]
      simp
    rw [hvar]
    exact h w (Term.mem_var.2 rfl)
  | const c => exact .of_answer fun _ => rfl
  | app f args ih =>
    have happ : σ.reaches v (.app f args) = args.any (σ.reaches v) := by
      rw [Bool.eq_iff_iff, Substitution.reaches_eq_true_iff]
      simp only [Term.mem_app, List.any_eq_true, Substitution.reaches_eq_true_iff]
      constructor
      · rintro ⟨w, ⟨t, ht, hw⟩, hv⟩
        exact ⟨t, ht, w, hw, hv⟩
      · rintro ⟨t, ht, w, hw, hv⟩
        exact ⟨w, ⟨t, ht, hw⟩, hv⟩
    have hargs : Ends (fun depth => args.anyM (σ.bindings.reaches? v depth))
        (args.any (σ.reaches v)) :=
      .anyM fun t ht => ih t ht fun w hw => h w (Term.mem_app.2 ⟨t, ht, hw⟩)
    rw [happ]
    exact .of_call (fun _ => by rw [reaches?]) hargs

theorem reaches?_bindings (σ : Substitution) (v : Variable) (t : Term) :
    Ends (σ.bindings.reaches? v · t) (σ.reaches v t) := by
  have hvar (w : Variable) : Ends (σ.bindings.reaches? v · (.var w)) (σ.leadsTo v w) := by
    by_cases hne : w = v
    · rw [hne, Substitution.leadsTo_self]
      exact reaches?_self σ.bindings v
    · induction w using σ.bound_induction with
      | unbound w hw =>
        rw [Substitution.leadsTo_eq, hw, decide_eq_false hne, Bool.false_or]
        exact reaches?_unbound hne hw
      | bound w t ht ih =>
        rw [Substitution.leadsTo_eq, ht, decide_eq_false hne, Bool.false_or]
        refine reaches?_bound hne ht (reaches?_of_vars fun u hu => ?_)
        by_cases hu' : u = v
        · rw [hu', Substitution.leadsTo_self]
          exact reaches?_self σ.bindings v
        · exact ih u hu hu'
  exact reaches?_of_vars fun w _ => hvar w

theorem replace?_of_vars {b : Bindings} {θ : Variable → Term} {t : Term}
    (h : ∀ w ∈ t, Ends (b.replace? · (.var w)) (θ w)) : Ends (b.replace? · t) (t.subst θ) := by
  induction t with
  | var w => exact h w (Term.mem_var.2 rfl)
  | const c => exact .of_answer fun _ => rfl
  | app f args ih =>
    have hargs : Ends (fun depth => args.mapM (b.replace? depth)) (args.map (Term.subst θ)) :=
      .mapM fun t ht => ih t ht fun w hw => h w (Term.mem_app.2 ⟨t, ht, hw⟩)
    rw [Term.subst_app]
    exact .of_call (fun _ => by rw [replace?]) (hargs.map (Term.app f))

theorem replace?_bindings (σ : Substitution) (t : Term) :
    Ends (σ.bindings.replace? · t) (t.replace σ) := by
  have hvar (w : Variable) : Ends (σ.bindings.replace? · (.var w)) (σ.value w) := by
    induction w using σ.bound_induction with
    | unbound w hw =>
      rw [Substitution.value_of_unbound hw]
      exact replace?_unbound hw
    | bound w t ht ih =>
      rw [Substitution.value_of_lookup? ht]
      exact replace?_bound ht (replace?_of_vars ih)
  exact replace?_of_vars fun w _ => hvar w

theorem replaceFormula?_bindings (σ : Substitution) (f : Formula) :
    Ends (σ.bindings.replaceFormula? · f) (f.replace σ) := by
  induction f with
  | predicate p args value =>
    have hargs : Ends (fun depth => args.mapM (σ.bindings.replace? depth))
        (args.map (Term.subst σ.value)) := .mapM fun t _ => replace?_bindings σ t
    rw [Formula.replace, Formula.subst_predicate]
    exact .of_call (fun _ => by rw [replaceFormula?]) (hargs.map (Formula.predicate p · value))
  | operator k operands value ih =>
    have hoperands : Ends (fun depth => operands.mapM (σ.bindings.replaceFormula? depth))
        (operands.map (Formula.subst σ.value)) := .mapM ih
    rw [Formula.replace, Formula.subst_operator]
    exact .of_call (fun _ => by rw [replaceFormula?]) (hoperands.map (Formula.connect k))

end Bindings
end Unification
