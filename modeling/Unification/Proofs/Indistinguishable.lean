import Unification.Proofs.Agreement

/-!
# Truth values make no difference

Unification goes through two formulas and looks at connectives, predicate symbols and
arguments.  The only thing that it writes out is the text of two formulas of different
kinds, and no value is part of a text (`Formula.display_forget`).  So a run on formulas
whose values have been forgotten is the run on the formulas themselves, with the answers
and the failures that this has.

Two formulas that differ in anything else are told apart by some unification
(`Formula.equiv_iff_unify_eq`): what cannot be observed in this way is exactly the values.
-/

namespace Unification

namespace Formula

theorem display_operator (k : Connective) (fs : List Formula) (v : TruthValue) :
    (operator k fs v).display = "(" ++ k.name ++ displayAll fs ++ ")" := rfl

/-- What keeps the text of every operand keeps the text of all. -/
theorem displayAll_map {change : Formula → Formula} {fs : List Formula}
    (h : ∀ f ∈ fs, (change f).display = f.display) :
    displayAll (fs.map change) = displayAll fs := by
  induction fs with
  | nil => rfl
  | cons f fs ih =>
    obtain ⟨hf, hfs⟩ := List.forall_mem_cons.1 h
    rw [List.map_cons, displayAll, displayAll, hf, ih hfs]

/-- No value is part of a text. -/
theorem display_forget (f : Formula) : f.forget.display = f.display := by
  induction f with
  | predicate p args v => cases args <;> rfl
  | operator k fs v ih =>
    rw [forget, forgetAll_eq, display_operator, display_operator, displayAll_map ih]

variable {f f' g g' : Formula} {cause : UnificationError}

theorem Clash.forget (h : Clash f g cause) : Clash f.forget g.forget cause := by
  cases h with
  | symbols hp => exact .symbols hp
  | arguments hlen => exact .arguments hlen
  | connectives hk => exact .connectives hk
  | @operands k fs gs a b hlen =>
    have hforget : (fs.map Formula.forget).length ≠ (gs.map Formula.forget).length := by
      rwa [List.length_map, List.length_map]
    have hclash := Clash.operands (k := k) (a := .unknown) (b := .unknown) hforget
    rw [List.length_map, List.length_map] at hclash
    rwa [Formula.forget, Formula.forget, forgetAll_eq, forgetAll_eq]
  | @predicateOperator p ss a l gs b =>
    rw [← display_forget (predicate p ss a), ← display_forget (operator l gs b)]
    exact .predicateOperator
  | @operatorPredicate k fs a q ts b =>
    rw [← display_forget (operator k fs a), ← display_forget (predicate q ts b)]
    exact .operatorPredicate

theorem problem_forget (f g : Formula) : f.forget.problem g.forget = f.problem g := by
  induction f, g using pair_induction with
  | clash f g cause h => rw [problem_of_clash h, problem_of_clash h.forget]
  | predicates p ss ts a b hlen =>
    rw [forget, forget, problem_predicates hlen, problem_predicates hlen]
  | operators k fs gs a b h =>
    have hlen : (fs.map forget).length = (gs.map forget).length := by
      rw [List.length_map, List.length_map, h.length_eq]
    rw [forget, forget, forgetAll_eq, forgetAll_eq, problem_operators hlen,
      problem_operators h.length_eq]
    clear hlen
    induction h with
    | nil => rfl
    | cons hfg _ ih => rw [List.map_cons, List.map_cons, problemAll, problemAll, hfg, ih]

theorem unify_forget (σ : Substitution) (f g : Formula) :
    f.forget.unify σ g.forget = f.unify σ g := by
  rw [← solve_problem, ← solve_problem, problem_forget]

end Formula

namespace Bindings

open Formula

/-- The same holds step by step, whatever the bindings are. -/
theorem unifyFormulas?_forget (depth : Nat) (b : Bindings) (f g : Formula) :
    unifyFormulas? depth b f.forget g.forget = unifyFormulas? depth b f g := by
  induction depth generalizing b f g with
  | zero => rfl
  | succ depth ih =>
    induction f, g using pair_induction with
    | clash f g cause h => rw [unifyFormulas?_of_clash h, unifyFormulas?_of_clash h.forget]
    | predicates p ss ts a b hlen => rfl
    | operators k fs gs a b h =>
      rw [forget, forget, forgetAll_eq, forgetAll_eq, unifyFormulas?, unifyFormulas?,
        List.length_map, List.length_map, List.zip_map, thread_map]
      simp only [Prod.map_fst, Prod.map_snd, ih]

end Bindings

namespace Formula

variable {f f' : Formula}

theorem subst_var_equiv (f : Formula) : f.subst .var ≈ f := by
  induction f with
  | predicate p args v =>
    rw [subst_predicate, predicate_equiv_predicate, List.map_congr_left fun t _ => t.subst_id,
      List.map_id']
    exact ⟨rfl, rfl⟩
  | operator k fs v ih =>
    rw [subst_operator, connect, operator_equiv_operator, List.map_map]
    exact ⟨rfl, List.map_congr_left ih⟩

/-- Formulas that unify alike with everything are equal but for their values: each is unified
with the other as it would be with itself, for nothing. -/
theorem equiv_of_forall_unify_eq (h : ∀ σ g, f.unify σ g = f'.unify σ g) : f ≈ f' := by
  have hself : f.unify ∅ f = .ok ∅ := Pair.unify_of_agree_value (p := .formulas f f) rfl
  have hother : (Pair.formulas f' f).unify ∅ = .ok ∅ := (h ∅ f).symm.trans hself
  have hagree : f'.subst (∅ : Substitution).value ≈ f.subst (∅ : Substitution).value :=
    (Pair.solvedBy_value_of_unify hother).2
  have hvalue : (∅ : Substitution).value = .var :=
    funext fun v => Substitution.value_of_unbound rfl
  rw [hvalue] at hagree
  exact (f'.subst_var_equiv.symm.trans (hagree.trans f.subst_var_equiv)).symm

/-- Two formulas differ in nothing but truth values exactly where unification cannot tell
them apart.  On top of any substitution, and with any formula or another that differs from
it in values, both give the same bindings in the same order or the same failure with the
same contents, and so they do step by step on any bindings. -/
theorem equiv_iff_unify_eq :
    f ≈ f' ↔ ∀ g g' : Formula, g ≈ g' →
      (∀ σ, f.unify σ g = f'.unify σ g') ∧
        ∀ depth b, Bindings.unifyFormulas? depth b f g = Bindings.unifyFormulas? depth b f' g' := by
  constructor
  · intro hf g g' hg
    rw [equiv_iff] at hf hg
    refine ⟨fun σ => ?_, fun depth b => ?_⟩
    · rw [← unify_forget, hf, hg, unify_forget]
    · rw [← Bindings.unifyFormulas?_forget, hf, hg, Bindings.unifyFormulas?_forget]
  · intro h
    exact equiv_of_forall_unify_eq fun σ g => (h g g (Setoid.refl g)).1 σ

/-- A true conjunction and a false one of the same text, each against the same predicate. -/
theorem equiv_iff_unify_eq_mismatch :
    let f (v : TruthValue) : Formula := .and [.predicate Sample.p [.var Sample.x] v]
    let g (v : TruthValue) : Formula := .predicate Sample.p [.const Sample.a] v
    f .true ≈ f .false ∧ g .unknown ≈ g .true ∧ (f .true).value ≠ (f .false).value ∧
      (f .true).unify Sample.bound (g .unknown) = (f .false).unify Sample.bound (g .true) ∧
      (f .true).unify Sample.bound (g .unknown) =
        .error (.variantMismatch "(and p(X))" "p(a)") := by
  intro f g
  have hf : f .true ≈ f .false := rfl
  have hg : g .unknown ≈ g .true := rfl
  exact ⟨hf, hg, by decide, (equiv_iff_unify_eq.1 hf _ _ hg).1 Sample.bound, rfl⟩

end Formula
end Unification
