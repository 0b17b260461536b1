import Unification.Proofs.Lockstep
import Unification.Proofs.Relevance
import Unification.Proofs.RenamedCopy
import Unification.Proofs.Unchecked.Unifying

/-!
# Elimination

What unification adds is about the variables that the two expressions have left once the
old bindings are followed.  It binds some of these and invents none, so the expressions
are left with the others afterwards: every added binding eliminates one variable
(`unify_eliminates`).
-/

namespace Unification

namespace Formula

/-- The sides of an equation are parts of the formulas on their side. -/
theorem mem_occurrences_of_mem_problem {f g : Formula} {e : Equation}
    (he : e ∈ (f.problem g).equations) :
    (∀ v ∈ e.1, v ∈ f.occurrences) ∧ ∀ v ∈ e.2, v ∈ g.occurrences := by
  induction f, g using pair_induction with
  | clash f g cause h =>
    rw [problem_of_clash h] at he
    exact absurd he List.not_mem_nil
  | predicates p ss ts a b hlen =>
    rw [problem_predicates hlen] at he
    obtain ⟨hl, hr⟩ := List.of_mem_zip he
    simp only [occurrences, Term.occurrencesAll_eq, List.mem_flatMap]
    exact ⟨fun v hv => ⟨e.1, hl, Term.mem_occurrences.2 hv⟩,
      fun v hv => ⟨e.2, hr, Term.mem_occurrences.2 hv⟩⟩
  | operators k fs gs a b h =>
    rw [problem_operators h.length_eq] at he
    simp only [occurrences]
    induction h with
    | nil => exact absurd he List.not_mem_nil
    | cons hfg _ ih =>
      simp only [occurrencesAll, List.mem_append]
      rcases Problem.mem_andThen he with he | he
      · exact (hfg he).imp (fun h v hv => .inl (h v hv)) fun h v hv => .inl (h v hv)
      · exact (ih he).imp (fun h v hv => .inr (h v hv)) fun h v hv => .inr (h v hv)

end Formula

namespace Expression

variable {e : Expression} {σ : Substitution} {w : Variable}

theorem mem_vars_replace : w ∈ (e.replace σ).vars ↔ ∃ v ∈ e.vars, w ∈ σ.value v := by
  simp only [mem_vars, replace_eq_subst, occurrences_subst, List.mem_flatMap, Term.mem_occurrences]

end Expression

namespace Pair

variable {p : Pair} {σ τ : Substitution} {v w : Variable}

/-- The distinct variables of both expressions. -/
def vars (p : Pair) : List Variable := p.left.vars ∪ p.right.vars

theorem nodup_vars (p : Pair) : p.vars.Nodup := p.right.nodup_vars.union p.left.vars

theorem mem_vars : v ∈ p.vars ↔ v ∈ p.left.occurrences ∨ v ∈ p.right.occurrences := by
  rw [vars, List.mem_union_iff, Expression.mem_vars, Expression.mem_vars]

theorem left_replace (p : Pair) (σ : Substitution) : (p.replace σ).left = p.left.replace σ := by
  cases p <;> rfl

theorem right_replace (p : Pair) (σ : Substitution) : (p.replace σ).right = p.right.replace σ := by
  cases p <;> rfl

theorem mem_vars_replace : w ∈ (p.replace σ).vars ↔ ∃ v ∈ p.vars, w ∈ σ.value v := by
  simp only [vars, List.mem_union_iff, left_replace, right_replace, Expression.mem_vars_replace,
    or_and_right, exists_or]

theorem mem_vars_of_mem_problem {e : Equation} (he : e ∈ p.problem.equations)
    (hv : v ∈ e.1 ∨ v ∈ e.2) : v ∈ p.vars := by
  rw [mem_vars]
  cases p with
  | terms s t =>
    rw [List.mem_singleton.1 he] at hv
    exact hv.imp Term.mem_occurrences.2 Term.mem_occurrences.2
  | formulas f g =>
    have hsides := Formula.mem_occurrences_of_mem_problem he
    exact hv.imp (hsides.1 v) (hsides.2 v)

/-- The equations of a pair are about the variables that its expressions have left. -/
theorem concerns_problem (σ : Substitution) (p : Pair) :
    ∀ e ∈ p.problem.equations, σ.Concerns (· ∈ (p.replace σ).vars) e := by
  intro e he w hw
  have hreplaced : e.replace σ ∈ (p.replace σ).problem.equations := by
    rw [(p.problem_follows_replace σ).1]
    exact List.mem_map_of_mem he
  exact mem_vars_of_mem_problem hreplaced hw

theorem adds_of_unify (h : p.unify σ = .ok τ) :
    Substitution.Adds (· ∈ (p.replace σ).vars) σ τ := by
  rw [← solve_problem, Problem.solve_eq_ok_iff] at h
  exact Substitution.solve_adds h.1 (p.concerns_problem σ)

/-- Where variables have been followed to the end, the bound ones are gone. -/
theorem unbound_of_mem_vars_replace (hw : w ∈ (p.replace σ).vars) : σ.lookup? w = none := by
  obtain ⟨v, -, hw⟩ := mem_vars_replace.1 hw
  exact Term.unbound_of_mem_value hw

/-- What is left of the variables is what has not been bound. -/
theorem mem_vars_replace_of_unify (h : p.unify σ = .ok τ) :
    w ∈ (p.replace τ).vars ↔ w ∈ (p.replace σ).vars ∧ τ.lookup? w = none := by
  have hadds := adds_of_unify h
  have hsolved : σ.SolvedBy τ.value := (solvedBy_value_of_unify h).1
  constructor
  · intro hw
    refine ⟨?_, unbound_of_mem_vars_replace hw⟩
    obtain ⟨v, hv, hw⟩ := mem_vars_replace.1 hw
    exact Substitution.Adds.mem_of_mem_value hadds
      (fun x hx => mem_vars_replace.2 ⟨v, hv, hx⟩) hw
  · rintro ⟨hw, hunbound⟩
    obtain ⟨v, hv, hw⟩ := mem_vars_replace.1 hw
    refine mem_vars_replace.2 ⟨v, hv, ?_⟩
    rw [← hsolved.subst_value v, Term.mem_subst]
    refine ⟨w, hw, ?_⟩
    rw [Substitution.value_of_unbound hunbound, Term.mem_var]

/-- Unification puts bindings after those that there are.  They bind variables that the
expressions have left, to terms about such variables, and what is left afterwards are the
others, so each binding takes one variable away. -/
theorem unify_eliminates (h : p.unify σ = .ok τ) :
    ∃ added : Bindings, τ.bindings = σ.bindings ++ added ∧
      (∀ v t, (v, t) ∈ added → v ∈ (p.replace σ).vars ∧ σ.lookup? v = none ∧
        ∀ w ∈ t.replace σ, w ∈ (p.replace σ).vars) ∧
      (∀ w, w ∈ (p.replace τ).vars ↔ w ∈ (p.replace σ).vars ∧ w ∉ added.keys) ∧
      (p.replace τ).vars.length + added.length = (p.replace σ).vars.length := by
  obtain ⟨added, hadded, hrelevant⟩ := adds_of_unify h
  have hkey {v : Variable} (hv : v ∈ added.keys) : v ∈ (p.replace σ).vars := by
    obtain ⟨b, hb, rfl⟩ := List.mem_map.1 hv
    exact (hrelevant b hb).1
  have hleft (w : Variable) :
      w ∈ (p.replace τ).vars ↔ w ∈ (p.replace σ).vars ∧ w ∉ added.keys := by
    rw [mem_vars_replace_of_unify h]
    refine and_congr_right fun hw => ?_
    rw [Substitution.lookup?_of_append hadded, unbound_of_mem_vars_replace hw, Option.none_or,
      VariableMap.lookup?_eq_none_iff]
  have hnodup : added.keys.Nodup := by
    have hτ := τ.nodup
    rw [hadded, VariableMap.keys_append] at hτ
    exact hτ.of_append_right
  -- What is left and what has been bound make up what there was, with nothing in both.
  have hperm : ((p.replace τ).vars ++ added.keys).Perm (p.replace σ).vars := by
    have hdisjoint : List.Disjoint (p.replace τ).vars added.keys :=
      fun w hw => ((hleft w).1 hw).2
    refine (List.perm_ext_iff_of_nodup ((nodup_vars _).append hnodup hdisjoint)
      (nodup_vars _)).2 fun w => ?_
    rw [List.mem_append, hleft]
    by_cases hw : w ∈ added.keys
    · exact iff_of_true (.inr hw) (hkey hw)
    · simp only [hw, not_false_eq_true, and_true, or_false]
  refine ⟨added, hadded, fun v t hvt => ?_, hleft, ?_⟩
  · obtain ⟨hv, ht⟩ := hrelevant (v, t) hvt
    exact ⟨hv, unbound_of_mem_vars_replace hv, ht⟩
  · rw [← hperm.length_eq, List.length_append, VariableMap.keys, List.length_map]

/-- `X` is bound to `f(Y)`, so `X` and `f(Z)` come to `Y` and `Z`, and nothing is left to do
for these two. -/
theorem unify_eliminates_once :
    let p : Pair := .terms (.app Sample.f [.var Sample.x, .var Sample.y])
      (.app Sample.f [.app Sample.f [.var Sample.z], .var Sample.z])
    ∃ τ, p.unify Sample.bound = .ok τ ∧
      τ.bindings = Sample.bound.bindings ++ [(Sample.y, .var Sample.z)] ∧
      (∀ w, w ∈ (p.replace τ).vars ↔ w ∈ (p.replace Sample.bound).vars ∧ w ≠ Sample.y) ∧
      (p.replace τ).vars.length + 1 = (p.replace Sample.bound).vars.length := by
  intro p
  have hrun : Ends (Bindings.unify? · Sample.bound.bindings p)
      (.ok (Sample.bound.bindings ++ [(Sample.y, .var Sample.z)])) := .of_depth 8 fun _ => rfl
  obtain ⟨τ, hτ, hbindings⟩ := Bindings.exists_unify_of_ends hrun
  obtain ⟨added, hadded, -, hleft, hlength⟩ := unify_eliminates hτ
  have honly : added = [(Sample.y, .var Sample.z)] :=
    (List.append_cancel_left (hbindings.symm.trans hadded)).symm
  subst honly
  refine ⟨τ, hτ, hbindings, fun w => ?_, hlength⟩
  rw [hleft w, VariableMap.keys, List.map_singleton, List.mem_singleton]

end Pair
end Unification
