import Unification.Proofs.Agreement
import Unification.Proofs.Elimination

/-!
# Reported obstructions

A failure is reported in the middle of a run, on top of whatever bindings the run has made
by then, and the two parts that it names may stand at any depth of the expressions or of
terms that their variables are bound to.  What it says is so all the same, and for the
substitution that the run started from (`failure_genuine`): the parts differ, or are of
different kinds, or the variable is one that the expressions have left and the term, with
every binding followed, contains it properly.

The induction on the run carries along that every equation is about the variables that the
two expressions have left.  Bindings are only added on the way, so what is unbound at the
failure has been so from the start.
-/

namespace Unification

namespace UnificationError

/-- What is reported is so.  The parts of a clash or mismatch differ.  The texts are those of
two expressions of one sort and of different kinds.  The variable of an occurs check is one
in `V` and unbound, and stands below a functor in the term, where no bound variable is left. -/
def Genuine (σ : Substitution) (V : Variable → Prop) : UnificationError → Prop
  | symbolClash l r => l ≠ r
  | arityMismatch m n => m ≠ n
  | variantMismatch l r =>
    (∃ c f args, s(l, r) = s((Term.const c).display, (Term.app f args).display)) ∨
      ∃ p args v k operands w,
        s(l, r) = s((Formula.predicate p args v).display, (Formula.operator k operands w).display)
  | operatorClash k l => k ≠ l
  | occursCheck v t =>
    V v ∧ σ.lookup? v = none ∧ (∃ f args, t = .app f args) ∧ v ∈ t ∧ ∀ w ∈ t, σ.lookup? w = none

variable {σ τ : Substitution} {V : Variable → Prop} {cause : UnificationError}

/-- What is so on top of more bindings is so on top of fewer. -/
theorem Genuine.mono (h : cause.Genuine τ V)
    (hunbound : ∀ v, τ.lookup? v = none → σ.lookup? v = none) : cause.Genuine σ V := by
  cases cause with
  | symbolClash l r => exact h
  | arityMismatch m n => exact h
  | variantMismatch l r => exact h
  | operatorClash k l => exact h
  | occursCheck v t =>
    obtain ⟨hV, hv, happ, hmem, ht⟩ := h
    exact ⟨hV, hunbound v hv, happ, hmem, fun w hw => hunbound w (ht w hw)⟩

end UnificationError

/-! ## Equations -/

namespace Substitution

open UnificationError

variable {σ τ : Substitution} {V : Variable → Prop} {e : Equation} {es : List Equation}
  {cause : UnificationError}

/-- Two terms that are no variables cannot be taken apart only where their heads differ. -/
theorem genuine_of_decompose_eq_error {s t : Term} (h : Equation.decompose s t = .error cause)
    (hs : s.isVariable = false) (ht : t.isVariable = false) : cause.Genuine σ V := by
  rcases Term.eq_const_or_eq_app hs with ⟨c, rfl⟩ | ⟨f, ss, rfl⟩ <;>
    rcases Term.eq_const_or_eq_app ht with ⟨d, rfl⟩ | ⟨g, ts, rfl⟩
  · by_cases hc : c = d
    · rw [Equation.decompose, if_pos hc] at h
      cases h
    · rw [Equation.decompose, if_neg hc] at h
      cases h
      exact hc
  · cases h
    exact .inl ⟨c, g, ts, rfl⟩
  · cases h
    exact .inl ⟨d, f, ss, Sym2.eq_swap⟩
  · by_cases hf : f = g
    · subst hf
      by_cases hlen : ss.length = ts.length
      · rw [Equation.decompose_app_of_length_eq hlen] at h
        cases h
      · rw [Equation.decompose_app_of_length_ne hlen] at h
        cases h
        exact hlen
    · rw [Equation.decompose_app_of_ne hf] at h
      cases h
      exact hf

/-- A term that an unbound variable cannot be bound to is an application once its bindings
have been followed, and has the variable below the functor. -/
theorem exists_app_of_reaches {v : Variable} {t : Term} (hv : σ.lookup? v = none)
    (hresolved : σ.resolve t = t) (hne : t ≠ .var v) (hreaches : σ.reaches v t = true) :
    (∃ f args, t.replace σ = .app f args) ∧ v ∈ t.replace σ := by
  have hmem : v ∈ t.replace σ := (reaches_iff_mem_replace hv).1 hreaches
  refine ⟨?_, hmem⟩
  cases ht : t.replace σ with
  | app f args => exact ⟨f, args, rfl⟩
  | const c =>
    rw [ht] at hmem
    exact absurd hmem Term.not_mem_const
  | var w =>
    rw [ht, Term.mem_var] at hmem
    have hvar : t = .var w := hresolved.symm.trans (resolve_eq_var_iff.2 ht)
    exact absurd (hmem ▸ hvar) hne

theorem genuine_of_reduce_eq_error (h : σ.reduce e = .error cause) (he : σ.Concerns V e) :
    cause.Genuine σ V := by
  rcases reduce_eq_error h with ⟨v, t, hsides, hresolved, hne, hv, hreaches, rfl⟩ | ⟨hl, hr, hd⟩
  · obtain ⟨happ, hmem⟩ := exists_app_of_reaches hv hresolved hne hreaches
    exact ⟨(he.of_sides hv hsides).1, hv, happ, hmem, fun w hw => Term.unbound_of_mem_replace hw⟩
  · rcases hd with hd | hd
    · exact genuine_of_decompose_eq_error hd hl hr
    · exact genuine_of_decompose_eq_error hd hr hl

theorem unbound_of_reduce {v : Variable} (h : σ.reduce e = .ok (τ, es))
    (hv : τ.lookup? v = none) : σ.lookup? v = none := by
  rcases reduce_eq_ok h with ⟨-, rfl, -⟩ | ⟨w, t, hw, ht, -, rfl, -⟩ | ⟨-, rfl⟩
  · exact hv
  · rw [lookup?_bind] at hv
    split at hv
    · cases hv
    · exact hv
  · exact hv

theorem genuine_of_solve_eq_error (h : σ.solve es = .error cause)
    (hV : ∀ e ∈ es, σ.Concerns V e) : cause.Genuine σ V := by
  fun_induction solve σ es with
  | case1 σ => cases h
  | case2 σ e rest cause' hred =>
    cases h
    exact genuine_of_reduce_eq_error hred (hV e List.mem_cons_self)
  | case3 σ e rest σ' es hred ih =>
    obtain ⟨he, hrest⟩ := List.forall_mem_cons.1 hV
    obtain ⟨hparts, hkeeps⟩ := reduce_concerns hred he
    have hlater : cause.Genuine σ' V :=
      ih h (List.forall_mem_append.2 ⟨hparts, fun e' he' => hkeeps e' (hrest e' he')⟩)
    exact hlater.mono fun v hv => unbound_of_reduce hred hv

end Substitution

/-! ## Formulas of different build -/

namespace Formula

variable {f g : Formula} {cause : UnificationError}

theorem Clash.genuine (h : Clash f g cause) (σ : Substitution) (V : Variable → Prop) :
    cause.Genuine σ V := by
  cases h with
  | symbols hp => exact hp
  | arguments hlen => exact hlen
  | connectives hk => exact hk
  | operands hlen => exact hlen
  | predicateOperator => exact .inr ⟨_, _, _, _, _, _, rfl⟩
  | operatorPredicate => exact .inr ⟨_, _, _, _, _, _, Sym2.eq_swap⟩

/-- What stands in the way of two formulas is a clash of two formulas in them. -/
theorem exists_clash_of_obstruction? (h : (f.problem g).obstruction? = some cause) :
    ∃ f' g', Clash f' g' cause := by
  induction f, g using pair_induction with
  | clash f g cause' hclash =>
    rw [problem_of_clash hclash] at h
    cases h
    exact ⟨f, g, hclash⟩
  | predicates p ss ts a b hlen =>
    rw [problem_predicates hlen] at h
    cases h
  | operators k fs gs a b hall =>
    rw [problem_operators hall.length_eq] at h
    induction hall with
    | nil => cases h
    | @cons f g fs gs hfg _ ih =>
      rw [problemAll, Problem.obstruction?_andThen, Option.or_eq_some_iff] at h
      rcases h with h | ⟨-, h⟩
      · exact hfg h
      · exact ih h

end Formula

namespace Pair

variable {p : Pair} {σ : Substitution} {cause : UnificationError}

theorem isGround_iff : p.isGround = true ↔ ∀ v, v ∉ p.vars := by
  have hsides : p.isGround = (p.left.isGround && p.right.isGround) := by cases p <;> rfl
  rw [hsides, Bool.and_eq_true, Expression.isGround_iff, Expression.isGround_iff, ← forall_and]
  simp only [vars, List.mem_union_iff, not_or]

theorem exists_clash_of_obstruction? (h : p.problem.obstruction? = some cause) :
    ∃ f g, Formula.Clash f g cause := by
  cases p with
  | terms s t => cases h
  | formulas f g => exact Formula.exists_clash_of_obstruction? h

/-- What is reported of a failure is so, and for the substitution that unification started
from: parts that differ, or texts of expressions of different kinds, or an unbound variable
that the expressions have left and an application that contains it and has no bound variable
left.  Two expressions without variables never fail the occurs check. -/
theorem failure_genuine (h : p.unify σ = .error cause) :
    cause.Genuine σ (· ∈ (p.replace σ).vars) ∧
      (p.isGround = true → ∀ v t, cause ≠ .occursCheck v t) := by
  have hgenuine : cause.Genuine σ (· ∈ (p.replace σ).vars) := by
    rw [← solve_problem] at h
    rcases Problem.of_solve_eq_error h with hsolve | hblocked
    · exact Substitution.genuine_of_solve_eq_error hsolve (p.concerns_problem σ)
    · obtain ⟨f, g, hclash⟩ := exists_clash_of_obstruction? hblocked
      exact hclash.genuine σ _
  refine ⟨hgenuine, ?_⟩
  rintro hground v t rfl
  obtain ⟨hleft, -⟩ := hgenuine
  obtain ⟨u, hu, -⟩ := mem_vars_replace.1 hleft
  exact isGround_iff.1 hground u hu

/-- `X` is bound to `f(Y)` from the start and `Z` on the way, so the term that `Y` would have
to equal is written with neither of the variables that it is reached through. -/
theorem failure_genuine_through_bindings :
    let f : List Term → Term := .app Sample.f
    let p : Pair := .terms (f [.var Sample.z, .var Sample.y]) (f [.var Sample.x, .var Sample.z])
    let ground : Pair := .terms (f [f [.const Sample.a]]) (f [.const Sample.a])
    p.unify Sample.bound = .error (.occursCheck Sample.y (f [.var Sample.y])) ∧
      (UnificationError.occursCheck Sample.y (f [.var Sample.y])).Genuine Sample.bound
        (· ∈ (p.replace Sample.bound).vars) ∧
      ground.isGround = true ∧
      ∃ cause, ground.unify Sample.bound = .error cause ∧
        ∀ v t, cause ≠ .occursCheck v t := by
  intro f p ground
  have hrun : p.unify Sample.bound = .error (.occursCheck Sample.y (f [.var Sample.y])) :=
    Bindings.unify_eq_error_of_ends (.of_depth 8 fun _ => rfl)
  have hground : ground.unify Sample.bound = .error (.variantMismatch "f(a)" "a") :=
    Bindings.unify_eq_error_of_ends (.of_depth 8 fun _ => rfl)
  exact ⟨hrun, (failure_genuine hrun).1, rfl, _, hground, (failure_genuine hground).2 rfl⟩

end Pair
end Unification
