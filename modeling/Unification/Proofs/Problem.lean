import Unification.Formula.Lemmas
import Unification.Proofs.Solution

/-!
# Pairs of expressions and what it takes to unify them

Unification takes two terms or two formulas, a `Pair`.  Formulas are compared from
left to right, and every pair of arguments met on the way is an equation.  So a
pair stands for a `Problem`: the equations up to the first place where the
formulas are of different build, and what is wrong there (`Formula.Clash`).
`Pair.solve_problem` says that to unify the pair is to solve the equations and then
to report that obstruction, and `Pair.problem_solvedBy` that a map solves the problem
exactly when it makes the two expressions agree.

Formulas agree when they are equal but for the truth values at their nodes.
-/

namespace Unification

namespace Formula

mutual
/-- The formula with every truth value forgotten. -/
def forget : Formula → Formula
  | .predicate p args _ => .predicate p args .unknown
  | .operator k operands _ => .operator k (forgetAll operands) .unknown

def forgetAll : List Formula → List Formula
  | [] => []
  | f :: fs => forget f :: forgetAll fs
end

@[simp] theorem forgetAll_eq (fs : List Formula) : forgetAll fs = fs.map forget := by
  induction fs with
  | nil => rfl
  | cons f fs ih => simp [forgetAll, ih]

/-- Formulas are equivalent when they have the same connectives with as many
operands, the same predicates and the same arguments in the same places. -/
instance : Setoid Formula where
  r f g := f.forget = g.forget
  iseqv := ⟨fun _ => rfl, Eq.symm, Eq.trans⟩

theorem equiv_iff {f g : Formula} : f ≈ g ↔ f.forget = g.forget := Iff.rfl

@[simp] theorem predicate_equiv_predicate {p q : Symbol} {ss ts : List Term} {a b : TruthValue} :
    predicate p ss a ≈ predicate q ts b ↔ p = q ∧ ss = ts := by
  rw [equiv_iff, forget, forget, predicate.injEq]
  simp

@[simp] theorem operator_equiv_operator {k l : Connective} {fs gs : List Formula}
    {a b : TruthValue} :
    operator k fs a ≈ operator l gs b ↔ k = l ∧ fs.map forget = gs.map forget := by
  rw [equiv_iff, forget, forget, operator.injEq, forgetAll_eq, forgetAll_eq]
  simp

@[simp] theorem not_predicate_equiv_operator {p : Symbol} {args : List Term} {k : Connective}
    {fs : List Formula} {a b : TruthValue} : ¬predicate p args a ≈ operator k fs b := by
  rw [equiv_iff, forget, forget]
  exact nofun

@[simp] theorem not_operator_equiv_predicate {p : Symbol} {args : List Term} {k : Connective}
    {fs : List Formula} {a b : TruthValue} : ¬operator k fs a ≈ predicate p args b := by
  rw [equiv_iff, forget, forget]
  exact nofun

end Formula

namespace Substitution

theorem solve_append (σ : Substitution) (es fs : List Equation) :
    σ.solve (es ++ fs) = (σ.solve es).bind (·.solve fs) := by
  fun_induction solve σ es with
  | case1 σ => rfl
  | case2 σ e rest cause hred => rw [List.cons_append, solve_cons, hred]; rfl
  | case3 σ e rest σ' es hred ih => rw [List.cons_append, solve_cons, hred, ← ih, List.append_assoc]

end Substitution

/-- Equations, and what stands in the way once they are solved. -/
structure Problem where
  equations : List Equation
  obstruction? : Option UnificationError

namespace Problem

def ofEquations (es : List Equation) : Problem := ⟨es, none⟩

def blocked (cause : UnificationError) : Problem := ⟨[], some cause⟩

/-- The equations of both, unless something stands in the way already. -/
def andThen (p q : Problem) : Problem :=
  match p.obstruction? with
  | none => ⟨p.equations ++ q.equations, q.obstruction?⟩
  | some _ => p

def solve (σ : Substitution) (p : Problem) : Except UnificationError Substitution :=
  (σ.solve p.equations).bind fun τ =>
    match p.obstruction? with
    | none => .ok τ
    | some cause => .error cause

def SolvedBy (p : Problem) (θ : Variable → Term) : Prop :=
  p.obstruction? = none ∧ ∀ e ∈ p.equations, e.SolvedBy θ

@[simp] theorem solve_ofEquations (σ : Substitution) (es : List Equation) :
    (ofEquations es).solve σ = σ.solve es := by
  rw [solve, ofEquations]
  cases σ.solve es <;> rfl

@[simp] theorem solve_blocked (σ : Substitution) (cause : UnificationError) :
    (blocked cause).solve σ = .error cause := by
  rw [solve, blocked, Substitution.solve_nil]
  rfl

theorem solve_andThen (σ : Substitution) (p q : Problem) :
    (p.andThen q).solve σ = (p.solve σ).bind q.solve := by
  obtain ⟨es, obstruction?⟩ := p
  cases obstruction? with
  | none =>
    simp only [andThen, solve, Substitution.solve_append]
    cases σ.solve es <;> rfl
  | some cause =>
    simp only [andThen, solve]
    cases σ.solve es <;> rfl

theorem mem_andThen {p q : Problem} {e : Equation} (he : e ∈ (p.andThen q).equations) :
    e ∈ p.equations ∨ e ∈ q.equations := by
  obtain ⟨es, obstruction?⟩ := p
  cases obstruction? with
  | none => exact List.mem_append.1 he
  | some cause => exact .inl he

theorem obstruction?_andThen (p q : Problem) :
    (p.andThen q).obstruction? = p.obstruction?.or q.obstruction? := by
  obtain ⟨es, obstruction?⟩ := p
  cases obstruction? <;> rfl

theorem andThen_solvedBy {p q : Problem} {θ : Variable → Term} :
    (p.andThen q).SolvedBy θ ↔ p.SolvedBy θ ∧ q.SolvedBy θ := by
  obtain ⟨es, obstruction?⟩ := p
  cases obstruction? with
  | none =>
    simp only [SolvedBy, andThen, List.forall_mem_append, true_and]
    exact and_left_comm
  | some cause => simp [SolvedBy, andThen]

@[simp] theorem ofEquations_solvedBy {es : List Equation} {θ : Variable → Term} :
    (ofEquations es).SolvedBy θ ↔ ∀ e ∈ es, e.SolvedBy θ :=
  and_iff_right rfl

@[simp] theorem not_blocked_solvedBy {cause : UnificationError} {θ : Variable → Term} :
    ¬(blocked cause).SolvedBy θ :=
  fun h => nomatch h.1

theorem solve_eq_ok_iff {σ τ : Substitution} {p : Problem} :
    p.solve σ = .ok τ ↔ σ.solve p.equations = .ok τ ∧ p.obstruction? = none := by
  obtain ⟨es, obstruction?⟩ := p
  rw [solve]
  cases σ.solve es with
  | error cause => exact iff_of_false nofun fun h => nomatch h.1
  | ok τ' =>
    cases obstruction? with
    | none => exact (and_iff_left rfl).symm
    | some cause => exact iff_of_false nofun fun h => nomatch h.2

/-- A failure comes from the equations or from what stands in the way after them. -/
theorem of_solve_eq_error {σ : Substitution} {p : Problem} {cause : UnificationError}
    (h : p.solve σ = .error cause) :
    σ.solve p.equations = .error cause ∨ p.obstruction? = some cause := by
  obtain ⟨es, obstruction?⟩ := p
  rw [solve] at h
  cases hs : σ.solve es with
  | error cause' =>
    rw [hs] at h
    cases h
    exact .inl rfl
  | ok τ =>
    rw [hs] at h
    cases obstruction? with
    | none => cases h
    | some cause' =>
      cases h
      exact .inr rfl

/-- Solving a problem keeps exactly the solutions that the problem leaves. -/
theorem solve_solvedBy {σ τ : Substitution} {p : Problem} (h : p.solve σ = .ok τ)
    (θ : Variable → Term) : τ.SolvedBy θ ↔ σ.SolvedBy θ ∧ p.SolvedBy θ := by
  obtain ⟨hsolve, hclear⟩ := solve_eq_ok_iff.1 h
  rw [Substitution.solve_solvedBy hsolve θ, SolvedBy, and_iff_right hclear]

theorem exists_solve_eq_ok {σ : Substitution} {p : Problem} {θ : Variable → Term}
    (hσ : σ.SolvedBy θ) (hp : p.SolvedBy θ) : ∃ τ, p.solve σ = .ok τ := by
  cases hs : σ.solve p.equations with
  | error cause => exact absurd hp.2 (Substitution.not_solvedBy_of_solve_eq_error hs hσ)
  | ok τ => exact ⟨τ, solve_eq_ok_iff.2 ⟨hs, hp.1⟩⟩

end Problem

namespace Formula

mutual
/-- The equations that two formulas stand for, up to the first place where they
are of different build. -/
def problem : Formula → Formula → Problem
  | .predicate p ss _, .predicate q ts _ =>
    if p ≠ q then .blocked (.symbolClash p q)
    else if ss.length ≠ ts.length then .blocked (.arityMismatch ss.length ts.length)
    else .ofEquations (ss.zip ts)
  | .operator k fs _, .operator l gs _ =>
    if k ≠ l then .blocked (.operatorClash k l)
    else if fs.length ≠ gs.length then .blocked (.arityMismatch fs.length gs.length)
    else problemAll fs gs
  | f@(.predicate _ _ _), g@(.operator _ _ _) => .blocked (.variantMismatch f.display g.display)
  | f@(.operator _ _ _), g@(.predicate _ _ _) => .blocked (.variantMismatch f.display g.display)

def problemAll : List Formula → List Formula → Problem
  | f :: fs, g :: gs => (problem f g).andThen (problemAll fs gs)
  | _, _ => .ofEquations []
end

/-- Two formulas are of different build at the top, and this is what is wrong. -/
inductive Clash : Formula → Formula → UnificationError → Prop
  | symbols {p q ss ts a b} : p ≠ q →
    Clash (.predicate p ss a) (.predicate q ts b) (.symbolClash p q)
  | arguments {p ss ts a b} : ss.length ≠ ts.length →
    Clash (.predicate p ss a) (.predicate p ts b) (.arityMismatch ss.length ts.length)
  | connectives {k l fs gs a b} : k ≠ l →
    Clash (.operator k fs a) (.operator l gs b) (.operatorClash k l)
  | operands {k fs gs a b} : fs.length ≠ gs.length →
    Clash (.operator k fs a) (.operator k gs b) (.arityMismatch fs.length gs.length)
  | predicateOperator {p ss a l gs b} :
    Clash (.predicate p ss a) (.operator l gs b)
      (.variantMismatch (predicate p ss a).display (operator l gs b).display)
  | operatorPredicate {k fs a q ts b} :
    Clash (.operator k fs a) (.predicate q ts b)
      (.variantMismatch (operator k fs a).display (predicate q ts b).display)

/-- To prove a property of all pairs of formulas, prove it where they are of different
build at the top, and where they are not from the property of the pairs of operands. -/
@[elab_as_elim]
theorem pair_induction {motive : Formula → Formula → Prop}
    (clash : ∀ f g cause, Clash f g cause → motive f g)
    (predicates : ∀ p ss ts a b, ss.length = ts.length →
      motive (.predicate p ss a) (.predicate p ts b))
    (operators : ∀ k fs gs a b, List.Forall₂ motive fs gs →
      motive (.operator k fs a) (.operator k gs b))
    (f g : Formula) : motive f g := by
  induction f generalizing g with
  | predicate p ss a =>
    cases g with
    | operator l gs b => exact clash _ _ _ .predicateOperator
    | predicate q ts b =>
      by_cases hp : p = q
      · subst hp
        by_cases hlen : ss.length = ts.length
        · exact predicates p ss ts a b hlen
        · exact clash _ _ _ (.arguments hlen)
      · exact clash _ _ _ (.symbols hp)
  | operator k fs a ih =>
    cases g with
    | predicate q ts b => exact clash _ _ _ .operatorPredicate
    | operator l gs b =>
      by_cases hk : k = l
      · subst hk
        by_cases hlen : fs.length = gs.length
        · refine operators k fs gs a b (List.forall₂_iff_zip.2 ⟨hlen, fun {f g} hfg => ?_⟩)
          exact ih f (List.of_mem_zip hfg).1 g
        · exact clash _ _ _ (.operands hlen)
      · exact clash _ _ _ (.connectives hk)

section

variable {f g : Formula} {fs gs : List Formula} {ss ts : List Term} {cause : UnificationError}

theorem unify_of_clash (h : Clash f g cause) (σ : Substitution) : f.unify σ g = .error cause := by
  cases h with
  | symbols hp => rw [unify, if_pos hp]
  | arguments hlen => rw [unify, if_neg (not_not_intro rfl), if_pos hlen]
  | connectives hk => rw [unify, if_pos hk]
  | operands hlen => rw [unify, if_neg (not_not_intro rfl), if_pos hlen]
  | predicateOperator => rw [unify]
  | operatorPredicate => rw [unify]

theorem unify_predicates (h : ss.length = ts.length) (σ : Substitution) (p : Symbol)
    (a b : TruthValue) :
    (predicate p ss a).unify σ (predicate p ts b) = σ.solve (ss.zip ts) := by
  rw [unify, if_neg (not_not_intro rfl), if_neg (not_not_intro h)]

theorem unify_operators (h : fs.length = gs.length) (σ : Substitution) (k : Connective)
    (a b : TruthValue) : (operator k fs a).unify σ (operator k gs b) = unifyAll σ fs gs := by
  rw [unify, if_neg (not_not_intro rfl), if_neg (not_not_intro h)]

theorem problem_of_clash (h : Clash f g cause) : f.problem g = .blocked cause := by
  cases h with
  | symbols hp => rw [problem, if_pos hp]
  | arguments hlen => rw [problem, if_neg (not_not_intro rfl), if_pos hlen]
  | connectives hk => rw [problem, if_pos hk]
  | operands hlen => rw [problem, if_neg (not_not_intro rfl), if_pos hlen]
  | predicateOperator => rw [problem]
  | operatorPredicate => rw [problem]

theorem problem_predicates (h : ss.length = ts.length) (p : Symbol) (a b : TruthValue) :
    (predicate p ss a).problem (predicate p ts b) = .ofEquations (ss.zip ts) := by
  rw [problem, if_neg (not_not_intro rfl), if_neg (not_not_intro h)]

theorem problem_operators (h : fs.length = gs.length) (k : Connective) (a b : TruthValue) :
    (operator k fs a).problem (operator k gs b) = problemAll fs gs := by
  rw [problem, if_neg (not_not_intro rfl), if_neg (not_not_intro h)]

/-- Whatever is replaced, the difference stays. -/
theorem not_subst_equiv_of_clash (h : Clash f g cause) (θ : Variable → Term) :
    ¬f.subst θ ≈ g.subst θ := by
  cases h with
  | symbols hp =>
    rw [subst_predicate, subst_predicate, predicate_equiv_predicate]
    exact fun heq => hp heq.1
  | arguments hlen =>
    rw [subst_predicate, subst_predicate, predicate_equiv_predicate]
    exact fun heq => hlen (by simpa using congrArg List.length heq.2)
  | connectives hk =>
    rw [subst_operator, subst_operator, connect, connect, operator_equiv_operator]
    exact fun heq => hk heq.1
  | operands hlen =>
    rw [subst_operator, subst_operator, connect, connect, operator_equiv_operator]
    exact fun heq => hlen (by simpa using congrArg List.length heq.2)
  | predicateOperator =>
    rw [subst_predicate, subst_operator, connect]
    exact not_predicate_equiv_operator
  | operatorPredicate =>
    rw [subst_predicate, subst_operator, connect]
    exact not_operator_equiv_predicate

end

theorem solve_problem (σ : Substitution) (f g : Formula) :
    (f.problem g).solve σ = f.unify σ g := by
  induction f, g using pair_induction generalizing σ with
  | clash f g cause h => rw [problem_of_clash h, unify_of_clash h, Problem.solve_blocked]
  | predicates p ss ts a b hlen =>
    rw [problem_predicates hlen, unify_predicates hlen, Problem.solve_ofEquations]
  | operators k fs gs a b h =>
    rw [problem_operators h.length_eq, unify_operators h.length_eq]
    induction h generalizing σ with
    | nil => exact (Problem.solve_ofEquations σ []).trans (Substitution.solve_nil σ)
    | @cons f g fs gs hfg _ ih =>
      rw [problemAll, unifyAll, Problem.solve_andThen, hfg]
      cases f.unify σ g with
      | error cause => rfl
      | ok τ => exact ih τ

theorem problem_solvedBy (θ : Variable → Term) (f g : Formula) :
    (f.problem g).SolvedBy θ ↔ f.subst θ ≈ g.subst θ := by
  induction f, g using pair_induction with
  | clash f g cause h =>
    rw [problem_of_clash h]
    exact iff_of_false Problem.not_blocked_solvedBy (not_subst_equiv_of_clash h θ)
  | predicates p ss ts a b hlen =>
    rw [problem_predicates hlen, Problem.ofEquations_solvedBy, Equation.solvedBy_zip_iff hlen,
      subst_predicate, subst_predicate, predicate_equiv_predicate]
    exact (and_iff_right rfl).symm
  | operators k fs gs a b h =>
    rw [problem_operators h.length_eq, subst_operator, subst_operator, connect, connect,
      operator_equiv_operator, and_iff_right rfl]
    induction h with
    | nil =>
      refine iff_of_true (Problem.ofEquations_solvedBy.2 fun e he => ?_) rfl
      exact absurd he List.not_mem_nil
    | cons hfg _ ih =>
      rw [problemAll, Problem.andThen_solvedBy, hfg, ih]
      simp only [List.map_cons, List.cons.injEq]
      exact Iff.rfl

end Formula

/-- Two expressions of one kind. -/
inductive Pair where
  | terms (s t : Term)
  | formulas (f g : Formula)

namespace Pair

/-- Extends the substitution so that the two expressions agree. -/
def unify (σ : Substitution) : Pair → Except UnificationError Substitution
  | terms s t => s.unify σ t
  | formulas f g => f.unify σ g

def subst (θ : Variable → Term) : Pair → Pair
  | terms s t => terms (s.subst θ) (t.subst θ)
  | formulas f g => formulas (f.subst θ) (g.subst θ)

def replace (p : Pair) (σ : Substitution) : Pair :=
  match p with
  | terms s t => terms (s.replace σ) (t.replace σ)
  | formulas f g => formulas (f.replace σ) (g.replace σ)

/-- Terms agree when they are equal, formulas when they are equal but for their
truth values. -/
def Agree : Pair → Prop
  | terms s t => s = t
  | formulas f g => f ≈ g

theorem replace_eq_subst (p : Pair) (σ : Substitution) : p.replace σ = p.subst σ.value := by
  cases p <;> rfl

def problem : Pair → Problem
  | terms s t => .ofEquations [(s, t)]
  | formulas f g => f.problem g

theorem solve_problem (σ : Substitution) (p : Pair) : p.problem.solve σ = p.unify σ := by
  cases p with
  | terms s t => exact Problem.solve_ofEquations σ [(s, t)]
  | formulas f g => exact Formula.solve_problem σ f g

theorem problem_solvedBy (θ : Variable → Term) (p : Pair) :
    p.problem.SolvedBy θ ↔ (p.subst θ).Agree := by
  cases p with
  | terms s t =>
    rw [problem, Problem.ofEquations_solvedBy, List.forall_mem_singleton]
    exact Iff.rfl
  | formulas f g => exact Formula.problem_solvedBy θ f g

variable {σ τ : Substitution} {θ : Variable → Term} {p : Pair}

/-- Unifying keeps exactly the solutions under which the expressions agree. -/
theorem unify_solvedBy (h : p.unify σ = .ok τ) (θ : Variable → Term) :
    τ.SolvedBy θ ↔ σ.SolvedBy θ ∧ (p.subst θ).Agree := by
  rw [← solve_problem] at h
  rw [Problem.solve_solvedBy h θ, problem_solvedBy]

theorem solvedBy_value_of_unify (h : p.unify σ = .ok τ) :
    σ.SolvedBy τ.value ∧ (p.subst τ.value).Agree :=
  (unify_solvedBy h τ.value).1 τ.solvedBy_value

theorem exists_unify_eq_ok (hσ : σ.SolvedBy θ) (hp : (p.subst θ).Agree) :
    ∃ τ, p.unify σ = .ok τ := by
  rw [← solve_problem]
  exact Problem.exists_solve_eq_ok hσ ((problem_solvedBy θ p).2 hp)

end Pair

/-! ## Names and pairs for closed statements -/

namespace Sample

def x : Variable := ⟨⟨"X", by decide⟩⟩

def y : Variable := ⟨⟨"Y", by decide⟩⟩

def z : Variable := ⟨⟨"Z", by decide⟩⟩

def a : Symbol := ⟨"a", by decide⟩

def f : Symbol := ⟨"f", by decide⟩

def p : Symbol := ⟨"p", by decide⟩

/-- The second pair of arguments meets the binding that the first one makes. -/
def repeated : Pair := .terms (.app f [.var x, .var x]) (.app f [.var y, .const a])

/-- Two atoms of different truth values. -/
def atoms : Pair :=
  .formulas (.predicate p [.var x] .true) (.predicate p [.app f [.var z]] .false)

/-- Nothing but `x` is bound, to `f(y)`. -/
def bound : Substitution where
  bindings := [(x, .app f [.var y])]
  nodup := by decide
  acyclic := Bindings.wellFounded_of_disjoint (by decide)

/-- The variable `x` stands for `f(a)`, all others for `a`. -/
def ground (v : Variable) : Term := if v = x then .app f [.const a] else .const a

end Sample

end Unification
