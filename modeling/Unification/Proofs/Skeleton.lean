import Unification.Proofs.Occurrences
import Unification.Proofs.Rearrangement

/-!
# Skeletons and arguments

A formula without its truth values is a skeleton, which has its connectives and
predicate symbols with their numbers of operands and arguments, and a list of
arguments, those of all predicates from left to right.  Unification compares
skeletons and unifies arguments as it goes through the two formulas, operand by
operand.  It comes to the same as a comparison of the whole skeletons and then one
pass over the two lists of arguments (`unify_eq_ok_iff_skeleton`).

Replacing variables changes the arguments, each in its place, and leaves the skeleton.
-/

namespace Unification
namespace Formula

/-- What is left of a formula without its arguments and truth values. -/
inductive Skeleton where
  | predicate (symbol : Symbol) (arity : Nat)
  | operator (connective : Connective) (operands : List Skeleton)

mutual
def skeleton : Formula → Skeleton
  | .predicate p args _ => .predicate p args.length
  | .operator k operands _ => .operator k (skeletonAll operands)

def skeletonAll : List Formula → List Skeleton
  | [] => []
  | f :: fs => skeleton f :: skeletonAll fs
end

mutual
/-- The arguments of all predicates, from left to right. -/
def arguments : Formula → List Term
  | .predicate _ args _ => args
  | .operator _ operands _ => argumentsAll operands

def argumentsAll : List Formula → List Term
  | [] => []
  | f :: fs => arguments f ++ argumentsAll fs
end

@[simp] theorem skeletonAll_eq (fs : List Formula) : skeletonAll fs = fs.map skeleton := by
  induction fs with
  | nil => rfl
  | cons f fs ih => rw [skeletonAll, ih, List.map_cons]

@[simp] theorem argumentsAll_eq (fs : List Formula) : argumentsAll fs = fs.flatMap arguments := by
  induction fs with
  | nil => rfl
  | cons f fs ih => rw [argumentsAll, ih, List.flatMap_cons]

/-- A formula's variables are those of its arguments. -/
theorem occurrences_eq (f : Formula) : f.occurrences = f.arguments.flatMap Term.occurrences := by
  induction f with
  | predicate p args v => rw [occurrences, Term.occurrencesAll_eq, arguments]
  | operator k operands v ih =>
    rw [occurrences, occurrencesAll_eq, arguments, argumentsAll_eq, List.flatMap_assoc]
    exact List.flatMap_congr ih

/-! ## Replacing variables -/

theorem skeleton_subst (θ : Variable → Term) (f : Formula) : (f.subst θ).skeleton = f.skeleton := by
  induction f with
  | predicate p args v => rw [subst_predicate, skeleton, skeleton, List.length_map]
  | operator k operands v ih =>
    rw [subst_operator, connect, skeleton, skeleton, skeletonAll_eq, skeletonAll_eq, List.map_map]
    exact congrArg (Skeleton.operator k) (List.map_congr_left ih)

theorem arguments_subst (θ : Variable → Term) (f : Formula) :
    (f.subst θ).arguments = f.arguments.map (Term.subst θ) := by
  induction f with
  | predicate p args v => rfl
  | operator k operands v ih =>
    rw [subst_operator, connect, arguments, arguments, argumentsAll_eq, argumentsAll_eq,
      List.flatMap_map, List.map_flatMap]
    exact List.flatMap_congr ih

/-! ## Comparing skeletons -/

variable {f g : Formula} {fs gs : List Formula} {cause : UnificationError}

theorem Clash.skeleton_ne (h : Clash f g cause) : f.skeleton ≠ g.skeleton := by
  cases h with
  | symbols hp => exact fun heq => hp (Skeleton.predicate.inj heq).1
  | arguments hlen => exact fun heq => hlen (Skeleton.predicate.inj heq).2
  | connectives hk => exact fun heq => hk (Skeleton.operator.inj heq).1
  | operands hlen =>
    intro heq
    have hoperands := (Skeleton.operator.inj heq).2
    rw [skeletonAll_eq, skeletonAll_eq] at hoperands
    exact hlen (by simpa using congrArg List.length hoperands)
  | predicateOperator => exact nofun
  | operatorPredicate => exact nofun

/-- Nothing but a difference between the skeletons ever stands in the way of the equations. -/
theorem skeleton_eq_of_obstruction?_eq_none (h : (f.problem g).obstruction? = none) :
    f.skeleton = g.skeleton := by
  induction f, g using pair_induction with
  | clash f g cause hclash =>
    rw [problem_of_clash hclash] at h
    cases h
  | predicates p ss ts a b hlen => rw [skeleton, skeleton, hlen]
  | operators k fs gs a b hall =>
    rw [problem_operators hall.length_eq] at h
    rw [skeleton, skeleton]
    congr 1
    induction hall with
    | nil => rfl
    | cons hfg _ ih =>
      rw [problemAll, Problem.obstruction?_andThen, Option.or_eq_none_iff] at h
      rw [skeletonAll, skeletonAll, hfg h.1, ih h.2]

/-- Over one skeleton there are as many arguments on both sides, and the equations are
between those in the same places. -/
theorem problem_of_skeleton_eq (h : f.skeleton = g.skeleton) :
    f.arguments.length = g.arguments.length ∧
      f.problem g = .ofEquations (f.arguments.zip g.arguments) := by
  induction f, g using pair_induction with
  | clash f g cause hclash => exact absurd h hclash.skeleton_ne
  | predicates p ss ts a b hlen => exact ⟨hlen, problem_predicates hlen p a b⟩
  | operators k fs gs a b hall =>
    have hoperands := (Skeleton.operator.inj h).2
    rw [problem_operators hall.length_eq, arguments, arguments]
    clear h
    induction hall with
    | nil => exact ⟨rfl, rfl⟩
    | cons hfg _ ih =>
      rw [skeletonAll, skeletonAll, List.cons.injEq] at hoperands
      obtain ⟨hlength, hfirst⟩ := hfg hoperands.1
      obtain ⟨hlengths, hrest⟩ := ih hoperands.2
      rw [argumentsAll, argumentsAll, problemAll, hfirst, hrest, List.zip_append hlength]
      exact ⟨by rw [List.length_append, List.length_append, hlength, hlengths], rfl⟩

end Formula

namespace Pair

/-- Terms unified one after the other are equations solved one after the other. -/
theorem unifyAll_terms (σ : Substitution) (es : List Equation) :
    unifyAll σ (es.map fun e => terms e.1 e.2) = σ.solve es := by
  induction es generalizing σ with
  | nil => exact (Substitution.solve_nil σ).symm
  | cons e es ih =>
    rw [List.map_cons, unifyAll, List.foldlM_cons, ← List.singleton_append,
      Substitution.solve_append]
    exact congrArg ((σ.solve [e]).bind ·) (funext ih)

end Pair

namespace Formula

/-- Two formulas with one skeleton are unified as their arguments are, one after the other. -/
theorem unify_of_skeleton_eq {f g : Formula} (h : f.skeleton = g.skeleton) (σ : Substitution) :
    f.unify σ g = σ.solve (f.arguments.zip g.arguments) := by
  rw [← solve_problem, (problem_of_skeleton_eq h).2, Problem.solve_ofEquations]

/-- Formulas are unified exactly by unifying the arguments of the predicates in the same
places, from left to right, provided that there are the same connectives with as many
operands and the same predicates with as many arguments. -/
theorem unify_eq_ok_iff_skeleton (σ τ : Substitution) (f g : Formula) :
    f.unify σ g = .ok τ ↔
      f.skeleton = g.skeleton ∧
        Pair.unifyAll σ ((f.arguments.zip g.arguments).map fun e => .terms e.1 e.2) = .ok τ := by
  rw [Pair.unifyAll_terms]
  constructor
  · intro h
    have hclear : (f.problem g).obstruction? = none := by
      rw [← solve_problem, Problem.solve_eq_ok_iff] at h
      exact h.2
    have hskeleton := skeleton_eq_of_obstruction?_eq_none hclear
    exact ⟨hskeleton, (unify_of_skeleton_eq hskeleton σ).symm.trans h⟩
  · rintro ⟨hskeleton, h⟩
    exact (unify_of_skeleton_eq hskeleton σ).trans h

end Formula
end Unification
