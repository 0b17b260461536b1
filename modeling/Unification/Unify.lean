import Unification.Equation.Solve
import Unification.Formula.Basic

/-!
# Unifying terms and formulas

Unification extends a substitution by bindings that make two expressions equal.
Two terms are one equation.  Formulas must have the same connectives and
predicates in the same places, and their arguments are equations, worked through
from left to right.  Truth values play no part.
-/

namespace Unification

/-- Extends the substitution so that the two terms become equal. -/
def Term.unify (σ : Substitution) (s t : Term) : Except UnificationError Substitution :=
  σ.solve [(s, t)]

namespace Formula

mutual
/-- Extends the substitution so that the two formulas become equal but for
their truth values. -/
def unify (σ : Substitution) : Formula → Formula → Except UnificationError Substitution
  | .predicate p ss _, .predicate q ts _ =>
    if p ≠ q then .error (.symbolClash p q)
    else if ss.length ≠ ts.length then .error (.arityMismatch ss.length ts.length)
    else σ.solve (ss.zip ts)
  | .operator k fs _, .operator l gs _ =>
    if k ≠ l then .error (.operatorClash k l)
    else if fs.length ≠ gs.length then .error (.arityMismatch fs.length gs.length)
    else unifyAll σ fs gs
  | .predicate p ss v, g@(.operator _ _ _) =>
    .error (.variantMismatch (predicate p ss v).display g.display)
  | .operator k fs v, g@(.predicate _ _ _) =>
    .error (.variantMismatch (operator k fs v).display g.display)

/-- Unifies formulas pairwise, from left to right. -/
def unifyAll (σ : Substitution) : List Formula → List Formula →
    Except UnificationError Substitution
  | f :: fs, g :: gs =>
    match unify σ f g with
    | .error cause => .error cause
    | .ok σ' => unifyAll σ' fs gs
  | _, _ => .ok σ
end

end Formula
end Unification
