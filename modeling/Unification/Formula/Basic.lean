import Unification.Error

/-!
# Formulas

A formula is a predicate over terms or a connective over formulas, and it
carries a truth value.  A predicate's value is assigned by an interpretation.
A connective's value is derived from its operands when the formula is built,
and every operation that touches the operands builds the formula anew, so the
stored value is never stale.  `Formula.WellFormed` states that for all positions
of a formula, together with the operand counts.
-/

namespace Unification

inductive Formula where
  | predicate (symbol : Symbol) (args : List Term) (value : TruthValue)
  | operator (connective : Connective) (operands : List Formula) (value : TruthValue)

namespace Formula

/-- To prove a property of all formulas, prove it of an operator from the
property of each of its operands. -/
@[elab_as_elim, induction_eliminator]
theorem induction {motive : Formula → Prop}
    (predicate : ∀ p args value, motive (.predicate p args value))
    (operator : ∀ k operands value, (∀ f ∈ operands, motive f) → motive (.operator k operands value))
    (f : Formula) : motive f :=
  @Formula.rec motive (fun fs => ∀ f ∈ fs, motive f) predicate operator
    (fun _ h => nomatch h)
    (fun _ _ head tail => List.forall_mem_cons.2 ⟨head, tail⟩) f

mutual
def decEq : (f g : Formula) → Decidable (f = g)
  | .predicate p ss a, .predicate q ts b =>
    if h : p = q ∧ ss = ts ∧ a = b then isTrue (by obtain ⟨rfl, rfl, rfl⟩ := h; rfl)
    else isFalse (fun e => h (Formula.predicate.inj e))
  | .operator k fs a, .operator l gs b =>
    if h : k = l ∧ a = b then
      match decEqList fs gs with
      | isTrue h' => isTrue (by obtain ⟨rfl, rfl⟩ := h; exact h' ▸ rfl)
      | isFalse h' => isFalse (fun e => h' (Formula.operator.inj e).2.1)
    else isFalse (fun e => h ⟨(Formula.operator.inj e).1, (Formula.operator.inj e).2.2⟩)
  | .predicate _ _ _, .operator _ _ _ | .operator _ _ _, .predicate _ _ _ => isFalse nofun

def decEqList : (fs gs : List Formula) → Decidable (fs = gs)
  | [], [] => isTrue rfl
  | f :: fs, g :: gs =>
    match decEq f g with
    | isTrue h =>
      match decEqList fs gs with
      | isTrue h' => isTrue (h ▸ h' ▸ rfl)
      | isFalse h' => isFalse (fun e => h' (List.cons.inj e).2)
    | isFalse h => isFalse (fun e => h (List.cons.inj e).1)
  | [], _ :: _ | _ :: _, [] => isFalse nofun
end

instance : DecidableEq Formula := decEq

def value : Formula → TruthValue
  | .predicate _ _ value => value
  | .operator _ _ value => value

/-- The name of the predicate symbol or of the connective. -/
def name : Formula → String
  | .predicate p _ _ => p.name
  | .operator k _ _ => k.name

/-- The operands of a connective; a predicate has none. -/
def operands : Formula → List Formula
  | .predicate _ _ _ => []
  | .operator _ operands _ => operands

/-- The number of arguments of a predicate or of operands of a connective. -/
def arity : Formula → Nat
  | .predicate _ args _ => args.length
  | .operator _ operands _ => operands.length

def isAtomic : Formula → Bool
  | .predicate _ _ _ => true
  | .operator _ _ _ => false

/-- A literal is an atomic formula or the negation of one. -/
def isLiteral : Formula → Bool
  | .predicate _ _ _ => true
  | .operator .not [f] _ => f.isAtomic
  | .operator _ _ _ => false

/-! ## Building formulas -/

/-- A predicate that no interpretation has given a value. -/
def atom (symbol : Symbol) (args : List Term) : Formula := .predicate symbol args .unknown

/-- Applies a connective and derives the value.  The caller knows that the
connective accepts the number of operands. -/
def connect (k : Connective) (operands : List Formula) : Formula :=
  .operator k operands (k.evaluate (operands.map value))

/-- Applies a connective to a number of operands that it accepts. -/
def connect? (k : Connective) (operands : List Formula) : Except Error Formula :=
  match k.arity? with
  | some n =>
    if operands.length = n then .ok (connect k operands)
    else .error (.invalidArgument (.operandCount k n operands.length))
  | none => .ok (connect k operands)

theorem connect?_eq_ok {k : Connective} {operands : List Formula}
    (h : k.Accepts operands.length) : connect? k operands = .ok (connect k operands) := by
  unfold connect?
  split
  · next n hn => rw [if_pos (h n hn)]
  · rfl

protected def and (operands : List Formula) : Formula := connect .and operands

protected def or (operands : List Formula) : Formula := connect .or operands

protected def not (f : Formula) : Formula := connect .not [f]

protected def implies (antecedent consequent : Formula) : Formula :=
  connect .implies [antecedent, consequent]

protected def iff (left right : Formula) : Formula := connect .iff [left, right]

/-- The same conjunction or disjunction without its first operand. -/
def tail : Formula → Except Error Formula
  | .predicate p _ _ => .error (.unsupported (.predicateTail p))
  | .operator k operands _ =>
    if k.isVariadic then
      match operands with
      | [] => .error (.invalidArgument (.emptyTail k))
      | _ :: rest => .ok (connect k rest)
    else .error (.unsupported (.fixedArityTail k))

mutual
/-- Every connective accepts the number of its operands, and its value is the
one that the operands' values give it. -/
def WellFormed : Formula → Prop
  | .predicate _ _ _ => True
  | .operator k operands v =>
    k.Accepts operands.length ∧ v = k.evaluate (operands.map value) ∧ AllWellFormed operands

def AllWellFormed : List Formula → Prop
  | [] => True
  | f :: fs => WellFormed f ∧ AllWellFormed fs
end

/-! ## Traversals -/

mutual
/-- Applies a function to every argument of every predicate. -/
def mapTerms (g : Term → Term) : Formula → Formula
  | .predicate p args v => .predicate p (args.map g) v
  | .operator k operands _ => connect k (mapTermsAll g operands)

def mapTermsAll (g : Term → Term) : List Formula → List Formula
  | [] => []
  | f :: fs => mapTerms g f :: mapTermsAll g fs
end

/-- Replaces every variable by its image, all at once. -/
def subst (θ : Variable → Term) (f : Formula) : Formula := f.mapTerms (Term.subst θ)

mutual
/-- Adds the variables of a formula to a list, each at the end where it first
occurs, unless the list has it already. -/
def collect (seen : List Variable) : Formula → List Variable
  | .predicate _ args _ => args.foldl Term.collect seen
  | .operator _ operands _ => collectAll seen operands

def collectAll (seen : List Variable) : List Formula → List Variable
  | [] => seen
  | f :: fs => collectAll (collect seen f) fs
end

/-- The distinct variables of a formula in order of first occurrence. -/
def vars (f : Formula) : List Variable := f.collect []

mutual
/-- The formula has no variables. -/
def isGround : Formula → Bool
  | .predicate _ args _ => args.all Term.isGround
  | .operator _ operands _ => allGround operands

def allGround : List Formula → Bool
  | [] => true
  | f :: fs => isGround f && allGround fs
end

/-! ## Text -/

mutual
/-- Predicates are written as terms are, but without parentheses when there are
no arguments; connectives by name, followed by the operands, in parentheses. -/
def display : Formula → String
  | .predicate p [] _ => p.name
  | .predicate p args _ => p.name ++ "(" ++ Term.displayAll args ++ ")"
  | .operator k operands _ => "(" ++ k.name ++ displayAll operands ++ ")"

/-- The texts of several operands, each after a blank. -/
def displayAll : List Formula → String
  | [] => ""
  | f :: fs => " " ++ display f ++ displayAll fs
end

instance : ToString Formula := ⟨display⟩

end Formula
end Unification
