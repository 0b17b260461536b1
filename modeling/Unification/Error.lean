import Unification.Connective
import Unification.Term.Display

/-!
# Causes of failure

Each failure is a value that says what went wrong; `message` gives its text.
`UnificationError` holds the obstructions to making two expressions equal and
`Error` everything that can fail, those included.
-/

namespace Unification

/-- Why two expressions have no unifier. -/
inductive UnificationError where
  /-- Two constants, functors or predicate symbols differ. -/
  | symbolClash (left right : Symbol)
  /-- One symbol or connective stands over two numbers of arguments. -/
  | arityMismatch (left right : Nat)
  /-- The expressions are of different kinds; they are given by their texts. -/
  | variantMismatch (left right : String)
  | operatorClash (left right : Connective)
  /-- The variable would have to equal a term that contains it properly. -/
  | occursCheck (v : Variable) (t : Term)
  deriving DecidableEq

namespace UnificationError

def message : UnificationError → String
  | symbolClash l r => s!"symbol clash: {l} vs {r}"
  | arityMismatch l r => s!"arity mismatch: {l} vs {r}"
  | variantMismatch l r => s!"cannot unify {l} with {r}"
  | operatorClash l r => s!"operator clash: {l} vs {r}"
  | occursCheck v t => s!"occurs check: {v} occurs in {t}"

end UnificationError

/-- What can be wrong with an argument. -/
inductive ArgumentFault where
  /-- A symbol was asked for by an empty or absent name. -/
  | missingName
  | operandCount (connective : Connective) (expected got : Nat)
  /-- A connective without operands has no tail. -/
  | emptyTail (connective : Connective)
  deriving DecidableEq

def ArgumentFault.message : ArgumentFault → String
  | missingName => "attempted to get a symbol without a name"
  | operandCount k expected got => s!"`{k}` takes {expected} operand(s), got {got}"
  | emptyTail k => s!"empty `{k}` has no operator tail"

/-- Operations that are not defined for a value. -/
inductive UnsupportedOperation where
  /-- A symbol has one copy per registry. -/
  | duplicateSymbol (symbol : Symbol)
  /-- A connective with a fixed number of operands has no tail. -/
  | fixedArityTail (connective : Connective)
  | predicateTail (symbol : Symbol)
  deriving DecidableEq

def UnsupportedOperation.message : UnsupportedOperation → String
  | duplicateSymbol s => s!"symbol `{s}` cannot be duplicated outside its registry"
  | fixedArityTail k => s!"`{k}` has no operator tail"
  | predicateTail s => s!"predicate `{s}` has no operator tail"

inductive Error where
  | invalidArgument (fault : ArgumentFault)
  | unsupported (operation : UnsupportedOperation)
  /-- Bindings are never replaced. -/
  | alreadyBound (v : Variable) (existing : Term)
  | unboundVariable (v : Variable)
  /-- The term leads back to the variable it is to be bound to. -/
  | cyclicBinding (v : Variable) (t : Term)
  /-- The composition would bind the variable to a term that mentions a variable
  which the composition binds as well. -/
  | unrepresentableComposition (v : Variable) (t : Term)
  | unification (cause : UnificationError)
  deriving DecidableEq

def Error.message : Error → String
  | invalidArgument fault => s!"invalid argument: {fault.message}"
  | unsupported operation => s!"unsupported: {operation.message}"
  | alreadyBound v t => s!"variable {v} is already bound to {t}"
  | unboundVariable v => s!"variable {v} is not bound"
  | cyclicBinding v t => s!"binding {v} to {t} would create a cycle"
  | unrepresentableComposition v t =>
    s!"composition cannot bind {v} to {t}: {t} mentions a bound variable"
  | unification cause => cause.message

end Unification
