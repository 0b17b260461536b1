import Unification.Term.Basic

/-!
# Text of a term

Variables and constants are written by name and applications as the functor
followed by the arguments in parentheses, separated by commas without blanks.
The parentheses are written even when there are no arguments, which keeps
`a()` apart from the constant `a`.
-/

namespace Unification
namespace Term

mutual
def display : Term → String
  | .var v => v.name
  | .const c => c.name
  | .app f args => f.name ++ "(" ++ displayAll args ++ ")"

/-- The texts of several terms, separated by commas. -/
def displayAll : List Term → String
  | [] => ""
  | [t] => display t
  | t :: u :: ts => display t ++ "," ++ displayAll (u :: ts)
end

instance : ToString Term := ⟨display⟩

end Term
end Unification
