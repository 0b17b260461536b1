import Unification.TruthValue

/-!
# Logical connectives

Conjunction and disjunction take any number of operands, the others a fixed
number.  `Connective.evaluate` is the value of a connective on the values of
its operands.
-/

namespace Unification

inductive Connective where
  | protected and
  | protected or
  | protected not
  | protected implies
  | protected iff
  deriving DecidableEq

namespace Connective

def name : Connective → String
  | .and => "and"
  | .or => "or"
  | .not => "not"
  | .implies => "implies"
  | .iff => "iff"

def ofName? : String → Option Connective
  | "and" => some .and
  | "or" => some .or
  | "not" => some .not
  | "implies" => some .implies
  | "iff" => some .iff
  | _ => none

@[simp] theorem ofName?_name (k : Connective) : ofName? k.name = some k := by
  cases k <;> rfl

instance : ToString Connective := ⟨name⟩

/-- The number of operands, where the connective fixes it. -/
def arity? : Connective → Option Nat
  | .and | .or => none
  | .not => some 1
  | .implies | .iff => some 2

def isVariadic (k : Connective) : Bool := k.arity?.isNone

/-- The connective may be applied to `n` operands. -/
def Accepts (k : Connective) (n : Nat) : Prop := ∀ m ∈ k.arity?, n = m

instance (k : Connective) (n : Nat) : Decidable (k.Accepts n) :=
  inferInstanceAs (Decidable (∀ m ∈ k.arity?, n = m))

theorem accepts_of_arity?_eq_none {k : Connective} (h : k.arity? = none) (n : Nat) :
    k.Accepts n := by
  intro m hm
  cases h.symm.trans hm

theorem accepts_iff_of_arity?_eq_some {k : Connective} {m : Nat} (h : k.arity? = some m) {n : Nat} :
    k.Accepts n ↔ n = m := by
  constructor
  · exact fun hn => hn m h
  · rintro rfl _ hm
    cases h.symm.trans hm
    rfl

/-- The value of the connective on operands with these values.  A connective
applied to a number of operands that it does not accept has no known value. -/
def evaluate : Connective → List TruthValue → TruthValue
  | .and, values => values.foldl .and .true
  | .or, values => values.foldl .or .false
  | .not, [a] => a.not
  | .implies, [a, b] => a.implies b
  | .iff, [a, b] => a.iff b
  | _, _ => .unknown

end Connective
end Unification
