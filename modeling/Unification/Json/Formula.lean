import Unification.Formula.Basic
import Unification.Json.Term

/-!
# Formulas as JSON

A formula is an object with one field, `Predicate` or `Operator`.  A predicate
has a symbol, arguments and a value, which is unknown where it is left out.  An
operator has a connective and operands; its value is written too, but never
read: it is derived again, once the whole operator has been read.

Predicates and operators may also be lists of their fields in order.
-/

namespace Unification

namespace Json

/-- Reads one of several names, given as a string or as the key of a null. -/
def readName {α : Type} (ofName? : String → Option α) : Nat → Json → Reading α
  | _, .string (some name) => Reading.ofOption (ofName? name)
  | _ + 1, .object [(some name, .null)] => Reading.ofOption (ofName? name)
  | _, _ => Reading.malformed

end Json

namespace TruthValue

def toJson (a : TruthValue) : Json := .ofString a.name

def ofJson : Nat → Json → Reading TruthValue := Json.readName ofName?

end TruthValue

namespace Connective

def toJson (k : Connective) : Json := .ofString k.name

def ofJson : Nat → Json → Reading Connective := Json.readName ofName?

end Connective

namespace Formula

/-- Adds the field that says which kind of formula the body is of. -/
def tagged (f : Formula) (body : Json) : Json :=
  .ofFields [(if f.isAtomic then "Predicate" else "Operator", body)]

mutual
/-- The formula without the field that says which kind it is. -/
def bodyToJson : Formula → Json
  | .predicate p args v =>
    .ofFields [("symbol", p.toJson), ("args", .array (Term.toJsonAll args)), ("value", v.toJson)]
  | .operator k operands v =>
    .ofFields [("kind", k.toJson), ("operands", .array (toJsonAll operands)), ("value", v.toJson)]

def toJsonAll : List Formula → List Json
  | [] => []
  | f :: fs => tagged f (bodyToJson f) :: toJsonAll fs
end

def toJson (f : Formula) : Json := tagged f (bodyToJson f)

/-- The fields of a predicate that have been read. -/
structure PredicateFields where
  symbol? : Option Symbol := none
  args? : Option (List Term) := none
  value? : Option TruthValue := none

/-- What a field of this key adds. -/
def PredicateFields.read (depth : Nat) :
    String → Option (PredicateFields → Json → Reading PredicateFields)
  | "symbol" => some fun r v => do
    let s ← Reading.once r.symbol? Symbol.ofJson v
    return { r with symbol? := some s }
  | "args" => some fun r v => do
    let args ← Reading.once r.args? (Json.readArray Term.ofJson depth) v
    return { r with args? := some args }
  | "value" => some fun r v => do
    let a ← Reading.once r.value? (TruthValue.ofJson depth) v
    return { r with value? := some a }
  | _ => none

def predicateOfJson : Nat → Json → Reading Formula
  | depth + 1, .object fields => do
    let known ← Reading.fields (PredicateFields.read depth) {} fields
    match known.symbol?, known.args? with
    | some p, some args => return .predicate p args (known.value?.getD .unknown)
    | _, _ => Reading.malformed
  | depth + 1, .array (symbol :: rest) => do
    let p ← Symbol.ofJson symbol
    match rest with
    | [] => Reading.malformed
    | args :: rest => do
      let args ← Json.readArray Term.ofJson depth args
      match rest with
      | [] => return .atom p args
      | value :: extra => do
        let a ← TruthValue.ofJson depth value
        Reading.last (.predicate p args a) extra
  | _, _ => Reading.malformed

/-- The fields of an operator that have been read. -/
structure OperatorFields where
  connective? : Option Connective := none
  operands? : Option (List Formula) := none

/-- What a field of this key adds. -/
def OperatorFields.read (readOperands : Json → Reading (List Formula)) (depth : Nat) :
    String → Option (OperatorFields → Json → Reading OperatorFields)
  | "kind" => some fun r v => do
    let k ← Reading.once r.connective? (Connective.ofJson depth) v
    return { r with connective? := some k }
  | "operands" => some fun r v => do
    let fs ← Reading.once r.operands? readOperands v
    return { r with operands? := some fs }
  | _ => none

/-- Reads an operator whose operands are read by `readOperands`. -/
def readOperator (readOperands : Json → Reading (List Formula)) : Nat → Json → Reading Formula
  | depth + 1, .object fields => do
    let known ← Reading.fields (OperatorFields.read readOperands depth) {} fields
    match known.connective?, known.operands? with
    | some k, some operands => .ofExcept (connect? k operands)
    | _, _ => Reading.malformed
  | depth + 1, .array (kind :: rest) => do
    let k ← Connective.ofJson depth kind
    match rest with
    | [] => Reading.malformed
    | operands :: extra => do
      let operands ← Reading.last (← readOperands operands) extra
      .ofExcept (connect? k operands)
  | _, _ => Reading.malformed

mutual
/-- Reads a formula at the given depth.  The operands of an operator lie three
levels below it. -/
def ofJson : Nat → Json → Reading Formula
  | depth + 1, .object ((some key, v) :: extra) => do
    let f ← match key with
      | "Predicate" => predicateOfJson depth v
      | "Operator" => operatorOfJson depth v
      | _ => Reading.malformed
    Reading.last f extra
  | _, _ => Reading.malformed

/-- Reads an operator, given without the field that says so. -/
def operatorOfJson : Nat → Json → Reading Formula
  | depth + 2, v =>
    readOperator
      (fun
        | .array items => Reading.all (ofJson depth) items
        | _ => Reading.malformed)
      (depth + 2) v
  | depth, v => readOperator (fun _ => Reading.malformed) depth v
end

end Formula
end Unification
