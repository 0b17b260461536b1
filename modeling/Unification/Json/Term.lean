import Unification.Json.Reading

/-!
# Terms as JSON

A symbol is a string.  A variable and a constant are an object with the field
`symbol`, or a list of just that.  A term is an object with one field, whose
key says which kind it is; an application is a list of the functor and the
list of its arguments.
-/

namespace Unification

namespace Symbol

def toJson (s : Symbol) : Json := .ofString s.name

/-- The empty string is laid out well, but names no symbol. -/
def ofJson : Json → Reading Symbol
  | .string (some name) =>
    match ofName? name with
    | some s => ⟨[s], .ok s⟩
    | none => .ofExcept (.error (.invalidArgument .missingName))
  | _ => Reading.malformed

end Symbol

namespace Json

/-- A symbol in an object of its own. -/
def boxed (s : Symbol) : Json := .ofFields [("symbol", s.toJson)]

/-- What a field of this key adds to the symbol that may have been read. -/
def boxedField : String → Option (Option Symbol → Json → Reading (Option Symbol))
  | "symbol" => some fun s? v => some <$> Reading.once s? Symbol.ofJson v
  | _ => none

def readBoxed : Nat → Json → Reading Symbol
  | _ + 1, .object fields => do
    let s? ← Reading.fields boxedField none fields
    Reading.ofOption s?
  | _ + 1, .array (v :: extra) => do
    let s ← Symbol.ofJson v
    Reading.last s extra
  | _, _ => Reading.malformed

end Json

namespace Variable

def toJson (v : Variable) : Json := Json.boxed v.symbol

def ofJson (depth : Nat) (j : Json) : Reading Variable := Variable.mk <$> Json.readBoxed depth j

end Variable

namespace Term

mutual
def toJson : Term → Json
  | .var v => .ofFields [("Variable", v.toJson)]
  | .const c => .ofFields [("Constant", Json.boxed c)]
  | .app f args => .ofFields [("Function", .array [f.toJson, .array (toJsonAll args)])]

def toJsonAll : List Term → List Json
  | [] => []
  | t :: ts => toJson t :: toJsonAll ts
end

/-- Reads a term at the given depth.  The arguments of an application lie three
levels below it. -/
def ofJson : Nat → Json → Reading Term
  | depth + 1, .object ((some key, v) :: extra) => do
    let t ← match key with
      | "Variable" => .var <$> Variable.ofJson depth v
      | "Constant" => .const <$> Json.readBoxed depth v
      | "Function" =>
        match depth, v with
        | depth + 1, .array (head :: tail) => do
          let f ← Symbol.ofJson head
          match depth, tail with
          | depth + 1, .array items :: extra => do
            let args ← Reading.all (ofJson depth) items
            Reading.last (.app f args) extra
          | _, _ => Reading.malformed
        | _, _ => Reading.malformed
      | _ => Reading.malformed
    Reading.last t extra
  | _, _ => Reading.malformed

end Term
end Unification
