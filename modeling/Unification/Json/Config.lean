import Unification.Json.Reading

/-!
# Registry configurations as JSON

Both fields may be left out and then have their defaults.  The capacity is a
machine word: plain digits below `2 ^ 64`, so neither `-0` nor `1e2`.
-/

namespace Unification
namespace Registry
namespace Config

def toJson (c : Config) : Json :=
  .ofFields [("fresh_prefix", .ofString c.freshPrefix), ("initial_capacity", .ofNat c.initialCapacity)]

def capacityOfJson : Json → Reading Nat
  | .number lexeme =>
    if lexeme.toList.all Char.isDigit then
      let n := Nat.ofDigitChars 10 lexeme.toList 0
      if n < UInt64.size then return n else Reading.malformed
    else Reading.malformed
  | _ => Reading.malformed

/-- The fields that have been read. -/
structure Fields where
  freshPrefix? : Option String := none
  initialCapacity? : Option Nat := none

def ofFields (r : Fields) : Config :=
  let absent : Config := {}
  ⟨r.freshPrefix?.getD absent.freshPrefix, r.initialCapacity?.getD absent.initialCapacity⟩

/-- What a field of this key adds. -/
def Fields.read : String → Option (Fields → Json → Reading Fields)
  | "fresh_prefix" => some fun r v => do
    let stem ← Reading.once r.freshPrefix? Json.readString v
    return { r with freshPrefix? := some stem }
  | "initial_capacity" => some fun r v => do
    let n ← Reading.once r.initialCapacity? capacityOfJson v
    return { r with initialCapacity? := some n }
  | _ => none

def ofJson : Nat → Json → Reading Config
  | _ + 1, .object fields => ofFields <$> Reading.fields Fields.read {} fields
  | _ + 1, .array items =>
    match items with
    | [] => return {}
    | [stem] => return { freshPrefix := ← Json.readString stem }
    | stem :: capacity :: extra => do
      let stem ← Json.readString stem
      let n ← capacityOfJson capacity
      Reading.last ⟨stem, n⟩ extra
  | _, _ => Reading.malformed

end Config
end Registry
end Unification
