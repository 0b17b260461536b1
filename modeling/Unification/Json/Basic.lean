/-!
# JSON values

A value read from text keeps what its reader may need to know: numbers as they
were written, and the fields of an object in order, repeated keys included.

A text may stop being JSON somewhere.  What was read up to there is kept, and
the leaf `defect` stands where the fault is, so that whoever works through the
value from left to right meets the fault in its place.  A string that is well
written but whose escapes name no character, because of half a surrogate pair,
has no text.
-/

namespace Unification

inductive Json where
  | null
  | bool (b : Bool)
  | number (lexeme : String)
  | string (text? : Option String)
  | array (items : List Json)
  /-- A field whose key is no string at all, or has no text, has no key. -/
  | object (fields : List (Option String × Json))
  | defect

namespace Json

instance : Inhabited Json := ⟨null⟩

def ofString (s : String) : Json := .string (some s)

def ofNat (n : Nat) : Json := .number (toString n)

/-- An object with these fields in this order. -/
def ofFields (fields : List (String × Json)) : Json := .object (fields.map fun (k, v) => (some k, v))

mutual
/-- No fault stands anywhere in the value. -/
def isSound : Json → Bool
  | .defect => false
  | .array items => allSound items
  | .object fields => allFieldsSound fields
  | _ => true

def allSound : List Json → Bool
  | [] => true
  | v :: vs => isSound v && allSound vs

def allFieldsSound : List (Option String × Json) → Bool
  | [] => true
  | (_, v) :: fields => isSound v && allFieldsSound fields
end

end Json
end Unification
