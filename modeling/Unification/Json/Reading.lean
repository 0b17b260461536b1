import Unification.Json.Document
import Unification.Registry.Basic

/-!
# Reading values of the library

Reading works through a JSON value from left to right and ends at the first
fault.  Each name it comes to is interned in the registry that the reader
serves, whether or not the reading succeeds in the end, so a reading is an
outcome together with the names met on the way.

Arrays and objects that are read as values of the library may be nested only
so deep; what is skipped may be nested without limit.
-/

namespace Unification

/-- Why a text is no value of a type. -/
inductive ReadError where
  /-- It is not JSON or has not the layout of the type. -/
  | malformed
  /-- It is laid out well, but the value cannot be made. -/
  | rejected (cause : Error)
  deriving DecidableEq

structure Reading (α : Type) where
  names : List Symbol
  outcome : Except ReadError α

namespace Reading

variable {α β : Type}

instance : Monad Reading where
  pure a := ⟨[], .ok a⟩
  bind m f :=
    match m.outcome with
    | .error e => ⟨m.names, .error e⟩
    | .ok a => ⟨m.names ++ (f a).names, (f a).outcome⟩

@[simp] theorem outcome_pure (a : α) : (pure a : Reading α).outcome = .ok a := rfl

@[simp] theorem outcome_bind (m : Reading α) (f : α → Reading β) :
    (m >>= f).outcome = m.outcome.bind fun a => (f a).outcome := by
  change (match m.outcome with
    | .error e => (⟨m.names, .error e⟩ : Reading β)
    | .ok a => ⟨m.names ++ (f a).names, (f a).outcome⟩).outcome = _
  split <;> simp [Except.bind, *]

@[simp] theorem outcome_map (f : α → β) (m : Reading α) :
    (f <$> m).outcome = m.outcome.map f := by
  change (m >>= fun a => pure (f a)).outcome = _
  cases h : m.outcome <;> simp [Except.bind, Except.map, h]

def malformed : Reading α := ⟨[], .error .malformed⟩

/-- A value that may not be possible to make. -/
def ofExcept : Except Error α → Reading α
  | .ok a => ⟨[], .ok a⟩
  | .error cause => ⟨[], .error (.rejected cause)⟩

def ofOption : Option α → Reading α
  | some a => pure a
  | none => malformed

/-- The value that was read, if nothing follows its last part. -/
def last {γ : Type} (a : α) (extra : List γ) : Reading α :=
  if extra.isEmpty then pure a else malformed

@[simp] theorem last_nil {γ : Type} (a : α) : last a ([] : List γ) = pure a := rfl

/-- Reads the items one after the other. -/
def all (read : Json → Reading α) : List Json → Reading (List α)
  | [] => pure []
  | v :: vs => do
    let a ← read v
    let as ← all read vs
    return a :: as

/-- Reads the fields of an object one after the other.  `known` says how a
field of this key changes what has been read so far; a field without meaning
is skipped, but has to be JSON. -/
def fields (known : String → Option (α → Json → Reading α)) :
    α → List (Option String × Json) → Reading α
  | a, [] => pure a
  | _, (none, _) :: _ => malformed
  | a, (some key, v) :: rest =>
    match known key with
    | some read => do
      let a ← read a v
      fields known a rest
    | none => if v.isSound then fields known a rest else malformed

/-- Reads a field that must not have been read before. -/
def once (already : Option β) (read : Json → Reading β) (v : Json) : Reading β :=
  if already.isSome then malformed else read v

end Reading

namespace Json

/-- How deep arrays and objects that are read as values may be nested. -/
def depthLimit : Nat := 127

/-- Reads a whole text.  Whatever follows the value is looked at last. -/
def readText {α : Type} (read : Nat → Json → Reading α) (text : String) : Reading α := do
  let document := Document.ofText text
  let a ← read depthLimit document.root
  if document.complete then return a else Reading.malformed

/-- Reads an array at one level less. -/
def readArray {α : Type} (read : Nat → Json → Reading α) : Nat → Json → Reading (List α)
  | depth + 1, .array items => Reading.all (read depth) items
  | _, _ => Reading.malformed

def readString : Json → Reading String
  | .string (some s) => pure s
  | _ => Reading.malformed

end Json

namespace Registry

/-- Remembers the names that a reading met. -/
def insertAll (r : Registry) (names : List Symbol) : Registry := names.foldl insert r

end Registry
end Unification
