import Unification.Formula.Basic
import Unification.Registry.Basic
import Unification.VariableMap

/-!
# Renaming apart

Renaming an expression apart replaces its variables by fresh ones.  A renaming
records which variable got which replacement, in the order in which the
variables were first met, so that all occurrences get the same one, in one
expression or in several.  Fresh names come from a registry; the renaming and
the registry move together, as a `Renamer`.
-/

namespace Unification

namespace Variable

/-- The name without the ASCII digits that it ends in. -/
def stem (v : Variable) : String :=
  String.ofList ((v.name.toList.reverse.dropWhile Char.isDigit).reverse)

/-- The stem to make a fresh name from.  A name of digits only has none. -/
def stem? (v : Variable) : Option String := if v.stem = "" then none else some v.stem

/-- A variable that the registry has not handed out, named after this one.  Its
number replaces the one this name ends in. -/
def fresh (v : Variable) (r : Registry) : Variable × Registry :=
  let (s, r) := r.generate v.stem?
  (⟨s⟩, r)

end Variable

/-- Replacements of variables, in the order in which they were recorded. -/
structure Renaming where
  pairs : VariableMap Variable := []
  nodup : pairs.keys.Nodup := by exact List.nodup_nil

namespace Renaming

instance : EmptyCollection Renaming := ⟨{}⟩

def lookup? (m : Renaming) (v : Variable) : Option Variable := m.pairs.lookup? v

/-- Records a replacement.  A variable that has one keeps its place. -/
def insert (m : Renaming) (v w : Variable) : Renaming where
  pairs := m.pairs.insert v w
  nodup := VariableMap.nodup_keys_insert m.nodup v w

def ofList (pairs : List (Variable × Variable)) : Renaming :=
  pairs.foldl (fun m p => m.insert p.1 p.2) ∅

/-- The replacement of a variable; one without a record stays. -/
def apply (m : Renaming) (v : Variable) : Variable := (m.lookup? v).getD v

end Renaming

/-- A renaming together with the registry that its fresh names come from. -/
structure Renamer where
  record : Renaming
  registry : Registry

/-- The replacement of a variable, fresh and recorded if it has none. -/
def Renamer.rename (s : Renamer) (v : Variable) : Variable × Renamer :=
  match s.record.lookup? v with
  | some w => (w, s)
  | none =>
    let (w, r) := v.fresh s.registry
    (w, ⟨s.record.insert v w, r⟩)

namespace Term

mutual
/-- Renames the variables of a term, from left to right. -/
def standardizeApart (s : Renamer) : Term → Term × Renamer
  | .var v =>
    let (w, s) := s.rename v
    (.var w, s)
  | .const c => (.const c, s)
  | .app f args =>
    let (args, s) := standardizeAllApart s args
    (.app f args, s)

def standardizeAllApart (s : Renamer) : List Term → List Term × Renamer
  | [] => ([], s)
  | t :: ts =>
    let (t, s) := standardizeApart s t
    let (ts, s) := standardizeAllApart s ts
    (t :: ts, s)
end

end Term

namespace Formula

mutual
/-- Renames the variables of a formula, from left to right. -/
def standardizeApart (s : Renamer) : Formula → Formula × Renamer
  | .predicate p args v =>
    let (args, s) := Term.standardizeAllApart s args
    (.predicate p args v, s)
  | .operator k operands _ =>
    let (operands, s) := standardizeAllApart s operands
    (connect k operands, s)

def standardizeAllApart (s : Renamer) : List Formula → List Formula × Renamer
  | [] => ([], s)
  | f :: fs =>
    let (f, s) := standardizeApart s f
    let (fs, s) := standardizeAllApart s fs
    (f :: fs, s)
end

end Formula
end Unification
