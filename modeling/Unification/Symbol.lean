/-
Symbols are names that denote themselves.  A name is any nonempty text, so a
symbol is a text with a proof that it is not empty, and two symbols are equal
exactly when their names are.
-/
namespace Unification

/-- A nonempty name. -/
structure Symbol where
  name : String
  name_ne_empty : name ≠ ""
  deriving DecidableEq

namespace Symbol

theorem ext_name {a b : Symbol} (h : a.name = b.name) : a = b := by
  cases a; cases b; cases h; rfl

theorem eq_iff_name_eq {a b : Symbol} : a = b ↔ a.name = b.name :=
  ⟨fun h => h ▸ rfl, ext_name⟩

/-- The symbol of a name; the empty text names nothing. -/
def ofName? (name : String) : Option Symbol :=
  if h : name = "" then none else some ⟨name, h⟩

@[simp] theorem ofName?_name (s : Symbol) : ofName? s.name = some s := by
  simp [ofName?, s.name_ne_empty]

theorem ofName?_eq_none_iff {name : String} : ofName? name = none ↔ name = "" := by
  simp [ofName?]

theorem ofName?_eq_some_iff {name : String} {s : Symbol} :
    ofName? name = some s ↔ name = s.name := by
  constructor
  · intro h
    unfold ofName? at h
    split at h
    · cases h
    · cases h; rfl
  · intro h
    rw [h, ofName?_name]

instance : ToString Symbol := ⟨Symbol.name⟩

end Symbol
end Unification
