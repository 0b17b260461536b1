import Unification.Error

/-!
# Registries of symbols

A registry remembers the symbols that it has handed out, each once, and can
make a symbol that it has not handed out yet.  A made symbol is a stem followed
by a number.  One counter serves all stems and only moves forward:
`Registry.generate` takes the least number from the counter on whose symbol is
unused, and `leastUnused_notMem`, `le_leastUnused` and `mem_of_lt_leastUnused`
say that it does.

Operations return the registry as it is afterwards.  An operation that fails
returns none, so it changes nothing.
-/

namespace Unification

namespace Symbol

/-- The stem followed by the decimal digits of the number. -/
def numbered (stem : String) (k : Nat) : Symbol where
  name := stem ++ toString k
  name_ne_empty h := Nat.repr_ne_empty (String.append_eq_empty_iff.1 h).2

theorem numbered_inj {stem : String} {k m : Nat} : numbered stem k = numbered stem m ↔ k = m := by
  refine ⟨fun h => ?_, fun h => h ▸ rfl⟩
  have hrepr : k.repr = m.repr := (String.append_right_inj stem).1 (congrArg name h)
  have hdigits : Nat.toDigits 10 k = Nat.toDigits 10 m := by
    rw [← Nat.toList_repr, ← Nat.toList_repr, hrepr]
  rw [← Nat.ofDigitChars_ten_toDigits (n := k), hdigits, Nat.ofDigitChars_ten_toDigits]

/-- The least number from `k` on whose symbol is not among `taken`.  A symbol
that was found taken is never asked for again, so it is struck off. -/
def leastUnused (stem : String) (taken : List Symbol) (k : Nat) : Nat :=
  if numbered stem k ∈ taken then
    leastUnused stem (taken.erase (numbered stem k)) (k + 1)
  else k
termination_by taken.length
decreasing_by
  next h =>
    have := List.length_pos_of_mem h
    rw [List.length_erase_of_mem h]
    omega

theorem le_leastUnused (stem : String) (taken : List Symbol) (k : Nat) :
    k ≤ leastUnused stem taken k := by
  fun_induction leastUnused stem taken k with
  | case1 taken k h ih => omega
  | case2 taken k h => exact Nat.le_refl k

theorem leastUnused_notMem (stem : String) (taken : List Symbol) (k : Nat) :
    numbered stem (leastUnused stem taken k) ∉ taken := by
  fun_induction leastUnused stem taken k with
  | case1 taken k h ih =>
    have hle := le_leastUnused stem (taken.erase (numbered stem k)) (k + 1)
    rwa [List.mem_erase_of_ne (fun e => by rw [numbered_inj] at e; omega)] at ih
  | case2 taken k h => exact h

theorem mem_of_lt_leastUnused {stem : String} {taken : List Symbol} {k m : Nat} (hkm : k ≤ m)
    (hm : m < leastUnused stem taken k) : numbered stem m ∈ taken := by
  fun_induction leastUnused stem taken k with
  | case1 taken k h ih =>
    by_cases hk : m = k
    · rwa [hk]
    · exact List.mem_of_mem_erase (ih (by omega) hm)
  | case2 taken k h => omega

end Symbol

namespace Registry

structure Config where
  /-- The stem of made symbols when the caller names none. -/
  freshPrefix : String := "G"
  /-- How many symbols to expect. -/
  initialCapacity : Nat := 64
  deriving DecidableEq

end Registry

structure Registry where
  config : Registry.Config := {}
  /-- The symbols handed out so far. -/
  symbols : List Symbol := []
  nodup : symbols.Nodup := by exact List.nodup_nil
  /-- The next number to try for a made symbol. -/
  counter : Nat := 0

namespace Registry

/-- An empty registry. -/
def ofConfig (config : Config) : Registry := { config }

instance : Inhabited Registry := ⟨{}⟩

def contains (r : Registry) (name : String) : Bool := r.symbols.any (·.name = name)

def size (r : Registry) : Nat := r.symbols.length

def isEmpty (r : Registry) : Bool := r.symbols.isEmpty

/-- Remembers a symbol. -/
def insert (r : Registry) (s : Symbol) : Registry :=
  if h : s ∈ r.symbols then r
  else { r with symbols := s :: r.symbols, nodup := List.nodup_cons.2 ⟨h, r.nodup⟩ }

theorem mem_insert {r : Registry} {s t : Symbol} :
    t ∈ (r.insert s).symbols ↔ t = s ∨ t ∈ r.symbols := by
  unfold insert
  split
  · next h => exact ⟨.inr, fun h' => h'.elim (fun e => e ▸ h) id⟩
  · exact List.mem_cons

@[simp] theorem counter_insert (r : Registry) (s : Symbol) : (r.insert s).counter = r.counter := by
  unfold insert; split <;> rfl

@[simp] theorem config_insert (r : Registry) (s : Symbol) : (r.insert s).config = r.config := by
  unfold insert; split <;> rfl

theorem insert_setCounter (r : Registry) (s : Symbol) (n : Nat) :
    ({ r with counter := n } : Registry).insert s = { r.insert s with counter := n } := by
  unfold insert
  split <;> rfl

theorem size_insert_of_notMem {r : Registry} {s : Symbol} (h : s ∉ r.symbols) :
    (r.insert s).size = r.size + 1 := by
  rw [insert, dif_neg h]
  rfl

theorem contains_iff {r : Registry} {s : Symbol} : r.contains s.name = true ↔ s ∈ r.symbols := by
  simp only [contains, List.any_eq_true, decide_eq_true_eq]
  exact ⟨fun ⟨t, ht, h⟩ => Symbol.ext_name h ▸ ht, fun h => ⟨s, h, rfl⟩⟩

/-- The symbol of a name, remembered. -/
def get (r : Registry) (name : String) : Except Error (Symbol × Registry) :=
  match Symbol.ofName? name with
  | some s => .ok (s, r.insert s)
  | none => .error (.invalidArgument .missingName)

/-- The symbol of a name that may be absent. -/
def getOptional (r : Registry) : Option String → Except Error (Symbol × Registry)
  | some name => r.get name
  | none => .error (.invalidArgument .missingName)

/-- The stem that stands for an absent one is the configured one. -/
def stem (r : Registry) (stem? : Option String) : String := stem?.getD r.config.freshPrefix

/-- The number of the next symbol made from a stem. -/
def nextNumber (r : Registry) (stem? : Option String) : Nat :=
  Symbol.leastUnused (r.stem stem?) r.symbols r.counter

/-- Makes a symbol that has not been handed out. -/
def generate (r : Registry) (stem? : Option String) : Symbol × Registry :=
  let k := r.nextNumber stem?
  let s := Symbol.numbered (r.stem stem?) k
  (s, { r.insert s with counter := k + 1 })

theorem generate_notMem (r : Registry) (stem? : Option String) :
    (r.generate stem?).1 ∉ r.symbols :=
  Symbol.leastUnused_notMem _ _ _

/-- Copies of a symbol outside its registry are refused. -/
def duplicate (s : Symbol) : Except Error Symbol := .error (.unsupported (.duplicateSymbol s))

end Registry
end Unification
