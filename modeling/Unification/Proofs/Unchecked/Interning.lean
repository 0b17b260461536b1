import Unification.Proofs.Unchecked.Counting
import Unification.Proofs.Workspace

/-!
# Symbols in memory

Here a symbol is a cell: a name at an address.  A registry is a table of cells, and a
cell is taken from the table if one of the name is there and allocated otherwise, so
that the address says whether two symbols are the same without a look at their names.

A workspace in memory does what a workspace does, cell by cell and with numbers in
64-bit words.  Where an allocation puts a cell is left open: at any address that is not
in use.
-/

namespace Unification

/-- A symbol in memory.  Which registry allocated it is never looked at. -/
structure Cell where
  address : Nat
  owner : Nat
  name : String

namespace Cell

/-- The two are one cell. -/
def same (a b : Cell) : Bool := a.address = b.address

/-- The names are compared unless the two are one cell anyway. -/
def equal (a b : Cell) : Bool := a.same b || a.name = b.name

end Cell

/-- The cells that a registry has allocated, and the next number to try. -/
structure Table where
  config : Registry.Config
  cells : List Cell := []
  counter : UInt64 := 0

namespace Table

def find? (t : Table) (name : String) : Option Cell := t.cells.find? (·.name = name)

def contains (t : Table) (name : String) : Bool := (t.find? name).isSome

def size (t : Table) : Nat := t.cells.length

/-- Tries one number after the other, from `k` on, until the name is unused. -/
def probe? (t : Table) (stem : String) : Nat → UInt64 → Option UInt64
  | 0, _ => none
  | depth + 1, k =>
    if t.contains (stem ++ toString k) then (Registry.nextWord? k).bind (t.probe? stem depth)
    else some k

end Table

/-- Chooses where to put something new. -/
structure Allocator where
  choose : List Nat → Nat
  choose_notMem : ∀ used, choose used ∉ used

/-- The first address above all that are in use. -/
def Allocator.above (used : List Nat) : Nat := used.foldr (fun a n => max (a + 1) n) 0

theorem Allocator.lt_above {used : List Nat} : ∀ a ∈ used, a < above used := by
  induction used with
  | nil => exact nofun
  | cons b used ih =>
    refine List.forall_mem_cons.2 ⟨Nat.le_max_left _ _, fun a ha => ?_⟩
    exact (ih a ha).trans_le (Nat.le_max_right _ _)

instance : Inhabited Allocator :=
  ⟨⟨Allocator.above, fun _ h => Nat.lt_irrefl _ (Allocator.lt_above _ h)⟩⟩

/-- The tables of all registries, the records of all passes and the addresses in use. -/
structure Memory where
  table : Nat → Table
  records : Nat → VariableMap Cell := fun _ => []
  used : List Nat := []

namespace Memory

def start (config : Nat → Registry.Config) : Memory where
  table i := { config := config i }

def setTable (m : Memory) (owner : Nat) (t : Table) : Memory :=
  { m with table := Function.update m.table owner t }

/-- Records a cell as the replacement of a variable. -/
def record (m : Memory) (pass : Nat) (v : Variable) (c : Cell) : Memory :=
  { m with records := Function.update m.records pass ((m.records pass).insert v c) }

def use (m : Memory) (use? : Option (Nat × Variable)) (c : Cell) : Memory :=
  match use? with
  | some (pass, v) => m.record pass v c
  | none => m

variable (A : Allocator) (depth : Nat)

/-- The cell of a name in a table, allocated if there is none. -/
def intern (m : Memory) (owner : Nat) (name : String) : Cell × Memory :=
  match (m.table owner).find? name with
  | some c => (c, m)
  | none =>
    let c : Cell := ⟨A.choose m.used, owner, name⟩
    let m := m.setTable owner { m.table owner with cells := c :: (m.table owner).cells }
    (c, { m with used := c.address :: m.used })

def get (m : Memory) (owner : Nat) (name : String) : Except Error Cell × Memory :=
  if name = "" then (.error (.invalidArgument .missingName), m)
  else
    let (c, m) := m.intern A owner name
    (.ok c, m)

def makeUp? (m : Memory) (owner : Nat) (stem? : Option String) : Option (Cell × Memory) := do
  let t := m.table owner
  let stem := stem?.getD t.config.freshPrefix
  let k ← t.probe? stem depth t.counter
  let next ← Registry.nextWord? k
  return (m.setTable owner { t with counter := next }).intern A owner (stem ++ toString k)

def ask? (m : Memory) (owner : Nat) : Registry.Request → Option (Except Error Cell × Memory)
  | .get name | .getOptional (some name) => some (m.get A owner name)
  | .getOptional none => some (.error (.invalidArgument .missingName), m)
  | .generate stem? => (m.makeUp? A depth owner stem?).map fun (c, m) => (.ok c, m)
  | .fresh v => (m.makeUp? A depth owner v.stem?).map fun (c, m) => (.ok c, m)

/-- The replacement of a variable, made and recorded if it has none. -/
def rename? (owner pass : Nat) (v : Variable) : StateT Memory Option Cell := fun m =>
  match (m.records pass).lookup? v with
  | some c => some (c, m)
  | none => (m.makeUp? A depth owner v.stem?).map fun (c, m) => (c, m.record pass v c)

/-- An operation and how it went. -/
structure Step where
  before : Memory
  operation : Workspace.Operation
  answer : Except Error (List Cell)
  after : Memory

/-- The cells that are handed out. -/
def Step.cells (d : Step) : List Cell := d.answer.toOption.getD []

/-- An expression is renamed apart one occurrence of a variable after the other. -/
def perform? (m : Memory) (o : Workspace.Operation) : Option Step :=
  match o with
  | .request owner q use? =>
    (m.ask? A depth owner q).map fun
      | (.ok c, after) => ⟨m, o, .ok [c], after.use use? c⟩
      | (.error cause, after) => ⟨m, o, .error cause, after⟩
  | .standardize owner pass e =>
    ((e.occurrences.mapM (rename? A depth owner pass)).run m).map fun (cs, after) =>
      ⟨m, o, .ok cs, after⟩

def run? (m : Memory) : List Workspace.Operation → Option (List Step)
  | [] => some []
  | o :: os => do
    let d ← m.perform? A depth o
    return d :: (← d.after.run? os)

end Memory
end Unification
