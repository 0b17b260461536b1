/-!
# Three-valued truth

Strong Kleene logic: a connective has a known value exactly when its known
operands force one, whatever the unknown operands turn out to be.
-/

namespace Unification

inductive TruthValue where
  | protected false
  | protected unknown
  | protected true
  deriving DecidableEq

namespace TruthValue

/-- The value that nothing has assigned yet is unknown. -/
instance : Inhabited TruthValue := ⟨.unknown⟩

def isKnown (a : TruthValue) : Bool := a ≠ .unknown

def toBool? : TruthValue → Option Bool
  | .true => some true
  | .false => some false
  | .unknown => none

def ofBool : Bool → TruthValue
  | true => .true
  | false => .false

/-- The absent Boolean is the unknown value. -/
def ofBool? : Option Bool → TruthValue
  | some b => ofBool b
  | none => .unknown

@[simp] theorem ofBool?_toBool? (a : TruthValue) : ofBool? a.toBool? = a := by
  cases a <;> rfl

@[simp] theorem toBool?_ofBool? (b : Option Bool) : (ofBool? b).toBool? = b := by
  rcases b with _ | _ | _ <;> rfl

protected def not : TruthValue → TruthValue
  | .true => .false
  | .false => .true
  | .unknown => .unknown

protected def and : TruthValue → TruthValue → TruthValue
  | .false, _ | _, .false => .false
  | .true, .true => .true
  | _, _ => .unknown

protected def or : TruthValue → TruthValue → TruthValue
  | .true, _ | _, .true => .true
  | .false, .false => .false
  | _, _ => .unknown

protected def implies (a b : TruthValue) : TruthValue := a.not.or b

protected def iff (a b : TruthValue) : TruthValue :=
  match a.toBool?, b.toBool? with
  | some x, some y => ofBool (x == y)
  | _, _ => .unknown

def name : TruthValue → String
  | .true => "true"
  | .false => "false"
  | .unknown => "unknown"

def ofName? : String → Option TruthValue
  | "true" => some .true
  | "false" => some .false
  | "unknown" => some .unknown
  | _ => none

@[simp] theorem ofName?_name (a : TruthValue) : ofName? a.name = some a := by
  cases a <;> rfl

instance : ToString TruthValue := ⟨name⟩

end TruthValue
end Unification
