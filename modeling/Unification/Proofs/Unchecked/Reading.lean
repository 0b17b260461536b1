import Unification.Json.Formula
import Unification.Proofs.Unchecked.Deriving

/-!
# Reading with values derived by position

A text is read here as `Formula.ofJson` reads it, but for the values of its operators, which are
derived by position.  Where an operand is not there, reading stops: it goes no further and has no
answer, not even that the text is at fault.  So there is an `Option` on top of these readings, and
a `none` in it is final.

Before it derives a value, reading looks at the number of operands.  That is enough for it never
to stop, whatever the text, so it reads what `Formula.ofJson` reads, or finds the same fault, and
has met the same names (`Formula.ofJson?_eq`).
-/

namespace Unification

namespace Reading

variable {α β : Type}

/-- What a reading comes to, unless it stops. -/
def answer? (m : OptionT Reading α) : Option (Except ReadError α) :=
  match m.run.outcome with
  | .ok a? => a?.map .ok
  | .error cause => some (.error cause)

def fields? (known : String → Option (α → Json → OptionT Reading α)) :
    α → List (Option String × Json) → OptionT Reading α
  | a, [] => pure a
  | _, (none, _) :: _ => liftM malformed
  | a, (some key, v) :: rest =>
    match known key with
    | some read => do
      let a ← read a v
      fields? known a rest
    | none => if v.isSound then fields? known a rest else liftM malformed

def once? (already : Option β) (read : Json → OptionT Reading β) (v : Json) : OptionT Reading β :=
  if already.isSome then liftM malformed else read v

end Reading

namespace Json

def readText? {α : Type} (read : Nat → Json → OptionT Reading α) (text : String) :
    OptionT Reading α := do
  let document := Document.ofText text
  let a ← read depthLimit document.root
  if document.complete then return a else liftM Reading.malformed

end Json

namespace Formula

/-- Applies a connective to the operands that have been read. -/
def connectRead? (k : Connective) (operands : List Formula) : OptionT Reading Formula := do
  let r ← OptionT.mk (pure (deriveChecked? k operands))
  liftM (Reading.ofExcept r)

def OperatorFields.read? (readOperands : Json → OptionT Reading (List Formula)) (depth : Nat) :
    String → Option (OperatorFields → Json → OptionT Reading OperatorFields)
  | "kind" => some fun r v => do
    let k ← liftM (Reading.once r.connective? (Connective.ofJson depth) v)
    return { r with connective? := some k }
  | "operands" => some fun r v => do
    let fs ← Reading.once? r.operands? readOperands v
    return { r with operands? := some fs }
  | _ => none

def readOperator? (readOperands : Json → OptionT Reading (List Formula)) :
    Nat → Json → OptionT Reading Formula
  | depth + 1, .object fields => do
    let known ← Reading.fields? (OperatorFields.read? readOperands depth) {} fields
    match known.connective?, known.operands? with
    | some k, some operands => connectRead? k operands
    | _, _ => liftM Reading.malformed
  | depth + 1, .array (kind :: rest) => do
    let k ← liftM (Connective.ofJson depth kind)
    match rest with
    | [] => liftM Reading.malformed
    | operands :: extra => do
      let operands ← liftM (Reading.last (← readOperands operands) extra)
      connectRead? k operands
  | _, _ => liftM Reading.malformed

mutual
/-- A predicate has no operands and is read as `ofJson` does. -/
def ofJson? : Nat → Json → OptionT Reading Formula
  | depth + 1, .object ((some key, v) :: extra) => do
    let f ← match key with
      | "Predicate" => liftM (predicateOfJson depth v)
      | "Operator" => operatorOfJson? depth v
      | _ => liftM Reading.malformed
    liftM (Reading.last f extra)
  | _, _ => liftM Reading.malformed

def operatorOfJson? : Nat → Json → OptionT Reading Formula
  | depth + 2, v =>
    readOperator?
      (fun
        | .array items => items.mapM (ofJson? depth)
        | _ => liftM Reading.malformed)
      (depth + 2) v
  | depth, v => readOperator? (fun _ => liftM Reading.malformed) depth v
end

end Formula

/-! ## Readings that do not stop -/

namespace Reading

variable {α β : Type}

theorem ok_bind (names : List Symbol) (a : α) (f : α → Reading β) :
    (⟨names, .ok a⟩ : Reading α) >>= f = ⟨names ++ (f a).names, (f a).outcome⟩ := rfl

instance : LawfulMonad Reading :=
  .mk' Reading
    (fun m => by
      obtain ⟨names, outcome⟩ := m
      cases outcome with
      | error cause => rfl
      | ok a => exact congrArg (Reading.mk · (.ok a)) names.append_nil)
    (fun _ _ => rfl)
    (fun m f g => by
      obtain ⟨names, outcome⟩ := m
      cases outcome with
      | error cause => rfl
      | ok a =>
        rw [ok_bind, ok_bind]
        generalize f a = m
        obtain ⟨names', outcome⟩ := m
        cases outcome with
        | error cause => rfl
        | ok b => exact congrArg (Reading.mk · (g b).outcome) (names.append_assoc _ _))

theorem answer?_liftM (m : Reading α) : answer? (liftM m) = some m.outcome := by
  obtain ⟨names, outcome⟩ := m
  cases outcome <;> rfl

variable {read? : Json → OptionT Reading α} {read : Json → Reading α}

theorem mapM_eq (h : ∀ v, read? v = liftM (read v)) (vs : List Json) :
    vs.mapM read? = liftM (all read vs) := by
  induction vs with
  | nil => rfl
  | cons v vs ih => simp only [List.mapM_cons, h, ih, all, liftM_bind, liftM_pure]

theorem once?_eq (h : ∀ v, read? v = liftM (read v)) (already : Option α) (v : Json) :
    once? already read? v = liftM (once already read v) := by
  rw [once?, once, h, apply_ite liftM]

theorem fields?_eq {known? : String → Option (α → Json → OptionT Reading α)}
    {known : String → Option (α → Json → Reading α)}
    (h : ∀ key, known? key = (known key).map fun read a v => liftM (read a v))
    (a : α) (fs : List (Option String × Json)) : fields? known? a fs = liftM (fields known a fs) := by
  induction fs generalizing a with
  | nil => rfl
  | cons field fs ih =>
    obtain ⟨key?, v⟩ := field
    cases key? with
    | none => rfl
    | some key =>
      rw [fields?, fields, h]
      cases known key with
      | none => simp only [Option.map_none, ih, apply_ite liftM]
      | some read => simp only [Option.map_some, ih, liftM_bind]

end Reading

theorem Json.readText?_eq {α : Type} {read? : Nat → Json → OptionT Reading α}
    {read : Nat → Json → Reading α} (h : ∀ depth j, read? depth j = liftM (read depth j))
    (text : String) : readText? read? text = liftM (readText read text) := by
  simp only [readText?, readText, h, liftM_bind, apply_ite liftM, liftM_pure]

namespace Formula

theorem connectRead?_eq (k : Connective) (operands : List Formula) :
    connectRead? k operands = liftM (Reading.ofExcept (connect? k operands)) := by
  rw [connectRead?, deriveChecked?_eq]
  rfl

section Operator

variable {readOperands? : Json → OptionT Reading (List Formula)}
  {readOperands : Json → Reading (List Formula)}

theorem OperatorFields.read?_eq (h : ∀ v, readOperands? v = liftM (readOperands v)) (depth : Nat)
    (key : String) :
    OperatorFields.read? readOperands? depth key =
      (OperatorFields.read readOperands depth key).map fun read r v => liftM (read r v) := by
  by_cases hkind : key = "kind"
  · subst hkind
    simp only [OperatorFields.read?, OperatorFields.read, Option.map_some, liftM_bind, liftM_pure]
  · by_cases hoperands : key = "operands"
    · subst hoperands
      simp only [OperatorFields.read?, OperatorFields.read, Option.map_some, Reading.once?_eq h,
        liftM_bind, liftM_pure]
    · simp only [OperatorFields.read?, OperatorFields.read, Option.map_none]

/-- An operator is connected after a look at the number of its operands, so its value can be
derived if they could be read. -/
theorem readOperator?_eq (h : ∀ v, readOperands? v = liftM (readOperands v)) (depth : Nat)
    (j : Json) : readOperator? readOperands? depth j = liftM (readOperator readOperands depth j) := by
  cases depth with
  | zero => rfl
  | succ depth =>
    cases j with
    | object fields =>
      rw [readOperator?, readOperator, Reading.fields?_eq (OperatorFields.read?_eq h depth),
        liftM_bind]
      refine bind_congr fun known => ?_
      obtain ⟨k?, operands?⟩ := known
      cases k? with
      | none => rfl
      | some k =>
        cases operands? with
        | none => rfl
        | some operands => exact connectRead?_eq k operands
    | array items =>
      cases items with
      | nil => rfl
      | cons kind rest =>
        rw [readOperator?, readOperator, liftM_bind]
        refine bind_congr fun k => ?_
        cases rest with
        | nil => rfl
        | cons operands extra => simp only [h, connectRead?_eq, liftM_bind]
    | _ => rfl

end Operator

mutual
/-- Reading never stops. -/
theorem ofJson?_eq : (depth : Nat) → (j : Json) → ofJson? depth j = liftM (ofJson depth j)
  | 0, j => by
    unfold ofJson? ofJson
    rfl
  | depth + 1, j => by
    unfold ofJson? ofJson
    cases j with
    | object fields =>
      cases fields with
      | nil => rfl
      | cons field extra =>
        obtain ⟨key?, v⟩ := field
        cases key? with
        | none => rfl
        | some key =>
          by_cases hpredicate : key = "Predicate"
          · subst hpredicate
            simp only [liftM_bind]
          · by_cases hoperator : key = "Operator"
            · subst hoperator
              simp only [operatorOfJson?_eq depth v, liftM_bind]
            · simp only [liftM_bind]
    | _ => rfl

theorem operatorOfJson?_eq :
    (depth : Nat) → (j : Json) → operatorOfJson? depth j = liftM (operatorOfJson depth j)
  | 0, j => by
    unfold operatorOfJson? operatorOfJson
    exact readOperator?_eq (fun _ => rfl) 0 j
  | 1, j => by
    unfold operatorOfJson? operatorOfJson
    exact readOperator?_eq (fun _ => rfl) 1 j
  | depth + 2, j => by
    unfold operatorOfJson? operatorOfJson
    refine readOperator?_eq (fun v => ?_) (depth + 2) j
    cases v with
    | array items => exact Reading.mapM_eq (ofJson?_eq depth) items
    | _ => rfl
end

end Formula
end Unification
