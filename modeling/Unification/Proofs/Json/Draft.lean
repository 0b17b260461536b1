import Unification.Json.Formula
import Unification.Proofs.Json.Document
import Unification.Proofs.Json.Reading

/-!
# Drafts

A draft is a formula as a text lays it out: any text may stand for a name, any number of
operands under a connective, any JSON value where an operator's value is written, and
values may be left out.  Building a draft makes the formula from its parts as the
constructors do, so it fails at the first name that is empty or connective that does not
accept its operands.

Within the depth limit, reading a draft is building it (`Formula.Draft.outcome_ofJson`).
-/

namespace Unification

/-! ## Layout -/

/-- A term with any texts as names. -/
inductive Term.Draft where
  | var (name : String)
  | const (name : String)
  | app (name : String) (args : List Draft)

/-- A formula with any texts as names and any numbers of operands. -/
inductive Formula.Draft where
  | predicate (name : String) (args : List Term.Draft) (value? : Option TruthValue)
  /-- What stands as the operator's value is only claimed. -/
  | operator (k : Connective) (operands : List Draft) (claim? : Option Json)

namespace Term.Draft

mutual
def toJson : Draft → Json
  | var name => .ofFields [("Variable", .ofFields [("symbol", .ofString name)])]
  | const name => .ofFields [("Constant", .ofFields [("symbol", .ofString name)])]
  | app name args => .ofFields [("Function", .array [.ofString name, .array (toJsonAll args)])]

def toJsonAll : List Draft → List Json
  | [] => []
  | d :: ds => toJson d :: toJsonAll ds
end

mutual
/-- How deep arrays and objects are nested in the text. -/
def depth : Draft → Nat
  | var _ | const _ => 2
  | app _ args => depthAll args + 3

def depthAll : List Draft → Nat
  | [] => 0
  | d :: ds => max (depth d) (depthAll ds)
end

end Term.Draft

namespace Formula.Draft

/-- The fields of a predicate, of which the last may be left out. -/
def predicateLayout (name : String) (args : List Json) (value? : Option TruthValue) : Json :=
  .ofFields ([("symbol", .ofString name), ("args", .array args)] ++
    value?.toList.map fun v => ("value", v.toJson))

/-- The fields of an operator, of which the last may be left out. -/
def operatorLayout (k : Connective) (operands : List Json) (claim? : Option Json) : Json :=
  .ofFields ([("kind", k.toJson), ("operands", .array operands)] ++
    claim?.toList.map fun claim => ("value", claim))

mutual
def toJson : Draft → Json
  | predicate name args value? =>
    .ofFields [("Predicate", predicateLayout name (Term.Draft.toJsonAll args) value?)]
  | operator k operands claim? =>
    .ofFields [("Operator", operatorLayout k (toJsonAll operands) claim?)]

def toJsonAll : List Draft → List Json
  | [] => []
  | d :: ds => toJson d :: toJsonAll ds
end

mutual
/-- How deep arrays and objects are nested in the text, claims apart. -/
def depth : Draft → Nat
  | predicate _ args _ => Term.Draft.depthAll args + 3
  | operator _ operands _ => depthAll operands + 3

def depthAll : List Draft → Nat
  | [] => 0
  | d :: ds => max (depth d) (depthAll ds)
end

mutual
/-- What the text claims to be values of operators. -/
def claims : Draft → List Json
  | predicate _ _ _ => []
  | operator _ operands claim? => claimsAll operands ++ claim?.toList

def claimsAll : List Draft → List Json
  | [] => []
  | d :: ds => claims d ++ claimsAll ds
end

end Formula.Draft

/-! ## Writing

Names are written whatever they are, so only a claim may have no text. -/

namespace Term.Draft

mutual
theorem isWritable_toJson : (d : Draft) → d.toJson.isWritable
  | var _ => rfl
  | const _ => rfl
  | app _ args => by
    simp [toJson, Json.ofFields, Json.ofString, Json.isWritable, Json.allWritable,
      Json.allFieldsWritable, allWritable_toJsonAll args]

theorem allWritable_toJsonAll : (ds : List Draft) → Json.allWritable (toJsonAll ds)
  | [] => rfl
  | d :: ds => by
    rw [toJsonAll, Json.allWritable, isWritable_toJson d, allWritable_toJsonAll ds, Bool.and_self]
end

end Term.Draft

namespace Formula.Draft

theorem isWritable_predicateLayout {name : String} {args : List Json} {value? : Option TruthValue} :
    (predicateLayout name args value?).isWritable = Json.allWritable args := by
  cases value? <;>
    simp [predicateLayout, Json.ofFields, Json.ofString, TruthValue.toJson, Json.isWritable,
      Json.allFieldsWritable]

theorem isWritable_operatorLayout {k : Connective} {operands : List Json} {claim? : Option Json} :
    (operatorLayout k operands claim?).isWritable ↔
      Json.allWritable operands ∧ ∀ claim ∈ claim?.toList, claim.isWritable := by
  cases claim? <;>
    simp [operatorLayout, Json.ofFields, Json.ofString, Connective.toJson, Json.isWritable,
      Json.allFieldsWritable]

theorem isWritable_tagged {kind : String} {body : Json} :
    (Json.ofFields [(kind, body)]).isWritable = body.isWritable := by
  simp [Json.ofFields, Json.isWritable, Json.allFieldsWritable]

mutual
theorem isWritable_toJson_iff :
    (d : Draft) → (d.toJson.isWritable ↔ ∀ claim ∈ d.claims, claim.isWritable)
  | predicate name args value? => by
    rw [toJson, isWritable_tagged, isWritable_predicateLayout]
    exact iff_of_true (Term.Draft.allWritable_toJsonAll args) nofun
  | operator k operands claim? => by
    rw [toJson, isWritable_tagged, isWritable_operatorLayout, claims, List.forall_mem_append,
      allWritable_toJsonAll_iff operands]

theorem allWritable_toJsonAll_iff :
    (ds : List Draft) →
      (Json.allWritable (toJsonAll ds) ↔ ∀ claim ∈ claimsAll ds, claim.isWritable)
  | [] => iff_of_true rfl nofun
  | d :: ds => by
    rw [toJsonAll, Json.allWritable, Bool.and_eq_true, claimsAll, List.forall_mem_append,
      isWritable_toJson_iff d, allWritable_toJsonAll_iff ds]
end

end Formula.Draft

/-! ## Building -/

/-- The symbol that a registry hands out for a name. -/
def Symbol.named (name : String) : Except Error Symbol :=
  (({} : Registry).get name).map Prod.fst

@[simp] theorem Symbol.named_name (s : Symbol) : Symbol.named s.name = .ok s := by
  rw [named, Registry.get, ofName?_name]
  rfl

namespace Term.Draft

mutual
def build : Draft → Except Error Term
  | var name => do return .var ⟨← Symbol.named name⟩
  | const name => do return .const (← Symbol.named name)
  | app name args => do
    let f ← Symbol.named name
    return .app f (← buildAll args)

def buildAll : List Draft → Except Error (List Term)
  | [] => return []
  | d :: ds => do
    let t ← build d
    return t :: (← buildAll ds)
end

end Term.Draft

namespace Formula.Draft

mutual
/-- Builds a formula from the bottom up. -/
def build : Draft → Except Error Formula
  | predicate name args value? => do
    let p ← Symbol.named name
    return .predicate p (← Term.Draft.buildAll args) (value?.getD .unknown)
  | operator k operands _ => do
    connect? k (← buildAll operands)

def buildAll : List Draft → Except Error (List Formula)
  | [] => return []
  | d :: ds => do
    let f ← build d
    return f :: (← buildAll ds)
end

end Formula.Draft

/-! ## Reading is building -/

section

variable {ε ε' α : Type} (f : ε → ε')

@[simp] theorem mapError_ok (a : α) : (Except.ok a).mapError f = .ok a := rfl

@[simp] theorem mapError_error (e : ε) : (Except.error e : Except ε α).mapError f = .error (f e) :=
  rfl

end

/-- A text that is one whole value is read as that value. -/
theorem Json.outcome_readText {α : Type} {read : Nat → Json → Reading α} {text : String} {j : Json}
    (h : Document.ofText text = ⟨j, true⟩) :
    (readText read text).outcome = (read depthLimit j).outcome := by
  rw [readText, h, Reading.outcome_bind]
  cases (read depthLimit j).outcome <;> rfl

theorem Symbol.outcome_ofJson_ofString (name : String) :
    (Symbol.ofJson (.ofString name)).outcome = (Symbol.named name).mapError .rejected := by
  unfold Symbol.named Registry.get Symbol.ofJson Json.ofString
  dsimp only
  cases Symbol.ofName? name <;> rfl

namespace Term.Draft

theorem outcome_readBoxed (n : Nat) (name : String) :
    (Json.readBoxed (n + 1) (.ofFields [("symbol", .ofString name)])).outcome =
      (Symbol.named name).mapError .rejected := by
  simp only [Json.readBoxed, Json.ofFields, Reading.fields, Json.boxedField, Reading.once,
    List.map_cons, List.map_nil, Option.isSome_none, Bool.false_eq_true, if_false,
    Reading.outcome_bind, Reading.outcome_map, Reading.outcome_pure, Symbol.outcome_ofJson_ofString]
  cases Symbol.named name <;> rfl

mutual
/-- Within its depth, reading a term is building it. -/
theorem outcome_ofJson {n : Nat} :
    (d : Draft) → d.depth ≤ n → (Term.ofJson n d.toJson).outcome = d.build.mapError .rejected
  | var name, h => by
    obtain ⟨n, rfl⟩ := Nat.exists_eq_add_of_le' (show 2 ≤ n from h)
    have hread := outcome_readBoxed n name
    rw [toJson, Json.ofFields, List.map_cons, List.map_nil, build]
    simp only [Term.ofJson, Variable.ofJson, Reading.last_nil, Reading.outcome_bind,
      Reading.outcome_map, Reading.outcome_pure, hread]
    cases Symbol.named name <;> rfl
  | const name, h => by
    obtain ⟨n, rfl⟩ := Nat.exists_eq_add_of_le' (show 2 ≤ n from h)
    have hread := outcome_readBoxed n name
    rw [toJson, Json.ofFields, List.map_cons, List.map_nil, build]
    simp only [Term.ofJson, Reading.last_nil, Reading.outcome_bind,
      Reading.outcome_map, Reading.outcome_pure, hread]
    cases Symbol.named name <;> rfl
  | app name args, h => by
    rw [depth] at h
    obtain ⟨n, rfl⟩ := Nat.exists_eq_add_of_le' (Nat.le_of_add_left_le h)
    have hargs := outcome_all_ofJson (n := n) args (by omega)
    rw [toJson, Json.ofFields, List.map_cons, List.map_nil, build]
    simp only [Term.ofJson, Reading.last_nil, Reading.outcome_bind,
      Reading.outcome_pure, Symbol.outcome_ofJson_ofString, hargs]
    cases Symbol.named name with
    | error e => rfl
    | ok f => cases buildAll args <;> rfl

theorem outcome_all_ofJson {n : Nat} :
    (ds : List Draft) → depthAll ds ≤ n →
      (Reading.all (Term.ofJson n) (toJsonAll ds)).outcome = (buildAll ds).mapError .rejected
  | [], _ => rfl
  | d :: ds, h => by
    rw [depthAll, Nat.max_le] at h
    have hd := outcome_ofJson d h.1
    have hds := outcome_all_ofJson ds h.2
    rw [toJsonAll, buildAll]
    simp only [Reading.all, Reading.outcome_bind, Reading.outcome_pure, hd, hds]
    cases build d with
    | error e => rfl
    | ok t => cases buildAll ds <;> rfl
end

end Term.Draft

namespace Formula.Draft

theorem outcome_predicateOfJson {n : Nat} (name : String) (args : List Term.Draft)
    (value? : Option TruthValue) (h : Term.Draft.depthAll args ≤ n) :
    (predicateOfJson (n + 2) (predicateLayout name (Term.Draft.toJsonAll args) value?)).outcome =
      (build (.predicate name args value?)).mapError .rejected := by
  have hsymbol := Symbol.outcome_ofJson_ofString name
  have hargs := Term.Draft.outcome_all_ofJson args h
  have hvalue (v : TruthValue) : (TruthValue.ofJson (n + 1) v.toJson).outcome = .ok v := by
    simp [TruthValue.ofJson, TruthValue.toJson, Json.ofString, Json.readName, Reading.ofOption]
  rw [build]
  cases hp : Symbol.named name with
  | error e =>
    rw [hp] at hsymbol
    simp [predicateOfJson, predicateLayout, Json.ofFields, Reading.fields, PredicateFields.read,
      Reading.once, hsymbol]
    rfl
  | ok p =>
    rw [hp] at hsymbol
    cases hts : Term.Draft.buildAll args with
    | error e =>
      rw [hts] at hargs
      simp [predicateOfJson, predicateLayout, Json.ofFields, Json.readArray, Reading.fields,
        PredicateFields.read, Reading.once, Except.bind, hsymbol, hargs]
      rfl
    | ok ts =>
      rw [hts] at hargs
      cases value? <;>
        simp [predicateOfJson, predicateLayout, Json.ofFields, Json.readArray, Reading.fields,
          PredicateFields.read, Reading.once, Except.bind, hsymbol, hargs,
          hvalue] <;>
        rfl

/-- What is claimed is skipped, and the connective is asked when everything in the operator
has been read. -/
theorem outcome_readOperator {n : Nat} {readOperands : Json → Reading (List Formula)}
    (k : Connective) (operands : List Draft) (claim? : Option Json)
    (hclaim : ∀ claim ∈ claim?, claim.isSound)
    (hoperands : (readOperands (.array (toJsonAll operands))).outcome =
      (buildAll operands).mapError .rejected) :
    (readOperator readOperands (n + 1)
        (operatorLayout k (toJsonAll operands) claim?)).outcome =
      (build (.operator k operands claim?)).mapError .rejected := by
  have hkind : (Connective.ofJson n k.toJson).outcome = .ok k := by
    simp [Connective.ofJson, Connective.toJson, Json.ofString, Json.readName, Reading.ofOption]
  have hconnect (fs : List Formula) :
      (Reading.ofExcept (connect? k fs)).outcome = (connect? k fs).mapError .rejected := by
    cases connect? k fs <;> rfl
  rw [build]
  cases hfs : buildAll operands with
  | error e =>
    rw [hfs] at hoperands
    simp [readOperator, operatorLayout, Json.ofFields, Reading.fields, OperatorFields.read,
      Reading.once, Except.bind, hkind, hoperands]
    rfl
  | ok fs =>
    rw [hfs] at hoperands
    cases claim? with
    | none =>
      simp [readOperator, operatorLayout, Json.ofFields, Reading.fields, OperatorFields.read,
        Reading.once, Except.bind, hkind, hoperands, hconnect]
      rfl
    | some claim =>
      simp [readOperator, operatorLayout, Json.ofFields, Reading.fields, OperatorFields.read,
        Reading.once, Except.bind, hkind, hoperands, hconnect, hclaim claim rfl]
      rfl

theorem isSound_operatorLayout {k : Connective} {operands : List Json} {claim? : Option Json} :
    (operatorLayout k operands claim?).isSound ↔
      Json.allSound operands ∧ ∀ claim ∈ claim?, claim.isSound := by
  cases claim? <;>
    simp [operatorLayout, Json.ofFields, Json.isSound, Json.allFieldsSound, Connective.toJson,
      Json.ofString]

mutual
/-- Within its depth, reading a formula is building it. -/
theorem outcome_ofJson {n : Nat} :
    (d : Draft) → d.depth ≤ n → d.toJson.isSound →
      (Formula.ofJson n d.toJson).outcome = d.build.mapError .rejected
  | predicate name args value?, h, _ => by
    rw [depth] at h
    obtain ⟨n, rfl⟩ := Nat.exists_eq_add_of_le' (Nat.le_of_add_left_le h)
    have hbody := outcome_predicateOfJson (n := n) name args value? (by omega)
    rw [toJson, Json.ofFields, List.map_cons, List.map_nil]
    simp only [Formula.ofJson, Reading.last_nil, Reading.outcome_bind, Reading.outcome_pure, hbody]
    cases build (.predicate name args value?) <;> rfl
  | operator k operands claim?, h, hsound => by
    rw [depth] at h
    obtain ⟨n, rfl⟩ := Nat.exists_eq_add_of_le' (Nat.le_of_add_left_le h)
    rw [toJson, Json.ofFields, List.map_cons, List.map_nil, Json.isSound, Json.allFieldsSound,
      Json.allFieldsSound, Bool.and_true, isSound_operatorLayout] at hsound
    have hoperands := outcome_all_ofJson (n := n) operands (by omega) hsound.1
    have hbody : (operatorOfJson (n + 2)
        (operatorLayout k (toJsonAll operands) claim?)).outcome =
          (build (.operator k operands claim?)).mapError .rejected := by
      rw [operatorOfJson]
      exact outcome_readOperator k operands claim? hsound.2 hoperands
    rw [toJson, Json.ofFields, List.map_cons, List.map_nil]
    simp only [Formula.ofJson, Reading.last_nil, Reading.outcome_bind, Reading.outcome_pure, hbody]
    cases build (.operator k operands claim?) <;> rfl

theorem outcome_all_ofJson {n : Nat} :
    (ds : List Draft) → depthAll ds ≤ n → Json.allSound (toJsonAll ds) →
      (Reading.all (Formula.ofJson n) (toJsonAll ds)).outcome = (buildAll ds).mapError .rejected
  | [], _, _ => rfl
  | d :: ds, h, hsound => by
    rw [depthAll, Nat.max_le] at h
    rw [toJsonAll, Json.allSound, Bool.and_eq_true] at hsound
    have hd := outcome_ofJson d h.1 hsound.1
    have hds := outcome_all_ofJson ds h.2 hsound.2
    rw [toJsonAll, buildAll]
    simp only [Reading.all, Reading.outcome_bind, Reading.outcome_pure, hd, hds]
    cases build d with
    | error e => rfl
    | ok f => cases buildAll ds <;> rfl
end

end Formula.Draft

/-! ## Nothing is read beyond its depth -/

open Reading

namespace Term.Draft

mutual
theorem depth_le_of_outcome {n : Nat} {t : Term} :
    (d : Draft) → (Term.ofJson n d.toJson).outcome = .ok t → d.depth ≤ n
  | var name, h => by
    match n with
    | 0 => cases h
    | 1 => cases h
    | n + 2 => exact Nat.le_add_left 2 n
  | const name, h => by
    match n with
    | 0 => cases h
    | 1 => cases h
    | n + 2 => exact Nat.le_add_left 2 n
  | app name args, h => by
    match n with
    | 0 => cases h
    | 1 => cases h
    | 2 =>
      obtain ⟨_, _, h⟩ := outcome_bind_eq_ok_iff.1 h
      cases h
    | n + 3 =>
      obtain ⟨_, _, h⟩ := outcome_bind_eq_ok_iff.1 h
      obtain ⟨ts, h, _⟩ := outcome_bind_eq_ok_iff.1 h
      exact Nat.add_le_add_right (depthAll_le_of_outcome args h) 3

theorem depthAll_le_of_outcome {n : Nat} {ts : List Term} :
    (ds : List Draft) → (Reading.all (Term.ofJson n) (toJsonAll ds)).outcome = .ok ts →
      depthAll ds ≤ n
  | [], _ => Nat.zero_le n
  | d :: ds, h => by
    obtain ⟨t, ht, h⟩ := outcome_bind_eq_ok_iff.1 h
    obtain ⟨ts, hts, _⟩ := outcome_bind_eq_ok_iff.1 h
    exact Nat.max_le.2 ⟨depth_le_of_outcome d ht, depthAll_le_of_outcome ds hts⟩
end

end Term.Draft

namespace Formula.Draft

theorem depth_predicate_le {n : Nat} {name : String} {args : List Term.Draft}
    {value? : Option TruthValue} {f : Formula}
    (h : (predicateOfJson n (predicateLayout name (Term.Draft.toJsonAll args) value?)).outcome =
      .ok f) : Term.Draft.depthAll args + 2 ≤ n := by
  match n with
  | 0 => cases h
  | n + 1 =>
    obtain ⟨known, h, _⟩ := outcome_bind_eq_ok_iff.1 h
    obtain ⟨_, _, h⟩ := outcome_bind_eq_ok_iff.1 h
    obtain ⟨_, h, _⟩ := outcome_bind_eq_ok_iff.1 h
    obtain ⟨ts, h, _⟩ := outcome_bind_eq_ok_iff.1 h
    replace h := outcome_once_eq_ok h
    match n with
    | 0 => cases h
    | n + 1 => exact Nat.add_le_add_right (Term.Draft.depthAll_le_of_outcome args h) 2

theorem depth_operator_le {n : Nat} {readOperands : Json → Reading (List Formula)}
    {k : Connective} {operands : List Json} {claim? : Option Json} {f : Formula}
    (h : (readOperator readOperands n (operatorLayout k operands claim?)).outcome = .ok f) :
    ∃ fs, (readOperands (.array operands)).outcome = .ok fs := by
  match n with
  | 0 => cases h
  | n + 1 =>
    obtain ⟨known, h, _⟩ := outcome_bind_eq_ok_iff.1 h
    obtain ⟨_, _, h⟩ := outcome_bind_eq_ok_iff.1 h
    obtain ⟨_, h, _⟩ := outcome_bind_eq_ok_iff.1 h
    obtain ⟨fs, h, _⟩ := outcome_bind_eq_ok_iff.1 h
    exact ⟨fs, outcome_once_eq_ok h⟩

mutual
theorem depth_le_of_outcome {n : Nat} {f : Formula} :
    (d : Draft) → (Formula.ofJson n d.toJson).outcome = .ok f → d.depth ≤ n
  | predicate name args value?, h => by
    match n with
    | 0 => cases h
    | n + 1 =>
      obtain ⟨_, h, _⟩ := outcome_bind_eq_ok_iff.1 h
      exact Nat.add_le_add_right (depth_predicate_le h) 1
  | operator k operands claim?, h => by
    match n with
    | 0 => cases h
    | 1 =>
      obtain ⟨_, h, _⟩ := outcome_bind_eq_ok_iff.1 h
      cases h
    | 2 =>
      obtain ⟨_, h, _⟩ := outcome_bind_eq_ok_iff.1 h
      obtain ⟨_, h⟩ := depth_operator_le h
      cases h
    | n + 3 =>
      obtain ⟨_, h, _⟩ := outcome_bind_eq_ok_iff.1 h
      obtain ⟨fs, h⟩ := depth_operator_le h
      exact Nat.add_le_add_right (depthAll_le_of_outcome operands h) 3

theorem depthAll_le_of_outcome {n : Nat} {fs : List Formula} :
    (ds : List Draft) → (Reading.all (Formula.ofJson n) (toJsonAll ds)).outcome = .ok fs →
      depthAll ds ≤ n
  | [], _ => Nat.zero_le n
  | d :: ds, h => by
    obtain ⟨f, hf, h⟩ := outcome_bind_eq_ok_iff.1 h
    obtain ⟨fs, hfs, _⟩ := outcome_bind_eq_ok_iff.1 h
    exact Nat.max_le.2 ⟨depth_le_of_outcome d hf, depthAll_le_of_outcome ds hfs⟩
end

end Formula.Draft
end Unification
