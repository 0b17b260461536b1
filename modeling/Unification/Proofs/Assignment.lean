import Unification.Proofs.Construction

/-!
# Assigning values to unknown predicates

An interpretation may come to know the values of some predicates of a formula later than
those of others.  `Formula.assign?` gives values to predicates that have none, chosen for
each place where such a predicate stands, and derives the values of all operators again.

Nothing that was known before changes by this, at any place of the formula
(`assigned_values_agree`): an operator has a known value only where its operands force it,
so the value is the same however the unknown ones turn out.  Once every predicate has a
value, so does the formula, and it is the classical one.
-/

namespace Unification

namespace TruthValue

/-- Whatever is known stays as it is. -/
def RefinedBy (a a' : TruthValue) : Prop := a.isKnown = true → a' = a

instance (a a' : TruthValue) : Decidable (a.RefinedBy a') :=
  inferInstanceAs (Decidable (a.isKnown = true → a' = a))

variable {a a' : TruthValue} {b : Bool}

theorem refinedBy_iff : a.RefinedBy a' ↔ ∀ b, a = ofBool b → a' = ofBool b := by
  cases a <;> cases a' <;> decide

theorem RefinedBy.admits (h : a.RefinedBy a') (hb : a'.Admits b) : a.Admits b := by
  intro c hc
  have hknown : a = ofBool c := by rw [← ofBool?_toBool? a, Option.mem_def.1 hc]; rfl
  rw [refinedBy_iff.1 h c hknown, admits_ofBool] at hb
  exact hb

end TruthValue

namespace Connective

open TruthValue

variable {k : Connective} {values values' : List TruthValue}

theorem forall₂_admits_of_refinedBy {bs : List Bool} (h : List.Forall₂ RefinedBy values values')
    (hbs : List.Forall₂ Admits values' bs) : List.Forall₂ Admits values bs := by
  induction h generalizing bs with
  | nil => exact hbs
  | cons hfirst _ ih =>
    cases hbs with
    | cons hb hbs => exact .cons (hfirst.admits hb) (ih hbs)

/-- What the operands force stays when more becomes known about them. -/
theorem evaluate_refinedBy (hk : k.Accepts values.length)
    (h : List.Forall₂ RefinedBy values values') :
    (k.evaluate values).RefinedBy (k.evaluate values') := by
  rw [refinedBy_iff]
  intro b hb
  have hk' : k.Accepts values'.length := h.length_eq ▸ hk
  -- What the new values may turn out to be, the old ones may turn out to be as well.
  rw [settled_evaluate hk b] at hb
  rw [settled_evaluate hk' b]
  exact fun bs hbs => hb bs (forall₂_admits_of_refinedBy h hbs)

/-- On known operands the value is the classical one. -/
theorem evaluate_map_ofBool {bs : List Bool} (hk : k.Accepts bs.length) :
    k.evaluate (bs.map ofBool) = ofBool (k.holds bs) := by
  have haccepts : k.Accepts (bs.map ofBool).length := by rwa [List.length_map]
  rw [settled_evaluate haccepts]
  intro cs hcs
  simp only [List.forall₂_map_left_iff, admits_ofBool, eq_comm, List.forall₂_eq_eq_eq] at hcs
  rw [hcs]

end Connective

namespace Formula

/-! ## Places in a formula -/

/-- The formula that stands at a place.  A place is given by the numbers of the operands
on the way to it. -/
def part? : Formula → List Nat → Option Formula
  | f, [] => some f
  | f, i :: place => do part? (← f.operands[i]?) place

mutual
/-- Every predicate has a known value. -/
def isAssigned : Formula → Bool
  | .predicate _ _ v => v.isKnown
  | .operator _ operands _ => allAssigned operands

def allAssigned : List Formula → Bool
  | [] => true
  | f :: fs => isAssigned f && allAssigned fs
end

mutual
/-- The classical value, derived from all operands at every operator. -/
def holds : Formula → Bool
  | .predicate _ _ v => v = .true
  | .operator k operands _ => k.holds (holdsAll operands)

def holdsAll : List Formula → List Bool
  | [] => []
  | f :: fs => holds f :: holdsAll fs
end

mutual
/-- Gives each predicate of unknown value the value chosen for its place, if there is one,
and derives all other values again, by position. -/
def assign? (choice : List Nat → Option Bool) : Formula → Option Formula
  | .predicate p args v => some (.predicate p args (if v.isKnown then v else .ofBool? (choice [])))
  | .operator k operands _ => do
    derive? k (← assignAll? (fun i place => choice (i :: place)) operands)

def assignAll? (choice : Nat → List Nat → Option Bool) : List Formula → Option (List Formula)
  | [] => some []
  | f :: fs => do
    return (← assign? (choice 0) f) :: (← assignAll? (fun i => choice (i + 1)) fs)
end

mutual
/-- The same with the values that the connectives give. -/
def assign (choice : List Nat → Option Bool) : Formula → Formula
  | .predicate p args v => .predicate p args (if v.isKnown then v else .ofBool? (choice []))
  | .operator k operands _ => connect k (assignAll (fun i place => choice (i :: place)) operands)

def assignAll (choice : Nat → List Nat → Option Bool) : List Formula → List Formula
  | [] => []
  | f :: fs => assign (choice 0) f :: assignAll (fun i => choice (i + 1)) fs
end

variable {f : Formula} {choice : List Nat → Option Bool}

@[simp] theorem allAssigned_eq (fs : List Formula) : allAssigned fs = fs.all isAssigned := by
  induction fs with
  | nil => rfl
  | cons f fs ih => rw [allAssigned, ih, List.all_cons]

@[simp] theorem holdsAll_eq (fs : List Formula) : holdsAll fs = fs.map holds := by
  induction fs with
  | nil => rfl
  | cons f fs ih => rw [holdsAll, ih, List.map_cons]

@[simp] theorem assignAll_eq (choice : Nat → List Nat → Option Bool) (fs : List Formula) :
    assignAll choice fs = fs.mapIdx fun i f => f.assign (choice i) := by
  induction fs generalizing choice with
  | nil => rfl
  | cons f fs ih => rw [assignAll, ih, List.mapIdx_cons]

theorem part?_cons (f : Formula) (i : Nat) (place : List Nat) :
    f.part? (i :: place) = f.operands[i]?.bind (·.part? place) := rfl

theorem part?_assign (choice : List Nat → Option Bool) (f : Formula) (place : List Nat) :
    (f.assign choice).part? place =
      (f.part? place).map (assign fun rest => choice (place ++ rest)) := by
  induction place generalizing f choice with
  | nil => rfl
  | cons i place ih =>
    rw [part?_cons, part?_cons]
    cases f with
    | predicate p args v => rfl
    | operator k operands v =>
      rw [assign, connect, assignAll_eq]
      simp only [Formula.operands, List.getElem?_mapIdx]
      cases operands[i]? with
      | none => rfl
      | some g => exact ih _ g

theorem WellFormed.part? {g : Formula} {place : List Nat} (hf : f.WellFormed)
    (h : f.part? place = some g) : g.WellFormed := by
  induction place generalizing f with
  | nil => cases h; exact hf
  | cons i place ih =>
    rw [part?_cons] at h
    cases f with
    | predicate p args v => simp [Formula.operands] at h
    | operator k operands v =>
      obtain ⟨f', hf', h⟩ := Option.bind_eq_some_iff.1 h
      exact ih ((allWellFormed_iff _).1 hf.2.2 f' (List.mem_of_getElem? hf')) h

theorem length_assignAll (choice : Nat → List Nat → Option Bool) (fs : List Formula) :
    (assignAll choice fs).length = fs.length := by
  rw [assignAll_eq, List.length_mapIdx]

theorem wellFormed_assign (hf : f.WellFormed) (choice : List Nat → Option Bool) :
    (f.assign choice).WellFormed := by
  induction f generalizing choice with
  | predicate p args v => trivial
  | operator k operands v ih =>
    obtain ⟨hk, -, hoperands⟩ := hf
    rw [allWellFormed_iff] at hoperands
    rw [assign]
    refine wellFormed_connect (by rwa [length_assignAll]) fun g hg => ?_
    rw [assignAll_eq, List.mem_mapIdx] at hg
    obtain ⟨i, hi, rfl⟩ := hg
    exact ih _ (List.getElem_mem hi) (hoperands _ (List.getElem_mem hi)) _

theorem assignAll?_eq {fs : List Formula}
    (hfs : ∀ f ∈ fs, ∀ choice, f.assign? choice = some (f.assign choice))
    (choice : Nat → List Nat → Option Bool) :
    assignAll? choice fs = some (assignAll choice fs) := by
  induction fs generalizing choice with
  | nil => rfl
  | cons f fs ih =>
    obtain ⟨hf, hfs⟩ := List.forall_mem_cons.1 hfs
    rw [assignAll?, hf, ih hfs, assignAll]
    rfl

theorem assign?_eq (hf : f.WellFormed) (choice : List Nat → Option Bool) :
    f.assign? choice = some (f.assign choice) := by
  induction f generalizing choice with
  | predicate p args v => rfl
  | operator k operands v ih =>
    obtain ⟨hk, -, hoperands⟩ := hf
    rw [allWellFormed_iff] at hoperands
    rw [assign?, assignAll?_eq fun g hg => ih g hg (hoperands g hg)]
    exact derive?_eq (by rwa [length_assignAll])

theorem value_assignAll {fs : List Formula}
    (hfs : ∀ f ∈ fs, ∀ choice, f.value.RefinedBy (f.assign choice).value)
    (choice : Nat → List Nat → Option Bool) :
    List.Forall₂ TruthValue.RefinedBy (fs.map value) ((assignAll choice fs).map value) := by
  induction fs generalizing choice with
  | nil => exact .nil
  | cons f fs ih =>
    obtain ⟨hf, hfs⟩ := List.forall_mem_cons.1 hfs
    exact .cons (hf _) (ih hfs _)

theorem value_assign (hf : f.WellFormed) (choice : List Nat → Option Bool) :
    f.value.RefinedBy (f.assign choice).value := by
  induction f generalizing choice with
  | predicate p args v => exact fun hv => if_pos hv
  | operator k operands v ih =>
    obtain ⟨hk, rfl, hoperands⟩ := hf
    rw [allWellFormed_iff] at hoperands
    have hvalues := value_assignAll (fun g hg => ih g hg (hoperands g hg))
      fun i place => choice (i :: place)
    exact Connective.evaluate_refinedBy (by rwa [List.length_map]) hvalues

theorem value_of_isAssigned (hf : f.WellFormed) (h : f.isAssigned = true) :
    f.value = .ofBool f.holds := by
  induction f with
  | predicate p args v =>
    cases v with
    | true => rfl
    | false => rfl
    | unknown => cases h
  | operator k operands v ih =>
    obtain ⟨hk, rfl, hoperands⟩ := hf
    rw [allWellFormed_iff] at hoperands
    rw [isAssigned, allAssigned_eq, List.all_eq_true] at h
    have hvalues : operands.map value = (operands.map holds).map .ofBool := by
      rw [List.map_map]
      exact List.map_congr_left fun g hg => ih g hg (hoperands g hg) (h g hg)
    rw [value, holds, holdsAll_eq, hvalues]
    exact Connective.evaluate_map_ofBool (by rwa [List.length_map])

/-- Whatever values the unknown predicates are given, each where it stands, every formula
in `f` that had a known value keeps it.  If none is left unknown, the whole has the
classical value. -/
theorem assigned_values_agree (hf : Reachable f) (choice : List Nat → Option Bool) :
    ∃ g, f.assign? choice = some g ∧ Reachable g ∧
      (∀ place part, f.part? place = some part → part.value.isKnown = true →
        ∃ part', g.part? place = some part' ∧ part'.value = part.value) ∧
      (g.isAssigned = true → g.value = .ofBool g.holds) := by
  have hwell := hf.wellFormed
  have hassigned := wellFormed_assign hwell choice
  refine ⟨f.assign choice, assign?_eq hwell choice, reachable_of_wellFormed hassigned,
    fun place part hplace hknown => ?_, value_of_isAssigned hassigned⟩
  refine ⟨part.assign fun rest => choice (place ++ rest), ?_, ?_⟩
  · rw [part?_assign, hplace, Option.map_some]
  · exact value_assign (hwell.part? hplace) _ hknown

/-- Both places of one predicate beside the false operand of a conjunction are given values,
and different ones. -/
theorem assigned_values_agree_apart :
    let p : TruthValue → Formula := .predicate ⟨"p", by decide⟩ []
    let f : Formula := .or [.and [p .unknown, p .false, p .unknown], p .unknown]
    let g : Formula := .or [.and [p .true, p .false, p .false], p .true]
    let choice : List Nat → Option Bool := fun place => some (place ≠ [0, 2])
    Reachable f ∧ f.part? [0] = some (.operator .and [p .unknown, p .false, p .unknown] .false) ∧
      f.assign? choice = some g ∧ Reachable g ∧
      (∃ part', g.part? [0] = some part' ∧ part'.value = .false) ∧
      g.isAssigned = true ∧ g.value = .ofBool g.holds := by
  intro p f g choice
  have hany {k : Connective} (hk : k.arity? = none) (n : Nat) : k.Accepts n :=
    Connective.accepts_of_arity?_eq_none hk n
  have hf : Reachable f := reachable_of_wellFormed
    ⟨hany rfl _, rfl, ⟨hany rfl _, rfl, trivial, trivial, trivial, trivial⟩, trivial, trivial⟩
  obtain ⟨g', hg', hreachable, hparts, hvalue⟩ := assigned_values_agree hf choice
  have hg : f.assign? choice = some g := by rfl
  cases hg.symm.trans hg'
  exact ⟨hf, rfl, hg, hreachable, hparts [0] _ rfl rfl, rfl, hvalue rfl⟩

end Formula
end Unification
