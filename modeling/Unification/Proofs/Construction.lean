import Unification.Json.Text
import Unification.Proofs.Json.Reading
import Unification.Proofs.Kleene
import Unification.Proofs.RenamingApart
import Unification.Proofs.Unchecked.Reading
import Unification.Substitution.Basic

/-!
# Formulas that can be constructed

A formula comes from a predicate with a value, from operands under a connective, from
the tail of another formula, from replacing or renaming its variables, or from a text.
Every construction gives a well-formed formula if it starts from such (`wellFormed_of_run`),
and every well-formed formula can be constructed (`reachable_iff_wellFormed`).

Values are derived by position, without a look at the number of operands except where a
construction makes one, as reading does at each operator of a text.
`constructed_values_settled` says that all the same no position is ever out of range, and
that what is stored at each operator is settled by its operands.
-/

namespace Unification
namespace Formula

/-- A formula that stands anywhere in another one, or is it. -/
inductive IsPart (g : Formula) : Formula → Prop
  | self : IsPart g g
  | operand {k operands v f} : f ∈ operands → IsPart g f → IsPart g (.operator k operands v)

theorem IsPart.wellFormed {f g : Formula} (h : g.IsPart f) (hf : f.WellFormed) : g.WellFormed := by
  induction h with
  | self => exact hf
  | operand hmem _ ih => exact ih ((allWellFormed_iff _).1 hf.2.2 _ hmem)

/-- A way to come by a formula. -/
inductive Construction where
  | predicate (p : Symbol) (args : List Term) (v : TruthValue)
  | and (operands : List Formula)
  | or (operands : List Formula)
  | not (f : Formula)
  | implies (f g : Formula)
  | iff (f g : Formula)
  /-- Refused if the connective does not accept so many operands. -/
  | connect (k : Connective) (operands : List Formula)
  | tail (f : Formula)
  | replace (f : Formula) (σ : Substitution)
  | standardize (f : Formula) (s : Renamer)
  | read (text : String)
  /-- From a text without the field that says which kind of formula it is. -/
  | readPredicate (text : String)
  | readOperator (text : String)

namespace Construction

/-- The formulas that a construction starts from. -/
def inputs : Construction → List Formula
  | and operands | or operands | connect _ operands => operands
  | not f | tail f | replace f _ | standardize f _ => [f]
  | implies f g | iff f g => [f, g]
  | predicate _ _ _ | read _ | readPredicate _ | readOperator _ => []

def run : Construction → Except ReadError Formula
  | predicate p args v => .ok (.predicate p args v)
  | and operands => .ok (.and operands)
  | or operands => .ok (.or operands)
  | not f => .ok f.not
  | implies f g => .ok (f.implies g)
  | iff f g => .ok (f.iff g)
  | connect k operands => (connect? k operands).mapError .rejected
  | tail f => f.tail.mapError .rejected
  | replace f σ => .ok (f.replace σ)
  | standardize f s => .ok (f.standardizeApart s).1
  | read text => (Json.readText ofJson text).outcome
  | readPredicate text => (Json.readText predicateOfJson text).outcome
  | readOperator text => (Json.readText operatorOfJson text).outcome

/-- The same with values derived by position.  A text of a predicate alone has none to derive. -/
def run? : Construction → Option (Except ReadError Formula)
  | predicate p args v => some (.ok (.predicate p args v))
  | and operands => (derive? .and operands).map .ok
  | or operands => (derive? .or operands).map .ok
  | not f => (derive? .not [f]).map .ok
  | implies f g => (derive? .implies [f, g]).map .ok
  | iff f g => (derive? .iff [f, g]).map .ok
  | connect k operands => (deriveChecked? k operands).map (·.mapError .rejected)
  | tail f => f.deriveTail?.map (·.mapError .rejected)
  | replace f σ =>
    (f.rebuild? (fun _ args => (args.map (·.replace σ), ())) ()).map fun (f, _) => .ok f
  | standardize f s => (f.rebuild? Term.standardizeAllApart s).map fun (f, _) => .ok f
  | read text => Reading.answer? (Json.readText? ofJson? text)
  | readPredicate text => some (Json.readText predicateOfJson text).outcome
  | readOperator text => Reading.answer? (Json.readText? operatorOfJson? text)

end Construction

/-- What constructions arrive at, each from what earlier ones have arrived at. -/
inductive Reachable : Formula → Prop
  | construct {c : Construction} {f : Formula} :
    (∀ g ∈ c.inputs, Reachable g) → c.run = .ok f → Reachable f

/-! ## Every construction keeps formulas well formed -/

variable {f : Formula} {c : Construction}

theorem wellFormed_of_readText {read : Nat → Json → Reading Formula} {text : String}
    (hread : ∀ depth j, (read depth j).outcome = .ok f → f.WellFormed)
    (h : (Json.readText read text).outcome = .ok f) : f.WellFormed := by
  obtain ⟨g, hg, h⟩ := Reading.outcome_bind_eq_ok_iff.1 h
  split at h
  · cases h
    exact hread _ _ hg
  · cases h

theorem wellFormed_of_tail {g : Formula} (hf : f.WellFormed) (h : f.tail = .ok g) :
    g.WellFormed := by
  unfold tail at h
  split at h
  · cases h
  · split at h
    · next hk =>
      split at h
      · cases h
      · cases h
        have haccepts := Connective.accepts_of_arity?_eq_none (Option.isNone_iff_eq_none.1 hk)
        refine wellFormed_connect (haccepts _) fun g hg => ?_
        exact (allWellFormed_iff _).1 hf.2.2 g (List.mem_cons_of_mem _ hg)
    · cases h

theorem wellFormed_of_mapError {r : Except Error Formula}
    (hr : ∀ g, r = .ok g → g.WellFormed) (h : r.mapError ReadError.rejected = .ok f) :
    f.WellFormed := by
  cases r with
  | error cause => cases h
  | ok g =>
    cases h
    exact hr f rfl

theorem wellFormed_of_run (hinputs : ∀ g ∈ c.inputs, g.WellFormed) (h : c.run = .ok f) :
    f.WellFormed := by
  cases c with
  | predicate p args v =>
    cases h
    trivial
  | and operands =>
    cases h
    exact wellFormed_and hinputs
  | or operands =>
    cases h
    exact wellFormed_or hinputs
  | not f =>
    cases h
    exact wellFormed_not (List.forall_mem_singleton.1 hinputs)
  | implies f g =>
    obtain ⟨hf, hg⟩ := List.forall_mem_cons.1 hinputs
    cases h
    exact wellFormed_implies hf (List.forall_mem_singleton.1 hg)
  | iff f g =>
    obtain ⟨hf, hg⟩ := List.forall_mem_cons.1 hinputs
    cases h
    exact wellFormed_iff hf (List.forall_mem_singleton.1 hg)
  | connect k operands =>
    exact wellFormed_of_mapError (fun g hg => wellFormed_of_connect? hg hinputs) h
  | tail f =>
    have hf : f.WellFormed := hinputs f (List.mem_singleton.2 rfl)
    exact wellFormed_of_mapError (fun g hg => wellFormed_of_tail hf hg) h
  | replace f σ =>
    cases h
    exact wellFormed_mapTerms (hinputs f (List.mem_singleton.2 rfl)) _
  | standardize f s =>
    cases h
    rw [standardizeApart_eq]
    exact wellFormed_mapTerms (hinputs f (List.mem_singleton.2 rfl)) _
  | read text => exact wellFormed_of_readText wellFormed_ofJson h
  | readPredicate text => exact wellFormed_of_readText (fun _ _ => wellFormed_predicateOfJson) h
  | readOperator text => exact wellFormed_of_readText wellFormed_operatorOfJson h

theorem Reachable.wellFormed (h : Reachable f) : f.WellFormed := by
  induction h with
  | construct _ hrun ih => exact wellFormed_of_run ih hrun

theorem reachable_of_wellFormed (h : f.WellFormed) : Reachable f := by
  induction f with
  | predicate p args v => exact .construct (c := .predicate p args v) nofun rfl
  | operator k operands v ih =>
    obtain ⟨hk, rfl, hoperands⟩ := h
    rw [allWellFormed_iff] at hoperands
    refine .construct (c := .connect k operands) (fun g hg => ih g hg (hoperands g hg)) ?_
    rw [Construction.run, connect?_eq_ok hk]
    rfl

/-- What can be constructed is what is well formed. -/
theorem reachable_iff_wellFormed : Reachable f ↔ f.WellFormed :=
  ⟨Reachable.wellFormed, reachable_of_wellFormed⟩

/-! ## No position is out of range -/

theorem run?_eq (h : ∀ g ∈ c.inputs, g.WellFormed) : c.run? = some c.run := by
  cases c with
  | predicate p args v => rfl
  | and operands =>
    rw [Construction.run?, derive?_eq (Connective.accepts_of_arity?_eq_none rfl _)]
    rfl
  | or operands =>
    rw [Construction.run?, derive?_eq (Connective.accepts_of_arity?_eq_none rfl _)]
    rfl
  | not f => rfl
  | implies f g => rfl
  | iff f g => rfl
  | connect k operands => rw [Construction.run?, deriveChecked?_eq]; rfl
  | tail f => rw [Construction.run?, deriveTail?_eq]; rfl
  | replace f σ =>
    rw [Construction.run?, (rebuilds_mapTerms _).rebuild?_eq (h f (List.mem_singleton.2 rfl))]
    rfl
  | standardize f s =>
    rw [Construction.run?, rebuilds_standardizeApart.rebuild?_eq (h f (List.mem_singleton.2 rfl))]
    rfl
  | read text =>
    rw [Construction.run?, Json.readText?_eq ofJson?_eq, Reading.answer?_liftM]
    rfl
  | readPredicate text => rfl
  | readOperator text =>
    rw [Construction.run?, Json.readText?_eq operatorOfJson?_eq, Reading.answer?_liftM]
    rfl

/-- Every operator in a formula that can be constructed has as many operands as its
connective accepts and the value that they settle, and no construction reads an operand
that is not there. -/
theorem constructed_values_settled :
    (∀ f, Reachable f →
      (∀ k operands v, (operator k operands v).IsPart f →
        k.Accepts operands.length ∧ k.Settled (operands.map value) v ∧
          k.evaluate? (operands.map value) = some v) ∧
      ∀ g : Formula, g.IsPart f → g.isLiteral? = some g.isLiteral) ∧
    ∀ c : Construction, (∀ f ∈ c.inputs, Reachable f) → c.run? = some c.run := by
  refine ⟨fun f hf => ⟨fun k operands v hpart => ?_, fun g hpart => ?_⟩, fun c hc => ?_⟩
  · obtain ⟨hk, rfl, -⟩ := hpart.wellFormed hf.wellFormed
    have haccepts : k.Accepts (operands.map value).length := by rwa [List.length_map]
    exact ⟨hk, Connective.settled_evaluate haccepts, Connective.evaluate?_eq haccepts⟩
  · exact isLiteral?_eq (hpart.wellFormed hf.wellFormed)
  · exact run?_eq fun f hf => (hc f hf).wellFormed

/-- A text that claims a disjunction of a negated conjunction to be true, all of it empty. -/
theorem constructed_values_settled_read :
    let empty : Formula := .operator .and [] .true
    let f : Formula := .operator .or [.operator .not [empty] .false] .false
    ∃ text : Json,
      (Construction.read text.text).run = .ok f ∧
      (Construction.read text.text).run? = some (.ok f) ∧ Reachable f ∧ empty.IsPart f ∧
      (Connective.and.Accepts 0 ∧ Connective.and.Settled [] .true ∧
        Connective.and.evaluate? [] = some .true) ∧
      empty.isLiteral? = some empty.isLiteral ∧
      (Construction.tail f).run? = some (Construction.tail f).run := by
  intro empty f
  let claim (kind : String) (operands : List Json) : Json :=
    .ofFields [("Operator", .ofFields [("kind", .ofString kind), ("operands", .array operands),
      ("value", .ofString "true")])]
  let text := (claim "or" [claim "not" [claim "and" []]]).text
  have hrun : (Construction.read text).run = .ok f := by decide +kernel
  have hrun? := constructed_values_settled.2 (.read text) nofun
  have hf : Reachable f := .construct (c := .read text) nofun hrun
  have hpart : empty.IsPart f := .operand List.mem_cons_self (.operand List.mem_cons_self .self)
  obtain ⟨hvalues, hliteral⟩ := constructed_values_settled.1 f hf
  exact ⟨_, hrun, hrun?.trans (congrArg some hrun), hf, hpart, hvalues _ _ _ hpart, hliteral empty hpart,
    constructed_values_settled.2 (.tail f) (List.forall_mem_singleton.2 hf)⟩

end Formula
end Unification
