import Mathlib.Data.List.Basic
import Unification.Formula.Lemmas
import Unification.Renaming

/-!
# Values derived by position

Here a connective reads its operands by their positions and goes over any number of them
in a loop that stops as soon as the value cannot change any more.  Where a position is
past the last operand there is no answer.  So there is none for a connective over too
few operands, and nothing in the reading itself keeps that from happening.

Wherever the number of operands is accepted, there is an answer, and it is the one that
`Connective.evaluate` gives (`Connective.evaluate?_eq`).  So a well-formed formula can
be asked whether it is a literal, and rebuilt with other arguments.
-/

namespace Unification

namespace Connective

/-- Combines values from left to right until it arrives at `last`. -/
def loop (combine : TruthValue → TruthValue → TruthValue) (last a : TruthValue) :
    List TruthValue → TruthValue
  | [] => a
  | v :: values => if combine a v = last then last else loop combine last (combine a v) values

def evaluate? : Connective → List TruthValue → Option TruthValue
  | .and, values => some (loop .and .false .true values)
  | .or, values => some (loop .or .true .false values)
  | .not, values => values[0]?.map .not
  | .implies, values => do return (← values[0]?).implies (← values[1]?)
  | .iff, values => do return (← values[0]?).iff (← values[1]?)

variable {k : Connective} {values : List TruthValue}

theorem loop_eq_foldl {combine : TruthValue → TruthValue → TruthValue} {last : TruthValue}
    (hlast : ∀ v, combine last v = last) (a : TruthValue) (values : List TruthValue) :
    loop combine last a values = values.foldl combine a := by
  have hstay (values : List TruthValue) : values.foldl combine last = last := by
    induction values with
    | nil => rfl
    | cons v values ih => rw [List.foldl_cons, hlast, ih]
  induction values generalizing a with
  | nil => rfl
  | cons v values ih =>
    rw [loop, List.foldl_cons]
    split
    · next h => rw [h, hstay]
    · exact ih _

theorem evaluate?_eq (h : k.Accepts values.length) :
    k.evaluate? values = some (k.evaluate values) := by
  cases k with
  | and => rw [evaluate?, evaluate, loop_eq_foldl fun v => by cases v <;> rfl]
  | or => rw [evaluate?, evaluate, loop_eq_foldl fun v => by cases v <;> rfl]
  | not =>
    obtain ⟨a, rfl⟩ := List.length_eq_one_iff.1 (h 1 rfl)
    rfl
  | implies =>
    obtain ⟨a, b, rfl⟩ := List.length_eq_two.1 (h 2 rfl)
    rfl
  | iff =>
    obtain ⟨a, b, rfl⟩ := List.length_eq_two.1 (h 2 rfl)
    rfl

end Connective

namespace Formula

/-- Applies a connective without a look at the number of operands. -/
def derive? (k : Connective) (operands : List Formula) : Option Formula :=
  (k.evaluate? (operands.map value)).map (.operator k operands)

/-- Applies a connective after a look at the number of operands. -/
def deriveChecked? (k : Connective) (operands : List Formula) : Option (Except Error Formula) :=
  match k.arity? with
  | some n =>
    if operands.length = n then (derive? k operands).map .ok
    else some (.error (.invalidArgument (.operandCount k n operands.length)))
  | none => (derive? k operands).map .ok

def deriveTail? : Formula → Option (Except Error Formula)
  | .predicate p _ _ => some (.error (.unsupported (.predicateTail p)))
  | .operator k operands _ =>
    if k.isVariadic then
      match operands with
      | [] => some (.error (.invalidArgument (.emptyTail k)))
      | _ :: rest => (derive? k rest).map .ok
    else some (.error (.unsupported (.fixedArityTail k)))

/-- A negation asks its first operand. -/
def isLiteral? : Formula → Option Bool
  | .predicate _ _ _ => some true
  | .operator k operands _ => if k = .not then operands[0]?.map isAtomic else some false

mutual
/-- Changes the arguments of one predicate after the other, with a state that is carried
along, and derives all values again. -/
def rebuild? {σ : Type} (change : σ → List Term → List Term × σ) (s : σ) :
    Formula → Option (Formula × σ)
  | .predicate p args v => some (.predicate p (change s args).1 v, (change s args).2)
  | .operator k operands _ => do
    let (operands, s) ← rebuildAll? change s operands
    return (← derive? k operands, s)

def rebuildAll? {σ : Type} (change : σ → List Term → List Term × σ) (s : σ) :
    List Formula → Option (List Formula × σ)
  | [] => some ([], s)
  | f :: fs => do
    let (f, s) ← rebuild? change s f
    let (fs, s) ← rebuildAll? change s fs
    return (f :: fs, s)
end

variable {k : Connective} {operands : List Formula} {f : Formula}

theorem derive?_eq (h : k.Accepts operands.length) :
    derive? k operands = some (connect k operands) := by
  rw [derive?, Connective.evaluate?_eq (by rwa [List.length_map])]
  rfl

theorem deriveChecked?_eq (k : Connective) (operands : List Formula) :
    deriveChecked? k operands = some (connect? k operands) := by
  rw [deriveChecked?, connect?]
  cases hk : k.arity? with
  | none =>
    rw [derive?_eq (Connective.accepts_of_arity?_eq_none hk _)]
    rfl
  | some n =>
    by_cases hlength : operands.length = n
    · have haccepts := (Connective.accepts_iff_of_arity?_eq_some hk).2 hlength
      simp only [hlength, if_true, derive?_eq haccepts, Option.map_some]
    · simp only [hlength, if_false]

/-- A conjunction or disjunction accepts any number of operands, also one less. -/
theorem deriveTail?_eq (f : Formula) : f.deriveTail? = some f.tail := by
  cases f with
  | predicate p args v => rfl
  | operator k operands v =>
    by_cases hk : k.isVariadic = true
    · have haccepts := Connective.accepts_of_arity?_eq_none (Option.isNone_iff_eq_none.1 hk)
      cases operands with
      | nil => simp only [deriveTail?, tail, hk, if_true]
      | cons f rest =>
        simp only [deriveTail?, tail, hk, if_true, derive?_eq (haccepts rest.length),
          Option.map_some]
    · simp only [deriveTail?, tail, hk, Bool.false_eq_true, if_false]

theorem isLiteral?_eq (h : f.WellFormed) : f.isLiteral? = some f.isLiteral := by
  cases f with
  | predicate p args v => rfl
  | operator k operands v =>
    obtain ⟨hk, -, -⟩ := h
    cases k with
    | not =>
      obtain ⟨g, rfl⟩ := List.length_eq_one_iff.1 (hk 1 rfl)
      rfl
    | and => rfl
    | or => rfl
    | implies => rfl
    | iff => rfl

/-! ## Rebuilding -/

variable {σ : Type} {change : σ → List Term → List Term × σ} {one : σ → Formula → Formula × σ}
  {all : σ → List Formula → List Formula × σ}

/-- A traversal that changes the arguments of predicates and connects operands anew. -/
structure Rebuilds (change : σ → List Term → List Term × σ) (one : σ → Formula → Formula × σ)
    (all : σ → List Formula → List Formula × σ) : Prop where
  predicate : ∀ s p args v,
    one s (.predicate p args v) = (.predicate p (change s args).1 v, (change s args).2)
  operator : ∀ s k operands v,
    one s (.operator k operands v) = (connect k (all s operands).1, (all s operands).2)
  nil : ∀ s, all s [] = ([], s)
  cons : ∀ s f fs,
    all s (f :: fs) = ((one s f).1 :: (all (one s f).2 fs).1, (all (one s f).2 fs).2)

theorem rebuilds_mapTerms (g : Term → Term) :
    Rebuilds (fun _ args => (args.map g, ())) (fun _ f => (f.mapTerms g, ()))
      (fun _ fs => (mapTermsAll g fs, ())) where
  predicate _ _ _ _ := rfl
  operator _ _ _ _ := rfl
  nil _ := rfl
  cons _ _ _ := rfl

theorem rebuilds_standardizeApart :
    Rebuilds Term.standardizeAllApart standardizeApart standardizeAllApart where
  predicate _ _ _ _ := rfl
  operator _ _ _ _ := rfl
  nil _ := rfl
  cons _ _ _ := rfl

namespace Rebuilds

theorem length_all (h : Rebuilds change one all) (s : σ) (fs : List Formula) :
    (all s fs).1.length = fs.length := by
  induction fs generalizing s with
  | nil => rw [h.nil]
  | cons f fs ih => rw [h.cons, List.length_cons, List.length_cons, ih]

theorem rebuildAll?_eq (h : Rebuilds change one all) {fs : List Formula}
    (hfs : ∀ f ∈ fs, ∀ s, f.rebuild? change s = some (one s f)) (s : σ) :
    rebuildAll? change s fs = some (all s fs) := by
  induction fs generalizing s with
  | nil => rw [rebuildAll?, h.nil]
  | cons f fs ih =>
    obtain ⟨hf, hfs⟩ := List.forall_mem_cons.1 hfs
    rw [rebuildAll?, hf, h.cons]
    simp only [Option.bind_eq_bind, Option.bind_some, ih hfs, Option.pure_def]

/-- Operands are as many after the traversal as before, so their values can be read. -/
theorem rebuild?_eq (h : Rebuilds change one all) (hf : f.WellFormed) (s : σ) :
    f.rebuild? change s = some (one s f) := by
  induction f generalizing s with
  | predicate p args v => rw [rebuild?, h.predicate]
  | operator k operands v ih =>
    obtain ⟨hk, -, hoperands⟩ := hf
    rw [allWellFormed_iff] at hoperands
    have hall := h.rebuildAll?_eq (fun g hg => ih g hg (hoperands g hg)) s
    have hderive := @derive?_eq k (all s operands).1 (by rwa [h.length_all])
    rw [rebuild?, hall, h.operator]
    simp only [Option.bind_eq_bind, Option.bind_some, hderive, Option.pure_def]

end Rebuilds

end Formula
end Unification
