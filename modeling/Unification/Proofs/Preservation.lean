import Unification.Proofs.Assignment
import Unification.Proofs.Skeleton
import Unification.Proofs.Unchecked.Following

/-!
# Values that stay in place

Replacing and renaming variables change the arguments of predicates and build every operator
again, with a value derived from its new operands.  A formula that can be constructed has
derived values to begin with, so each operator comes to the value it had, from the leaves
up, and every place of the result has the value of that place before
(`Formula.replaced_and_renamed_retain`).

This needs nothing from the way in which arguments are changed but that their number stays,
and holds of every traversal that rebuilds a formula (`Formula.Rebuilds.retains`).
-/

namespace Unification

namespace Formula

variable {f g : Formula} {fs gs : List Formula}

/-- `g` has the connectives of `f` over as many operands and its predicate symbols over as many
arguments, and at every place the value that stands there in `f`. -/
structure Retains (f g : Formula) : Prop where
  skeleton : g.skeleton = f.skeleton
  values : ∀ place, (g.part? place).map value = (f.part? place).map value

/-- The whole formula is the part at the empty place. -/
theorem Retains.value (h : f.Retains g) : g.value = f.value := Option.some.inj (h.values [])

theorem retains_predicate (p : Symbol) {args args' : List Term} (h : args'.length = args.length)
    (v : TruthValue) : (predicate p args v).Retains (predicate p args' v) where
  skeleton := by rw [Formula.skeleton, Formula.skeleton, h]
  values place := by cases place <;> rfl

theorem values_operand (h : List.Forall₂ Retains fs gs) (i : Nat) (place : List Nat) :
    (gs[i]?.bind (·.part? place)).map value = (fs[i]?.bind (·.part? place)).map value := by
  induction h generalizing i with
  | nil => rfl
  | cons hfirst _ ih =>
    cases i with
    | zero => exact hfirst.values place
    | succ i => exact ih i

/-- An operator built from operands that retain their values has the value it had. -/
theorem retains_connect (h : List.Forall₂ Retains fs gs) (k : Connective) :
    (connect k fs).Retains (connect k gs) := by
  have hmaps : gs.map skeleton = fs.map skeleton ∧ gs.map value = fs.map value := by
    induction h with
    | nil => exact ⟨rfl, rfl⟩
    | cons hfirst _ ih =>
      simp only [List.map_cons, hfirst.skeleton, hfirst.value, ih.1, ih.2, and_self]
  obtain ⟨hskeletons, hvalues⟩ := hmaps
  constructor
  · rw [connect, connect, skeleton, skeleton, skeletonAll_eq, skeletonAll_eq, hskeletons]
  · intro place
    cases place with
    | nil => exact congrArg (fun values => some (k.evaluate values)) hvalues
    | cons i place => exact values_operand h i place

/-! ## Traversals that rebuild -/

namespace Rebuilds

variable {σ : Type} {change : σ → List Term → List Term × σ} {one : σ → Formula → Formula × σ}
  {all : σ → List Formula → List Formula × σ}

theorem forall₂_retains (h : Rebuilds change one all) (hfs : ∀ f ∈ fs, ∀ s, f.Retains (one s f).1)
    (s : σ) : List.Forall₂ Retains fs (all s fs).1 := by
  induction fs generalizing s with
  | nil =>
    rw [h.nil]
    exact .nil
  | cons f fs ih =>
    obtain ⟨hf, hfs⟩ := List.forall_mem_cons.1 hfs
    rw [h.cons]
    exact .cons (hf s) (ih hfs _)

/-- Whatever becomes of the arguments, the values that are derived again are those that
have been derived before. -/
theorem retains (h : Rebuilds change one all)
    (hchange : ∀ s args, (change s args).1.length = args.length) (hf : f.WellFormed) (s : σ) :
    f.Retains (one s f).1 := by
  induction f generalizing s with
  | predicate p args v =>
    rw [h.predicate]
    exact retains_predicate p (hchange s args) v
  | operator k operands v ih =>
    obtain ⟨-, rfl, hoperands⟩ := hf
    rw [allWellFormed_iff] at hoperands
    rw [h.operator]
    exact retains_connect (h.forall₂_retains (fun g hg => ih g hg (hoperands g hg)) s) k

end Rebuilds

theorem retains_replace (hf : f.WellFormed) (σ : Substitution) : f.Retains (f.replace σ) :=
  (rebuilds_mapTerms (Term.subst σ.value)).retains (fun _ _ => List.length_map _) hf ()

theorem retains_standardizeApart (hf : f.WellFormed) (s : Renamer) :
    f.Retains (f.standardizeApart s).1 := by
  refine rebuilds_standardizeApart.retains (fun s args => ?_) hf s
  rw [Term.standardizeAllApart_eq, Renamer.length_eachApart]

/-- Whichever variables are replaced or renamed, on top of any substitution and with any
record and registry, the values of all operators can be derived again, and the result
retains the build of the formula and the value at each of its places. -/
theorem replaced_and_renamed_retain (hf : f.Reachable) :
    (∀ σ, (Construction.replace f σ).run? = some (.ok (f.replace σ)) ∧
      f.Retains (f.replace σ)) ∧
    ∀ s, (Construction.standardize f s).run? = some (.ok (f.standardizeApart s).1) ∧
      f.Retains (f.standardizeApart s).1 := by
  refine ⟨fun σ => ⟨?_, retains_replace hf.wellFormed σ⟩,
    fun s => ⟨?_, retains_standardizeApart hf.wellFormed s⟩⟩
  · exact run?_eq (List.forall_mem_singleton.2 hf.wellFormed)
  · exact run?_eq (List.forall_mem_singleton.2 hf.wellFormed)

/-- A known value is derived from a known and an unknown one, which stay where they are. -/
theorem replaced_and_renamed_retain_mixed :
    let p (t : Term) (v : TruthValue) : Formula := .predicate Sample.p [t] v
    let f (t u : Term) : Formula := .or [p t .unknown, .not (p u .false)]
    let original : Formula := f (.var Sample.x) (.var Sample.y)
    let replaced : Formula := f (.app Sample.f [.var Sample.y]) (.var Sample.y)
    let s : Renamer := ⟨∅, Registry.ofConfig {}⟩
    original.Reachable ∧ original.replace Sample.bound = replaced ∧ original.value = .true ∧
      (Construction.replace original Sample.bound).run? = some (.ok replaced) ∧
      original.Retains replaced ∧
      (Construction.standardize original s).run? = some (.ok (original.standardizeApart s).1) ∧
      original.Retains (original.standardizeApart s).1 := by
  intro p f original replaced s
  have hnegation : (Formula.not (p (.var Sample.y) .false)).WellFormed := wellFormed_not trivial
  have hreachable : original.Reachable :=
    reachable_of_wellFormed
      (wellFormed_or (List.forall_mem_cons.2 ⟨trivial, List.forall_mem_singleton.2 hnegation⟩))
  have hreplaced : original.replace Sample.bound = replaced :=
    (Bindings.replaceFormula?_bindings Sample.bound original).unique (.of_depth 6 fun _ => rfl)
  obtain ⟨hreplace, hstandardize⟩ := replaced_and_renamed_retain hreachable
  obtain ⟨hrun, hretains⟩ := hreplace Sample.bound
  rw [hreplaced] at hrun hretains
  exact ⟨hreachable, hreplaced, rfl, hrun, hretains, hstandardize s⟩

end Formula
end Unification
