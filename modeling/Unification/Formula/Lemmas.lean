import Unification.Formula.Basic
import Unification.Term.Lemmas

/-!
# Lemmas about formulas

The list halves of the recursions agree with `List.map`, `List.all` and
`List.foldl`.  Building and mapping keep formulas well formed, and `subst_subst` says
of formulas what it says of terms: two replacements in turn are one.
-/

namespace Unification
namespace Formula

@[simp] theorem mapTermsAll_eq (g : Term → Term) (fs : List Formula) :
    mapTermsAll g fs = fs.map (mapTerms g) := by
  induction fs with
  | nil => rfl
  | cons f fs ih => simp [mapTermsAll, ih]

@[simp] theorem collectAll_eq (seen : List Variable) (fs : List Formula) :
    collectAll seen fs = fs.foldl collect seen := by
  induction fs generalizing seen with
  | nil => rfl
  | cons f fs ih => simp [collectAll, ih]

@[simp] theorem allGround_eq (fs : List Formula) : allGround fs = fs.all isGround := by
  induction fs with
  | nil => rfl
  | cons f fs ih => simp [allGround, ih]

@[simp] theorem allWellFormed_iff (fs : List Formula) :
    AllWellFormed fs ↔ ∀ f ∈ fs, f.WellFormed := by
  induction fs with
  | nil => simp [AllWellFormed]
  | cons f fs ih => simp [AllWellFormed, ih]

@[simp] theorem wellFormed_predicate (p : Symbol) (args : List Term) (v : TruthValue) :
    (predicate p args v).WellFormed := trivial

theorem connect?_eq_ok_iff {k : Connective} {operands : List Formula} {f : Formula} :
    connect? k operands = .ok f ↔ k.Accepts operands.length ∧ f = connect k operands := by
  by_cases hk : k.Accepts operands.length
  · rw [connect?_eq_ok hk, Except.ok.injEq, eq_comm]
    exact (and_iff_right hk).symm
  · refine iff_of_false ?_ fun h => hk h.1
    unfold connect?
    split
    · next n hn =>
      rw [Connective.accepts_iff_of_arity?_eq_some hn] at hk
      rw [if_neg hk]
      exact nofun
    · next hn => exact absurd (Connective.accepts_of_arity?_eq_none hn _) hk

theorem wellFormed_connect {k : Connective} {operands : List Formula}
    (hk : k.Accepts operands.length) (h : ∀ f ∈ operands, f.WellFormed) :
    (connect k operands).WellFormed :=
  ⟨hk, rfl, (allWellFormed_iff operands).2 h⟩

theorem wellFormed_and {fs : List Formula} (h : ∀ f ∈ fs, f.WellFormed) :
    (Formula.and fs).WellFormed :=
  wellFormed_connect (Connective.accepts_of_arity?_eq_none rfl _) h

theorem wellFormed_or {fs : List Formula} (h : ∀ f ∈ fs, f.WellFormed) :
    (Formula.or fs).WellFormed :=
  wellFormed_connect (Connective.accepts_of_arity?_eq_none rfl _) h

theorem wellFormed_not {f : Formula} (h : f.WellFormed) : f.not.WellFormed :=
  wellFormed_connect ((Connective.accepts_iff_of_arity?_eq_some rfl).2 rfl)
    (List.forall_mem_singleton.2 h)

theorem wellFormed_implies {f g : Formula} (hf : f.WellFormed) (hg : g.WellFormed) :
    (f.implies g).WellFormed :=
  wellFormed_connect ((Connective.accepts_iff_of_arity?_eq_some rfl).2 rfl)
    (List.forall_mem_cons.2 ⟨hf, List.forall_mem_singleton.2 hg⟩)

theorem wellFormed_iff {f g : Formula} (hf : f.WellFormed) (hg : g.WellFormed) :
    (f.iff g).WellFormed :=
  wellFormed_connect ((Connective.accepts_iff_of_arity?_eq_some rfl).2 rfl)
    (List.forall_mem_cons.2 ⟨hf, List.forall_mem_singleton.2 hg⟩)

theorem wellFormed_mapTerms {f : Formula} (h : f.WellFormed) (g : Term → Term) :
    (f.mapTerms g).WellFormed := by
  induction f with
  | predicate p args v => trivial
  | operator k operands v ih =>
    obtain ⟨hk, _, hops⟩ := h
    rw [mapTerms, mapTermsAll_eq]
    refine wellFormed_connect (by rwa [List.length_map]) fun f hf => ?_
    obtain ⟨f', hf', rfl⟩ := List.mem_map.1 hf
    exact ih f' hf' ((allWellFormed_iff operands).1 hops f' hf')

/-! ## Replacing variables -/

@[simp] theorem subst_predicate (θ : Variable → Term) (p : Symbol) (args : List Term)
    (v : TruthValue) :
    (predicate p args v).subst θ = predicate p (args.map (Term.subst θ)) v := rfl

theorem subst_operator (θ : Variable → Term) (k : Connective) (fs : List Formula)
    (v : TruthValue) : (operator k fs v).subst θ = connect k (fs.map (subst θ)) := by
  rw [subst, mapTerms, mapTermsAll_eq]
  rfl

theorem mapTerms_mapTerms (g h : Term → Term) (f : Formula) :
    (f.mapTerms g).mapTerms h = f.mapTerms (fun t => h (g t)) := by
  induction f with
  | predicate p args v => simp only [mapTerms, List.map_map, Function.comp_def]
  | operator k operands v ih =>
    simp only [mapTerms, mapTermsAll_eq, connect, List.map_map]
    have hoperands : operands.map (mapTerms h ∘ mapTerms g) =
        operands.map (mapTerms fun t => h (g t)) := List.map_congr_left ih
    have hvalues : operands.map (value ∘ mapTerms h ∘ mapTerms g) =
        operands.map (value ∘ mapTerms fun t => h (g t)) := by
      rw [← List.map_map, hoperands, List.map_map]
    rw [hoperands, hvalues]

theorem subst_subst (θ η : Variable → Term) (f : Formula) :
    (f.subst θ).subst η = f.subst fun v => (θ v).subst η := by
  rw [subst, subst, mapTerms_mapTerms, subst]
  congr 1
  funext t
  exact Term.subst_subst θ η t

end Formula
end Unification
