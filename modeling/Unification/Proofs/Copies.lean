import Unification.Proofs.Recording
import Unification.Proofs.RenamedCopy
import Unification.Proofs.Replacement
import Unification.Proofs.Skeleton

/-!
# Copies

Two images of one expression are unified as the images of its variables are, one
occurrence after the other (`Expression.unify_images`).  Where the images are variables
again, as they are in a renamed copy, each occurrence either binds a variable of the one
side to the one that stands in its place on the other, or meets this very binding.

So an expression and a copy of it with new variables unify to the record that the copy was
made with, and the other way round to that record read backwards
(`Expression.unify_copy_eq_record`).
-/

namespace Unification

namespace Substitution

variable {σ : Substitution} {θ η : Variable → Term} {ss ts : List Term}

/-- Applications of one functor to as many arguments are solved as their arguments are,
also where nothing is left to do for them. -/
theorem solve_app (hlen : ss.length = ts.length) (σ : Substitution) (f : Symbol) :
    σ.solve [(.app f ss, .app f ts)] = σ.solve (ss.zip ts) := by
  by_cases heq : ss = ts
  · have hsame : ∀ e ∈ ss.zip ts, e.1.replace σ = e.2.replace σ :=
      (Equation.solvedBy_zip_iff hlen σ.value).2 (by rw [heq])
    rw [solve_of_replace_eq (List.forall_mem_singleton.2 (heq ▸ rfl)), solve_of_replace_eq hsame]
  · have hne : σ.resolve (.app f ss) ≠ σ.resolve (.app f ts) := fun h => heq (Term.app.inj h).2
    have hred : σ.reduce (.app f ss, .app f ts) = .ok (σ, ss.zip ts) := by
      rw [reduce_of_not_variable hne rfl rfl]
      exact congrArg (Except.map (σ, ·)) (Equation.decompose_app_of_length_eq hlen)
    rw [solve_cons_eq_bind, hred]
    exact congrArg σ.solve (List.append_nil _)

/-- A list of terms, if each of them is solved as its variables are. -/
theorem solve_images_of_forall
    (h : ∀ t ∈ ts, ∀ σ : Substitution, σ.solve [(t.subst θ, t.subst η)] =
      σ.solve (t.occurrences.map fun v => (θ v, η v))) (σ : Substitution) :
    σ.solve (ts.map fun t => (t.subst θ, t.subst η)) =
      σ.solve ((ts.flatMap Term.occurrences).map fun v => (θ v, η v)) := by
  induction ts generalizing σ with
  | nil => rfl
  | cons t ts ih =>
    obtain ⟨ht, hts⟩ := List.forall_mem_cons.1 h
    rw [List.map_cons, ← List.singleton_append, solve_append, ht, List.flatMap_cons,
      List.map_append, solve_append]
    exact congrArg ((σ.solve _).bind ·) (funext (ih hts))

theorem solve_images (θ η : Variable → Term) (t : Term) (σ : Substitution) :
    σ.solve [(t.subst θ, t.subst η)] = σ.solve (t.occurrences.map fun v => (θ v, η v)) := by
  induction t generalizing σ with
  | var v => rfl
  | const c =>
    exact (solve_of_replace_eq (List.forall_mem_singleton.2 rfl)).trans (σ.solve_nil).symm
  | app f args ih =>
    rw [Term.subst_app, Term.subst_app, solve_app (by rw [List.length_map, List.length_map]),
      List.zip_map', solve_images_of_forall ih, Term.occurrences, Term.occurrencesAll_eq]

end Substitution

namespace Expression

/-- The images of an expression under two maps. -/
def images (θ η : Variable → Term) : Expression → Pair
  | term t => .terms (t.subst θ) (t.subst η)
  | formula f => .formulas (f.subst θ) (f.subst η)

theorem unify_images (θ η : Variable → Term) (e : Expression) (σ : Substitution) :
    (e.images θ η).unify σ = σ.solve (e.occurrences.map fun v => (θ v, η v)) := by
  cases e with
  | term t => exact Substitution.solve_images θ η t σ
  | formula f =>
    have hskeleton : (f.subst θ).skeleton = (f.subst η).skeleton := by
      rw [Formula.skeleton_subst, Formula.skeleton_subst]
    have hrun := Formula.unify_of_skeleton_eq hskeleton σ
    rw [Formula.arguments_subst, Formula.arguments_subst, List.zip_map',
      Substitution.solve_images_of_forall fun t _ => Substitution.solve_images θ η t] at hrun
    rw [occurrences, f.occurrences_eq]
    exact hrun

end Expression

/-! ## Variables on both sides -/

/-- Among these variables `g` confuses none and gives none that `h` gives. -/
structure Variable.Apart (g h : Variable → Variable) (V : List Variable) : Prop where
  inj : ∀ v ∈ V, ∀ w ∈ V, g v = g w → v = w
  ne : ∀ v ∈ V, ∀ w ∈ V, g v ≠ h w

namespace Substitution

variable {g h : Variable → Variable} {V seen vs : List Variable} {σ : Substitution} {v : Variable}

/-- Exactly these variables are bound, from one side to the other. -/
def PairsUp (g h : Variable → Variable) (seen : List Variable) (σ : Substitution) : Prop :=
  σ.bindings = seen.map fun v => (g v, .var (h v))

theorem PairsUp.lookup?_of_mem (hσ : σ.PairsUp g h seen) (hv : v ∈ seen) :
    σ.lookup? (g v) = some (.var (h v)) := by
  refine (VariableMap.lookup?_eq_some_iff σ.nodup).2 ?_
  rw [hσ]
  exact List.mem_map_of_mem hv

theorem PairsUp.lookup?_eq_none {w : Variable} (hσ : σ.PairsUp g h seen)
    (hw : ∀ v ∈ seen, g v ≠ w) : σ.lookup? w = none := by
  refine VariableMap.lookup?_eq_none_iff.2 fun hmem => ?_
  rw [hσ, VariableMap.keys, List.map_map] at hmem
  obtain ⟨v, hv, hvw⟩ := List.mem_map.1 hmem
  exact hw v hv hvw

/-- An occurrence is bound, unless it has been met before. -/
theorem PairsUp.exists_solve_singleton (hσ : σ.PairsUp g h seen) (hV : Variable.Apart g h V)
    (hseen : seen ⊆ V) (hv : v ∈ V) :
    ∃ τ, σ.solve [(.var (g v), .var (h v))] = .ok τ ∧ τ.PairsUp g h (Variable.note seen v) := by
  have hright : σ.lookup? (h v) = none :=
    hσ.lookup?_eq_none fun w hw => hV.ne w (hseen hw) v hv
  by_cases hmem : v ∈ seen
  · have hbound : σ.value (g v) = (Term.var (h v)).replace σ :=
      value_of_lookup? (hσ.lookup?_of_mem hmem)
    rw [Variable.note_of_mem hmem]
    exact ⟨σ, solve_of_replace_eq (List.forall_mem_singleton.2 hbound), hσ⟩
  · have hleft : σ.lookup? (g v) = none := hσ.lookup?_eq_none fun w hw heq =>
      hmem (hV.inj w (hseen hw) v hv heq ▸ hw)
    have hl : σ.resolve (.var (g v)) = .var (g v) := resolveVariable_of_unbound hleft
    have hr : σ.resolve (.var (h v)) = .var (h v) := resolveVariable_of_unbound hright
    have hne : σ.resolve (.var (g v)) ≠ σ.resolve (.var (h v)) := by
      rw [hl, hr]
      exact fun heq => hV.ne v hv v hv (Term.var.inj heq)
    have hreaches : σ.reaches (g v) (.var (h v)) = false := by
      rw [← Bool.not_eq_true, reaches_iff_mem_replace hleft, Term.replace_var,
        value_of_unbound hright, Term.mem_var]
      exact hV.ne v hv v hv
    have hred : σ.reduce (.var (g v), .var (h v)) = .ok (σ.bind _ _ hleft hreaches, []) := by
      rw [reduce_of_var_left hne hl]
      simp only [hr, eliminate_eq_ok hleft hreaches]
      rfl
    refine ⟨σ.bind _ _ hleft hreaches, ?_, ?_⟩
    · rw [solve_cons, hred]
      exact solve_nil _
    · rw [PairsUp, Variable.note_of_notMem hmem, List.map_append, ← hσ]
      rfl

theorem PairsUp.exists_solve (hσ : σ.PairsUp g h seen) (hV : Variable.Apart g h V)
    (hseen : seen ⊆ V) (hvs : vs ⊆ V) :
    ∃ τ, σ.solve (vs.map fun v => (.var (g v), .var (h v))) = .ok τ ∧
      τ.PairsUp g h (vs.foldl Variable.note seen) := by
  induction vs generalizing σ seen with
  | nil => exact ⟨σ, solve_nil σ, hσ⟩
  | cons v vs ih =>
    obtain ⟨hv, hvs⟩ := List.cons_subset.1 hvs
    obtain ⟨σ', hfirst, hσ'⟩ := hσ.exists_solve_singleton hV hseen hv
    have hseen' : Variable.note seen v ⊆ V := fun w hw =>
      (Variable.mem_note.1 hw).elim (hseen ·) (· ▸ hv)
    obtain ⟨τ, hrest, hτ⟩ := ih hσ' hseen' hvs
    refine ⟨τ, ?_, hτ⟩
    rw [List.map_cons, ← List.singleton_append, solve_append, hfirst]
    exact hrest

end Substitution

namespace Expression

variable {e : Expression} {g h : Variable → Variable} {r : Registry}

/-- Two renamed copies that share no variable unify to the bindings from the one to the other,
and these turn the one into the other. -/
theorem exists_unify_renamed (hV : Variable.Apart g h e.occurrences) :
    ∃ τ, (e.images (fun v => .var (g v)) fun v => .var (h v)).unify ∅ = .ok τ ∧
      τ.bindings = (e.vars.map fun v => (g v, .var (h v))) ∧
      (e.rename g).replace τ = e.rename h := by
  have hempty : (∅ : Substitution).PairsUp g h [] := rfl
  obtain ⟨τ, hrun, hτ⟩ :=
    hempty.exists_solve hV (List.nil_subset _) (List.Subset.refl e.occurrences)
  refine ⟨τ, (unify_images _ _ e ∅).trans hrun, ?_, ?_⟩
  · rw [vars_eq]
    exact hτ
  · rw [replace_eq_subst, subst_rename]
    refine subst_congr fun v hv => ?_
    have hbound := hτ.lookup?_of_mem (Variable.mem_distinct.2 hv)
    have hunbound : τ.lookup? (h v) = none := hτ.lookup?_eq_none fun w hw =>
      hV.ne w (Variable.mem_distinct.1 hw) v hv
    rw [Substitution.value_of_lookup? hbound, Term.replace_var,
      Substitution.value_of_unbound hunbound]

end Expression

/-! ## An expression and its copy -/

/-- A record is what it replaces, in order, each with its replacement. -/
theorem Renaming.pairs_eq_map (m : Renaming) :
    m.pairs = m.pairs.keys.map fun v => (v, m.apply v) := by
  rw [VariableMap.keys, List.map_map]
  refine Eq.trans (List.map_id m.pairs).symm (List.map_congr_left fun p hp => ?_)
  have hlookup : m.lookup? p.1 = some p.2 := (VariableMap.lookup?_eq_some_iff m.nodup).2 hp
  rw [Function.comp_apply, Renamer.apply_of_lookup? hlookup, id]

namespace Expression

variable {e : Expression} {r : Registry}

/-- The pair of an expression with itself. -/
def twice : Expression → Pair
  | term t => .terms t t
  | formula f => .formulas f f

theorem left_twice (e : Expression) : e.twice.left = e := by
  cases e <;> rfl

theorem right_twice (e : Expression) : e.twice.right = e := by
  cases e <;> rfl

/-- The pair of an expression with a copy, as images of it. -/
theorem twice_standardizeRight (he : e.Reachable) (r : Registry) :
    e.twice.standardizeRight r =
      e.images .var fun v => .var ((e.standardizeApart ⟨∅, r⟩).2.record.apply v) := by
  rw [standardizeApart_eq]
  cases e with
  | term t =>
    rw [twice, Pair.standardizeRight, t.standardizeApart_eq, images, t.subst_id]
    rfl
  | formula f =>
    rw [twice, Pair.standardizeRight, f.standardizeApart_eq, images,
      Formula.subst_of_wellFormed he.wellFormed]
    rfl

theorem swap_images (θ η : Variable → Term) (e : Expression) :
    (e.images θ η).swap = e.images η θ := by
  cases e <;> rfl

theorem pairs_standardizeApart (e : Expression) (r : Registry) :
    (e.standardizeApart ⟨∅, r⟩).2.record.pairs =
      e.vars.map fun v => (v, (e.standardizeApart ⟨∅, r⟩).2.record.apply v) := by
  have hkeys : (e.standardizeApart ⟨∅, r⟩).2.record.pairs.keys = e.vars := by
    rw [standardizeApart_eq, Renamer.keys_renameAll, vars_eq]
    rfl
  exact (Renaming.pairs_eq_map _).trans (by rw [hkeys])

/-- A known expression has no variable of its copy. -/
theorem ne_apply_standardizeApart (hknown : ∀ v ∈ e.vars, v.symbol ∈ r.symbols) {v w : Variable}
    (hv : v ∈ e.occurrences) (hw : w ∈ e.occurrences) :
    v ≠ (e.standardizeApart ⟨∅, r⟩).2.record.apply w := by
  rw [standardizeApart_eq]
  rintro rfl
  exact Renamer.apply_renameAll_notMem hw (hknown _ (mem_vars.2 hv))

theorem apart_id_apply (hknown : ∀ v ∈ e.vars, v.symbol ∈ r.symbols) :
    Variable.Apart id (e.standardizeApart ⟨∅, r⟩).2.record.apply e.occurrences where
  inj _ _ _ _ h := h
  ne _ hv _ hw := ne_apply_standardizeApart hknown hv hw

theorem apart_apply_id (hknown : ∀ v ∈ e.vars, v.symbol ∈ r.symbols) :
    Variable.Apart (e.standardizeApart ⟨∅, r⟩).2.record.apply id e.occurrences where
  inj v hv w hw h := by
    rw [standardizeApart_eq] at h
    exact Renamer.apply_renameAll_inj hv hw h
  ne _ hv _ hw := (ne_apply_standardizeApart hknown hw hv).symm

/-- An expression and its renamed copy unify to what the copy was recorded with, as old to new
or as new to old variables, and this turns the one that comes first into the other. -/
theorem unify_copy_eq_record (he : e.Reachable) (hknown : ∀ v ∈ e.vars, v.symbol ∈ r.symbols)
    (hcounter : (e.standardizeApart ⟨∅, r⟩).2.registry.counter < UInt64.size - 1) :
    Ends (fun depth => (e.standardize? depth).run ⟨∅, r⟩) (e.standardizeApart ⟨∅, r⟩) ∧
      let e' := (e.standardizeApart ⟨∅, r⟩).1
      let renames := (e.standardizeApart ⟨∅, r⟩).2.record.pairs
      let p := e.twice.standardizeRight r
      p.left = e ∧ p.right = e' ∧
        (∃ σ, p.unify ∅ = .ok σ ∧ σ.bindings = renames.map (Prod.map id Term.var) ∧
          e.replace σ = e') ∧
        ∃ σ, p.swap.unify ∅ = .ok σ ∧
          σ.bindings = (renames.map Prod.swap).map (Prod.map id Term.var) ∧
          e'.replace σ = e := by
  refine ⟨ends_standardize (Nat.lt_of_lt_of_le hcounter (Nat.sub_le _ _)), ?_, ?_, ?_, ?_⟩
  · rw [Pair.left_standardizeRight, left_twice]
  · rw [Pair.right_standardizeRight, right_twice]
    rfl
  · obtain ⟨σ, hrun, hbindings, hreplace⟩ := exists_unify_renamed (apart_id_apply hknown)
    refine ⟨σ, twice_standardizeRight he r ▸ hrun, ?_, ?_⟩
    · rw [hbindings, pairs_standardizeApart, List.map_map]
      rfl
    · rw [e.standardizeApart_eq] at hreplace ⊢
      exact (congrArg (replace · σ) (subst_of_reachable he).symm).trans hreplace
  · obtain ⟨σ, hrun, hbindings, hreplace⟩ := exists_unify_renamed (apart_apply_id hknown)
    refine ⟨σ, ?_, ?_, ?_⟩
    · rw [twice_standardizeRight he, swap_images]
      exact hrun
    · rw [hbindings, pairs_standardizeApart, List.map_map, List.map_map]
      rfl
    · rw [e.standardizeApart_eq] at hreplace ⊢
      exact hreplace.trans (subst_of_reachable he)

/-- `X0` is a variable of the expression, so the copy of `X` is `X1` and that of `X0` is `X2`;
each occurs twice. -/
theorem unify_copy_eq_record_numbered :
    let x₀ : Variable := ⟨⟨"X0", by decide⟩⟩
    let e : Expression := formula (.operator .and
      [.predicate Sample.p [.var Sample.x, .app Sample.f [.var x₀, .var Sample.x]] .true,
        .operator .not [.predicate Sample.p [.var x₀] .false] .true] .true)
    ∃ r : Registry,
      let e' := (e.standardizeApart ⟨∅, r⟩).1
      let renames := (e.standardizeApart ⟨∅, r⟩).2.record.pairs
      let p := e.twice.standardizeRight r
      e.Reachable ∧ (∀ v ∈ e.vars, v.symbol ∈ r.symbols) ∧
        (e.standardizeApart ⟨∅, r⟩).2.registry.counter < UInt64.size - 1 ∧
        renames = [(Sample.x, ⟨⟨"X1", by decide⟩⟩), (x₀, ⟨⟨"X2", by decide⟩⟩)] ∧
        Ends (fun depth => (e.standardize? depth).run ⟨∅, r⟩) (e.standardizeApart ⟨∅, r⟩) ∧
        p.left = e ∧ p.right = e' ∧
        (∃ σ, p.unify ∅ = .ok σ ∧ σ.bindings = renames.map (Prod.map id Term.var) ∧
          e.replace σ = e') ∧
        ∃ σ, p.swap.unify ∅ = .ok σ ∧
          σ.bindings = (renames.map Prod.swap).map (Prod.map id Term.var) ∧
          e'.replace σ = e := by
  intro x₀ e
  let r : Registry := ((Registry.ofConfig {}).insert Sample.x.symbol).insert x₀.symbol
  have he : e.Reachable := Formula.reachable_of_wellFormed
    ⟨by decide, rfl, trivial, ⟨by decide, rfl, trivial, trivial⟩, trivial⟩
  have hknown : ∀ v ∈ e.vars, v.symbol ∈ r.symbols := by decide +kernel
  have hcounter : (e.standardizeApart ⟨∅, r⟩).2.registry.counter < UInt64.size - 1 := by
    decide +kernel
  exact ⟨r, he, hknown, hcounter, by decide +kernel, unify_copy_eq_record he hknown hcounter⟩

end Expression
end Unification
