import Unification.Proofs.Replacement
import Unification.Proofs.Skeleton
import Unification.Proofs.Unchecked.Renaming

/-!
# Traversals of one set of occurrences

Collecting variables, asking for one, asking whether there are any and renaming them go
through an expression each in its own way, and all of them meet the same occurrences.

Collected variables are noted in a list that may have others already.  These stay in front,
and what is appended is the missing ones where they first occur, whatever stood in the list
(`Expression.exists_collect_eq`).  With no occurrences there is nothing to collect and nothing
to rename, so a ground expression is given back as it was and the record and the registry are
not even looked at (`Expression.ends_standardize_of_isGround`).
-/

namespace Unification

namespace Variable

/-- The distinct variables of a list are in the order in which they first stand there. -/
theorem pairwise_idxOf_distinct (vs : List Variable) :
    (distinct vs).Pairwise fun v w => vs.idxOf v < vs.idxOf w := by
  induction vs using List.reverseRecOn with
  | nil => exact .nil
  | append_singleton vs u ih =>
    -- Where a variable of `vs` first stands is no matter of what comes behind.
    have hkept : (distinct vs).Pairwise fun v w => (vs ++ [u]).idxOf v < (vs ++ [u]).idxOf w := by
      refine ih.imp_of_mem fun {v w} hv hw hlt => ?_
      rwa [List.idxOf_append_of_mem (mem_distinct.1 hv),
        List.idxOf_append_of_mem (mem_distinct.1 hw)]
    rw [distinct_concat]
    by_cases hu : u ∈ vs
    · rwa [note_of_mem (mem_distinct.2 hu)]
    · rw [note_of_notMem (mt mem_distinct.1 hu), List.pairwise_append]
      refine ⟨hkept, List.pairwise_singleton _ u, fun v hv w hw => ?_⟩
      have hv' := mem_distinct.1 hv
      rw [List.mem_singleton.1 hw, List.idxOf_append_of_mem hv', List.idxOf_append_of_notMem hu]
      exact Nat.lt_add_right _ (List.idxOf_lt_length_of_mem hv')

end Variable

namespace Renamer

/-- Items that are given back as they were leave the renamer as it was. -/
theorem ends_mapM_of_unchanged {α : Type} {run : Nat → α → StateT Renamer Option α} {xs : List α}
    {s : Renamer} (h : ∀ x ∈ xs, Ends (fun depth => (run depth x).run s) (x, s)) :
    Ends (fun depth => (xs.mapM (run depth)).run s) (xs, s) := by
  induction xs with
  | nil => exact .mapM_run_nil run s
  | cons x xs ih =>
    obtain ⟨hx, hxs⟩ := List.forall_mem_cons.1 h
    exact .mapM_run_cons hx (ih hxs)

end Renamer

theorem Term.ends_standardize_of_isGround {t : Term} (h : t.isGround = true) (s : Renamer) :
    Ends (fun depth => (t.standardize? depth).run s) (t, s) := by
  induction t with
  | var v => cases h
  | const c => exact .of_answer fun _ => rfl
  | app f args ih =>
    rw [isGround, allGround_eq, List.all_eq_true] at h
    have hargs := Renamer.ends_mapM_of_unchanged fun t ht => ih t ht (h t ht)
    exact .of_call (fun _ => rfl) (.map_run (Term.app f) hargs)

theorem Formula.ends_standardize_of_isGround {f : Formula} (hf : f.WellFormed)
    (h : f.isGround = true) (s : Renamer) :
    Ends (fun depth => (f.standardize? depth).run s) (f, s) := by
  induction f with
  | predicate p args v =>
    rw [isGround, List.all_eq_true] at h
    have hargs := Renamer.ends_mapM_of_unchanged fun t ht =>
      Term.ends_standardize_of_isGround (h t ht) s
    exact .of_call (fun _ => rfl) (.map_run _ hargs)
  | operator k operands v ih =>
    obtain ⟨-, rfl, hoperands⟩ := hf
    rw [allWellFormed_iff] at hoperands
    rw [isGround, allGround_eq, List.all_eq_true] at h
    have hsame := Renamer.ends_mapM_of_unchanged fun f hf => ih f hf (hoperands f hf) (h f hf)
    exact .of_call (fun _ => rfl) (.map_run (connect k) hsame)

namespace Expression

variable {e : Expression} {seen : List Variable}

/-- Adds the variables to a list, each at the end where it first occurs, unless the list has it
already. -/
def collect (seen : List Variable) : Expression → List Variable
  | term t => t.collect seen
  | formula f => f.collect seen

theorem vars_eq_collect (e : Expression) : e.vars = e.collect [] := by
  cases e with
  | term t => rfl
  | formula f => rfl

theorem collect_eq (seen : List Variable) (e : Expression) :
    e.collect seen = e.occurrences.foldl Variable.note seen := by
  cases e with
  | term t => exact t.collect_eq seen
  | formula f => exact f.collect_eq seen

theorem exists_collect_eq (seen : List Variable) (e : Expression) :
    ∃ added, e.collect seen = seen ++ added ∧ added.Nodup ∧
      (∀ v, v ∈ added ↔ v ∈ e.occurrences ∧ v ∉ seen) ∧
      added.Pairwise fun v w => e.occurrences.idxOf v < e.occurrences.idxOf w := by
  refine ⟨(Variable.distinct e.occurrences).filter (· ∉ seen), ?_, ?_, fun v => ?_, ?_⟩
  · rw [collect_eq, Variable.foldl_note_eq]
  · exact (Variable.nodup_distinct e.occurrences).filter _
  · simp [Variable.mem_distinct]
  · exact (Variable.pairwise_idxOf_distinct e.occurrences).filter _

theorem ends_standardize_of_isGround (he : e.Reachable) (h : e.isGround = true) (s : Renamer) :
    Ends (fun depth => (e.standardize? depth).run s) (e, s) := by
  cases e with
  | term t => exact .map_run Expression.term (t.ends_standardize_of_isGround h s)
  | formula f =>
    exact .map_run Expression.formula (f.ends_standardize_of_isGround he.wellFormed h s)

theorem standardizeApart_of_isGround (he : e.Reachable) (h : e.isGround = true) (s : Renamer) :
    e.standardizeApart s = (e, s) := by
  have hnone : e.occurrences = [] :=
    List.eq_nil_iff_forall_not_mem.2 fun v hv => isGround_iff.1 h v (mem_vars.2 hv)
  have hsame : e.rename (s.renameAll e.occurrences).record.apply = e :=
    (subst_congr fun v hv => absurd hv (by simp [hnone])).trans (subst_of_reachable he)
  rw [standardizeApart_eq, hsame, hnone]
  rfl

theorem nodup_collect (h : seen.Nodup) (e : Expression) : (e.collect seen).Nodup := by
  rw [collect_eq]
  exact List.foldlRecOn _ Variable.note h fun _ h _ _ => Variable.nodup_note h

/-- Collecting keeps what was there in its place and appends what was missing of the variables
that occur, each once and where it first occurs.  What is collected are the variables that a term
contains, or an argument of a formula.  An expression is ground exactly if there are none, and
then renaming apart gives it back with the record and the registry as they were. -/
theorem traversals_agree (e : Expression) (seen : List Variable) :
    (∃ added, e.collect seen = seen ++ added ∧ added.Nodup ∧
      (∀ v, v ∈ added ↔ v ∈ e.occurrences ∧ v ∉ seen) ∧
      added.Pairwise fun v w => e.occurrences.idxOf v < e.occurrences.idxOf w) ∧
    (seen.Nodup → (e.collect seen).Nodup) ∧
    e.vars = e.collect [] ∧ e.vars.Nodup ∧
    (∀ t, e = term t → ∀ v, v ∈ e.vars ↔ t.contains v = true) ∧
    (∀ f, e = formula f → ∀ v, v ∈ e.vars ↔ ∃ t ∈ f.arguments, t.contains v = true) ∧
    (e.isGround = true ↔ e.vars = []) ∧
    (e.Reachable → e.isGround = true → ∀ s : Renamer,
      e.standardizeApart s = (e, s) ∧
      Ends (fun depth => (e.standardize? depth).run s) (e, s)) := by
  refine ⟨exists_collect_eq seen e, fun h => nodup_collect h e, e.vars_eq_collect, e.nodup_vars,
    fun t he v => ?_, fun f he v => ?_, ?_, fun he hground s => ?_⟩
  · rw [he]
    exact Term.mem_vars
  · rw [he, mem_vars, occurrences, Formula.occurrences_eq, List.mem_flatMap]
    exact exists_congr fun t => and_congr_right fun _ => Term.mem_occurrences
  · rw [isGround_iff]
    exact List.eq_nil_iff_forall_not_mem.symm
  · exact ⟨standardizeApart_of_isGround he hground s, ends_standardize_of_isGround he hground s⟩

/-- `X` is there before and stays in front, and `Y` occurs twice. -/
theorem traversals_agree_mixed :
    let conjunction : Expression := formula (.and [.atom Sample.p [.var Sample.y,
      .app Sample.f [.var Sample.z]], .not (.atom Sample.p [.var Sample.y, .var Sample.x])])
    let ground : Expression :=
      formula (.operator .not [.predicate Sample.p [.app Sample.f [.const Sample.a]] .true] .false)
    conjunction.collect [Sample.x] = [Sample.x, Sample.y, Sample.z] ∧
    (∃ added, conjunction.collect [Sample.x] = [Sample.x] ++ added ∧ added.Nodup ∧
      (∀ v, v ∈ added ↔ v ∈ conjunction.occurrences ∧ v ∉ [Sample.x]) ∧
      added.Pairwise fun v w =>
        conjunction.occurrences.idxOf v < conjunction.occurrences.idxOf w) ∧
    [Sample.x].Nodup ∧ (conjunction.collect [Sample.x]).Nodup ∧
    ground.Reachable ∧ ground.isGround = true ∧ ground.vars = [] ∧
    ∀ s : Renamer, ground.standardizeApart s = (ground, s) ∧
      Ends (fun depth => (ground.standardize? depth).run s) (ground, s) := by
  intro conjunction ground
  have hreachable : ground.Reachable :=
    Formula.reachable_of_wellFormed (Formula.wellFormed_not trivial)
  obtain ⟨hadded, hnodup, -⟩ := traversals_agree conjunction [Sample.x]
  obtain ⟨-, -, -, -, -, -, hground, hsame⟩ := traversals_agree ground []
  exact ⟨by decide, hadded, List.nodup_singleton _, hnodup (List.nodup_singleton _), hreachable,
    rfl, hground.1 rfl, hsame hreachable rfl⟩

end Expression
end Unification
