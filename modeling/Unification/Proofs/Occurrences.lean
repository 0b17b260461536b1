import Mathlib.Data.List.Induction
import Mathlib.Data.List.Nodup
import Unification.Formula.Lemmas

/-!
# Occurrences of variables

The occurrences of an expression are its variables from left to right, each as often
as it stands there.  Whatever goes through an expression from left to right meets them
in this order.  Collecting variables keeps the first occurrence of each
(`Expression.vars_eq`), and replacing puts those of an image where the variable stood
(`Expression.occurrences_subst`).  Renaming replaces them one for one, so a renaming
that confuses no two of them keeps the distinct variables in their order
(`Expression.vars_rename`).
-/

namespace Unification

namespace Variable

/-- Puts a variable at the end of a list, unless the list has it already. -/
def note (seen : List Variable) (v : Variable) : List Variable :=
  if v ∈ seen then seen else seen ++ [v]

/-- Each variable of a list where it first stands. -/
def distinct (vs : List Variable) : List Variable := vs.foldl note []

variable {v : Variable} {seen vs : List Variable}

theorem mem_note {w : Variable} : w ∈ note seen v ↔ w ∈ seen ∨ w = v := by
  unfold note
  split
  · next h => exact ⟨.inl, fun hw => hw.elim id fun e => e ▸ h⟩
  · rw [List.mem_append, List.mem_singleton]

theorem mem_foldl_note {w : Variable} : w ∈ vs.foldl note seen ↔ w ∈ seen ∨ w ∈ vs := by
  induction vs generalizing seen with
  | nil => simp
  | cons v vs ih => rw [List.foldl_cons, ih, mem_note, List.mem_cons, or_assoc]

theorem mem_distinct {w : Variable} : w ∈ distinct vs ↔ w ∈ vs := by
  simp [distinct, mem_foldl_note]

theorem nodup_note (h : seen.Nodup) : (note seen v).Nodup := by
  unfold note
  split
  · exact h
  · next hv => exact List.nodup_append_comm.2 (List.nodup_cons.2 ⟨hv, h⟩)

theorem nodup_distinct (vs : List Variable) : (distinct vs).Nodup :=
  List.foldlRecOn vs note .nil fun _ h _ _ => nodup_note h

theorem note_of_mem (h : v ∈ seen) : note seen v = seen := if_pos h

theorem note_of_notMem (h : v ∉ seen) : note seen v = seen ++ [v] := if_neg h

theorem distinct_concat (vs : List Variable) (v : Variable) :
    distinct (vs ++ [v]) = note (distinct vs) v :=
  List.foldl_concat note [] v vs

/-- Variables that are noted one after the other come behind those that there are, without
these and each where it first stands. -/
theorem foldl_note_eq (seen vs : List Variable) :
    vs.foldl note seen = seen ++ (distinct vs).filter (· ∉ seen) := by
  induction vs using List.reverseRecOn with
  | nil => rw [List.foldl_nil, distinct, List.foldl_nil, List.filter_nil, List.append_nil]
  | append_singleton vs v ih =>
    rw [List.foldl_concat, ih, distinct_concat]
    by_cases hv : v ∈ distinct vs
    · rw [note_of_mem hv]
      by_cases hseen : v ∈ seen
      · exact note_of_mem (List.mem_append_left _ hseen)
      · exact note_of_mem (List.mem_append_right _ (List.mem_filter.2 ⟨hv, by simpa using hseen⟩))
    · rw [note_of_notMem hv, List.filter_append, ← List.append_assoc]
      by_cases hseen : v ∈ seen
      · rw [note_of_mem (List.mem_append_left _ hseen), List.filter_singleton]
        simp [hseen]
      · have hnew : v ∉ seen ++ (distinct vs).filter (· ∉ seen) := by
          rw [List.mem_append, List.mem_filter]
          exact fun h => h.elim hseen fun h => hv h.1
        rw [note_of_notMem hnew, List.filter_singleton]
        simp [hseen]

/-- Where no two variables are confused, it makes no difference whether they are
mapped before or after. -/
theorem foldl_note_map {g : Variable → Variable}
    (h : ∀ v ∈ seen ++ vs, ∀ w ∈ seen ++ vs, g v = g w → v = w) :
    (vs.map g).foldl note (seen.map g) = (vs.foldl note seen).map g := by
  induction vs generalizing seen with
  | nil => rfl
  | cons v vs ih =>
    have hv : v ∈ seen ++ v :: vs := List.mem_append_right _ List.mem_cons_self
    have hnote : note (seen.map g) (g v) = (note seen v).map g := by
      have hmem : g v ∈ seen.map g ↔ v ∈ seen := by
        refine ⟨fun hg => ?_, List.mem_map_of_mem⟩
        obtain ⟨w, hw, heq⟩ := List.mem_map.1 hg
        exact h w (List.mem_append_left _ hw) v hv heq ▸ hw
      simp only [note, hmem]
      split
      · rfl
      · rw [List.map_append, List.map_singleton]
    have hsub {w : Variable} (hw : w ∈ note seen v ++ vs) : w ∈ seen ++ v :: vs := by
      rw [List.mem_append, mem_note] at hw
      simpa [or_assoc] using hw
    rw [List.map_cons, List.foldl_cons, List.foldl_cons, hnote]
    exact ih fun w hw u hu => h w (hsub hw) u (hsub hu)

theorem distinct_map {g : Variable → Variable} (h : ∀ v ∈ vs, ∀ w ∈ vs, g v = g w → v = w) :
    distinct (vs.map g) = (distinct vs).map g :=
  @foldl_note_map [] vs g h

end Variable

namespace Term

mutual
/-- The variables of a term from left to right, each as often as it occurs. -/
def occurrences : Term → List Variable
  | .var v => [v]
  | .const _ => []
  | .app _ args => occurrencesAll args

def occurrencesAll : List Term → List Variable
  | [] => []
  | t :: ts => occurrences t ++ occurrencesAll ts
end

@[simp] theorem occurrencesAll_eq (ts : List Term) :
    occurrencesAll ts = ts.flatMap occurrences := by
  induction ts with
  | nil => rfl
  | cons t ts ih => rw [occurrencesAll, ih, List.flatMap_cons]

theorem mem_occurrences {v : Variable} {t : Term} : v ∈ t.occurrences ↔ v ∈ t := by
  induction t with
  | var w => rw [occurrences, List.mem_singleton, mem_var]
  | const c => exact iff_of_false List.not_mem_nil not_mem_const
  | app f args ih =>
    rw [occurrences, occurrencesAll_eq, List.mem_flatMap, mem_app]
    exact exists_congr fun t => and_congr_right fun ht => ih t ht

theorem collect_eq (seen : List Variable) (t : Term) :
    t.collect seen = t.occurrences.foldl Variable.note seen := by
  induction t generalizing seen with
  | var v => rfl
  | const c => rfl
  | app f args ih =>
    rw [collect, collectAll_eq, occurrences, occurrencesAll_eq, List.foldl_flatMap]
    exact List.foldl_ext _ _ _ fun seen t ht => ih t ht seen

/-- Replaces every variable by another one. -/
def rename (g : Variable → Variable) (t : Term) : Term := t.subst fun v => .var (g v)

/-- Replacement puts the variables of each image where the variable stood. -/
theorem occurrences_subst (θ : Variable → Term) (t : Term) :
    (t.subst θ).occurrences = t.occurrences.flatMap fun v => (θ v).occurrences := by
  induction t with
  | var v => rw [subst_var, occurrences, List.flatMap_singleton]
  | const c => rfl
  | app f args ih =>
    rw [subst_app]
    simp only [occurrences, occurrencesAll_eq, List.flatMap_map, List.flatMap_assoc]
    exact List.flatMap_congr ih

end Term

namespace Formula

mutual
/-- The variables of a formula from left to right, each as often as it occurs. -/
def occurrences : Formula → List Variable
  | .predicate _ args _ => Term.occurrencesAll args
  | .operator _ operands _ => occurrencesAll operands

def occurrencesAll : List Formula → List Variable
  | [] => []
  | f :: fs => occurrences f ++ occurrencesAll fs
end

@[simp] theorem occurrencesAll_eq (fs : List Formula) :
    occurrencesAll fs = fs.flatMap occurrences := by
  induction fs with
  | nil => rfl
  | cons f fs ih => rw [occurrencesAll, ih, List.flatMap_cons]

theorem collect_eq (seen : List Variable) (f : Formula) :
    f.collect seen = f.occurrences.foldl Variable.note seen := by
  induction f generalizing seen with
  | predicate p args v =>
    rw [collect, occurrences, Term.occurrencesAll_eq, List.foldl_flatMap]
    exact List.foldl_ext _ _ _ fun seen t _ => t.collect_eq seen
  | operator k operands v ih =>
    rw [collect, collectAll_eq, occurrences, occurrencesAll_eq, List.foldl_flatMap]
    exact List.foldl_ext _ _ _ fun seen f hf => ih f hf seen

/-- Replacement depends on the variables that occur only. -/
theorem subst_congr {θ η : Variable → Term} {f : Formula} (h : ∀ v ∈ f.occurrences, θ v = η v) :
    f.subst θ = f.subst η := by
  induction f with
  | predicate p args v =>
    rw [occurrences, Term.occurrencesAll_eq] at h
    rw [subst_predicate, subst_predicate]
    congr 1
    refine List.map_congr_left fun t ht => Term.subst_congr fun v hv => ?_
    exact h v (List.mem_flatMap.2 ⟨t, ht, Term.mem_occurrences.2 hv⟩)
  | operator k operands v ih =>
    rw [occurrences, occurrencesAll_eq] at h
    rw [subst_operator, subst_operator]
    congr 1
    refine List.map_congr_left fun f hf => ih f hf fun v hv => ?_
    exact h v (List.mem_flatMap.2 ⟨f, hf, hv⟩)

theorem isGround_iff {f : Formula} : f.isGround = true ↔ ∀ v, v ∉ f.occurrences := by
  induction f with
  | predicate p args value =>
    simp only [isGround, List.all_eq_true, Term.isGround_iff, occurrences, Term.occurrencesAll_eq,
      List.mem_flatMap, Term.mem_occurrences, not_exists, not_and]
    exact ⟨fun h v t ht => h t ht v, fun h t ht v => h v t ht⟩
  | operator k operands value ih =>
    simp only [isGround, allGround_eq, List.all_eq_true, occurrences, occurrencesAll_eq,
      List.mem_flatMap, not_exists, not_and]
    constructor
    · intro h v f hf
      exact (ih f hf).1 (h f hf) v
    · intro h f hf
      exact (ih f hf).2 fun v => h v f hf

/-- Replaces every variable by another one. -/
def rename (g : Variable → Variable) (f : Formula) : Formula := f.subst fun v => .var (g v)

theorem occurrences_subst (θ : Variable → Term) (f : Formula) :
    (f.subst θ).occurrences = f.occurrences.flatMap fun v => (θ v).occurrences := by
  induction f with
  | predicate p args v =>
    rw [subst_predicate]
    simp only [occurrences, Term.occurrencesAll_eq, List.flatMap_map, List.flatMap_assoc]
    exact List.flatMap_congr fun t _ => t.occurrences_subst θ
  | operator k operands v ih =>
    rw [subst_operator, connect]
    simp only [occurrences, occurrencesAll_eq, List.flatMap_map, List.flatMap_assoc]
    exact List.flatMap_congr ih

end Formula

/-- A term or a formula. -/
inductive Expression where
  | term (t : Term)
  | formula (f : Formula)

namespace Expression

variable {e : Expression} {g h : Variable → Variable}

/-- The distinct variables in order of first occurrence. -/
def vars : Expression → List Variable
  | term t => t.vars
  | formula f => f.vars

def occurrences : Expression → List Variable
  | term t => t.occurrences
  | formula f => f.occurrences

def subst (θ : Variable → Term) : Expression → Expression
  | term t => term (t.subst θ)
  | formula f => formula (f.subst θ)

/-- Replaces every variable by another one. -/
def rename (g : Variable → Variable) (e : Expression) : Expression := e.subst fun v => .var (g v)

theorem vars_eq (e : Expression) : e.vars = Variable.distinct e.occurrences := by
  cases e with
  | term t => exact t.collect_eq []
  | formula f => exact f.collect_eq []

theorem mem_vars {v : Variable} : v ∈ e.vars ↔ v ∈ e.occurrences := by
  rw [vars_eq, Variable.mem_distinct]

theorem nodup_vars (e : Expression) : e.vars.Nodup := by
  rw [vars_eq]
  exact Variable.nodup_distinct e.occurrences

/-- The expression has no variables. -/
def isGround : Expression → Bool
  | term t => t.isGround
  | formula f => f.isGround

theorem isGround_iff : e.isGround = true ↔ ∀ v, v ∉ e.vars := by
  simp only [mem_vars]
  cases e with
  | term t => simp only [isGround, occurrences, Term.isGround_iff, Term.mem_occurrences]
  | formula f => exact Formula.isGround_iff

theorem subst_congr {θ η : Variable → Term} (h : ∀ v ∈ e.occurrences, θ v = η v) :
    e.subst θ = e.subst η := by
  cases e with
  | term t => exact congrArg term (Term.subst_congr fun v hv => h v (Term.mem_occurrences.2 hv))
  | formula f => exact congrArg formula (Formula.subst_congr h)

theorem subst_subst (θ η : Variable → Term) (e : Expression) :
    (e.subst θ).subst η = e.subst fun v => (θ v).subst η := by
  cases e with
  | term t => exact congrArg term (t.subst_subst θ η)
  | formula f => exact congrArg formula (f.subst_subst θ η)

theorem occurrences_subst (θ : Variable → Term) (e : Expression) :
    (e.subst θ).occurrences = e.occurrences.flatMap fun v => (θ v).occurrences := by
  cases e with
  | term t => exact t.occurrences_subst θ
  | formula f => exact f.occurrences_subst θ

theorem occurrences_rename (g : Variable → Variable) (e : Expression) :
    (e.rename g).occurrences = e.occurrences.map g := by
  rw [rename, occurrences_subst]
  exact List.map_eq_flatMap.symm

/-- A renaming that confuses no variables keeps them in their order. -/
theorem vars_rename (hg : ∀ v ∈ e.occurrences, ∀ w ∈ e.occurrences, g v = g w → v = w) :
    (e.rename g).vars = e.vars.map g := by
  rw [vars_eq, vars_eq, occurrences_rename]
  exact Variable.distinct_map hg

end Expression

end Unification
