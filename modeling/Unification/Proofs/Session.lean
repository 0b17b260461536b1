import Mathlib.Logic.Function.Basic
import Unification.Proofs.Unchecked.Renaming

/-!
# Sessions

A session is a registry in use.  Besides single requests, expressions are renamed apart
in it.  That happens in passes: each pass has a record of its own, empty at first, and
may rename several expressions with it.  Passes are told apart by number, and any number
of them may be under way at once, with requests in between.

Whatever is done, all that the passes have recorded meanwhile is one log of new
variables (`exists_logs_perform`, `Logs.append`).  So a replacement in the log belongs
to one pass and to one variable of it (`Logs.unique`).
-/

namespace Unification

/-- A registry and the record of every pass. -/
structure Session where
  registry : Registry
  records : Nat → Renaming

namespace Session

/-- No pass has recorded anything. -/
def start (r : Registry) : Session := ⟨r, fun _ => ∅⟩

inductive Operation where
  | request (q : Registry.Request)
  /-- Renames an expression apart, with the record of the pass. -/
  | standardize (pass : Nat) (e : Expression)

inductive Outcome where
  | answer (a : Except Error Symbol)
  | renamed (e : Expression)

/-- An operation and how it went. -/
structure Step where
  before : Session
  operation : Operation
  outcome : Outcome
  after : Session

/-- The step renames `e` apart to `e'`. -/
structure Step.Standardizes (c : Step) (pass : Nat) (e e' : Expression) : Prop where
  operation : c.operation = .standardize pass e
  outcome : c.outcome = .renamed e'

def renamer (s : Session) (pass : Nat) : Renamer := ⟨s.records pass, s.registry⟩

/-- Puts a renamer back after the pass has gone on with it. -/
def resume (s : Session) (pass : Nat) (r : Renamer) : Session :=
  ⟨r.registry, Function.update s.records pass r.record⟩

theorem records_resume_self (s : Session) (pass : Nat) (r : Renamer) :
    (s.resume pass r).records pass = r.record := by
  simp only [resume, Function.update_self]

theorem records_resume_of_ne (s : Session) {pass other : Nat} (h : other ≠ pass) (r : Renamer) :
    (s.resume pass r).records other = s.records other := by
  simp only [resume, Function.update_of_ne h]

def perform (s : Session) (o : Operation) : Step :=
  match o with
  | .request q =>
    let c := s.registry.call q
    ⟨s, o, .answer c.answer, { s with registry := c.after }⟩
  | .standardize pass e =>
    let (e', r) := e.standardizeApart (s.renamer pass)
    ⟨s, o, .renamed e', s.resume pass r⟩

/-- Performs operations from left to right. -/
def run (s : Session) : List Operation → List Step
  | [] => []
  | o :: os => s.perform o :: (s.perform o).after.run os

/-- The session after a run. -/
def last (s : Session) (os : List Operation) : Session :=
  os.foldl (fun s o => (s.perform o).after) s

/-! ## In machine words -/

def perform? (depth : Nat) (s : Session) (o : Operation) : Option Step :=
  match o with
  | .request q =>
    (s.registry.callOnWords? depth q).map fun c =>
      ⟨s, o, .answer c.answer, { s with registry := c.after }⟩
  | .standardize pass e =>
    ((e.standardize? depth).run (s.renamer pass)).map fun (e', r) =>
      ⟨s, o, .renamed e', s.resume pass r⟩

def run? (depth : Nat) (s : Session) : List Operation → Option (List Step)
  | [] => some []
  | o :: os => do
    let c ← s.perform? depth o
    return c :: (← c.after.run? depth os)

variable {s s' s'' : Session} {o : Operation} {os : List Operation} {c : Step}

theorem ends_perform (h : (s.perform o).after.registry.counter < UInt64.size) :
    Ends (s.perform? · o) (s.perform o) := by
  cases o with
  | request q => exact (Registry.ends_callOnWords h).map _
  | standardize pass e => exact (Expression.ends_standardize h).map _

theorem ends_run (h : ∀ c ∈ s.run os, c.after.registry.counter < UInt64.size) :
    Ends (s.run? · os) (s.run os) := by
  induction os generalizing s with
  | nil => exact .const _
  | cons o os ih =>
    obtain ⟨ho, hos⟩ := List.forall_mem_cons.1 h
    filter_upwards [ends_perform ho, ih hos] with depth hdepth hdepths
    simp only [run?, hdepth, hdepths, Option.bind_eq_bind, Option.bind_some, Option.pure_def]
    rfl

/-! ## What is recorded -/

/-- What passes record: the pass, the variable and its replacement. -/
abbrev Log := List (Nat × Variable × Variable)

/-- The entries of one pass. -/
def Log.ofPass (log : Log) (pass : Nat) : VariableMap Variable :=
  (log.filter fun entry => entry.1 = pass).map Prod.snd

/-- `s'` is `s` after any use in which this log has been recorded, all replacements in
it new. -/
structure Logs (s s' : Session) (log : Log) : Prop where
  pairs : ∀ pass, (s'.records pass).pairs = (s.records pass).pairs ++ log.ofPass pass
  makes : s.registry.Makes s'.registry (log.map fun entry => entry.2.2)

variable {log log' : Log} {i j : Nat} {v v' w : Variable}

theorem mem_ofPass : (v, w) ∈ log.ofPass i ↔ (i, v, w) ∈ log := by
  simp [Log.ofPass]

theorem Logs.refl (s : Session) : s.Logs s [] :=
  ⟨fun _ => (List.append_nil _).symm, (Registry.Extends.refl s.registry).makes⟩

theorem Logs.append (h : s.Logs s' log) (h' : s'.Logs s'' log') : s.Logs s'' (log ++ log') := by
  refine ⟨fun pass => ?_, ?_⟩
  · rw [h'.pairs, h.pairs, List.append_assoc, Log.ofPass, Log.ofPass, Log.ofPass,
      List.filter_append, List.map_append]
  · rw [List.map_append]
    exact h.makes.append h'.makes

/-- A pass that goes on records for itself alone. -/
theorem logs_resume {added : VariableMap Variable} {r : Renamer}
    (h : (s.renamer i).Records r added) : s.Logs (s.resume i r) (added.map fun p => (i, p)) := by
  refine ⟨fun pass => ?_, ?_⟩
  · by_cases hpass : pass = i
    · subst hpass
      have hown : Log.ofPass (added.map fun p => (pass, p)) pass = added := by
        simp [Log.ofPass, List.filter_map, Function.comp_def]
      rw [hown, records_resume_self]
      exact h.pairs
    · have hother : Log.ofPass (added.map fun p => (i, p)) pass = [] := by
        simp [Log.ofPass, List.filter_map, Function.comp_def, Ne.symm hpass]
      rw [hother, records_resume_of_ne s hpass, List.append_nil]
  · rw [List.map_map]
    exact h.makes

theorem exists_logs_perform (s : Session) (o : Operation) :
    ∃ log, s.Logs (s.perform o).after log := by
  cases o with
  | request q =>
    have hgrows := Registry.extends_call s.registry q
    exact ⟨[], fun _ => (List.append_nil _).symm, hgrows.makes⟩
  | standardize pass e =>
    obtain ⟨added, h⟩ := Expression.exists_records_standardizeApart (s.renamer pass) e
    exact ⟨_, logs_resume h⟩

theorem before_perform (s : Session) (o : Operation) : (s.perform o).before = s := by
  cases o <;> rfl

theorem operation_perform (s : Session) (o : Operation) : (s.perform o).operation = o := by
  cases o <;> rfl

theorem exists_logs_last (s : Session) (os : List Operation) : ∃ log, s.Logs (s.last os) log := by
  induction os generalizing s with
  | nil => exact ⟨[], .refl s⟩
  | cons o os ih =>
    obtain ⟨log, h⟩ := s.exists_logs_perform o
    obtain ⟨log', h'⟩ := ih (s.perform o).after
    exact ⟨_, h.append h'⟩

/-- Every step of a run is performed on a session from which the run gets to its end. -/
theorem exists_logs_of_mem_run (h : c ∈ s.run os) :
    c = c.before.perform c.operation ∧ ∃ log, c.after.Logs (s.last os) log := by
  induction os generalizing s with
  | nil => cases h
  | cons o os ih =>
    obtain rfl | hmem := List.mem_cons.1 h
    · rw [before_perform, operation_perform]
      exact ⟨rfl, exists_logs_last _ os⟩
    · exact ih hmem

theorem exists_logs_before_of_mem_run (h : c ∈ s.run os) :
    ∃ log, c.before.Logs (s.last os) log := by
  obtain ⟨hc, log', hafter⟩ := exists_logs_of_mem_run h
  obtain ⟨log, hstep⟩ := c.before.exists_logs_perform c.operation
  rw [← hc] at hstep
  exact ⟨_, hstep.append hafter⟩

theorem standardizes_perform {e e' : Expression} (h : (s.perform o).Standardizes i e e') :
    e' = (e.standardizeApart (s.renamer i)).1 ∧
      (s.perform o).after.records i = (e.standardizeApart (s.renamer i)).2.record := by
  obtain ⟨hoperation, houtcome⟩ := h
  rw [operation_perform] at hoperation
  subst hoperation
  exact ⟨(Outcome.renamed.inj houtcome).symm, s.records_resume_self i _⟩

/-! ## Reading the log -/

theorem Logs.lookup? (h : s.Logs s' log) (hv : (s.records i).lookup? v = some w) :
    (s'.records i).lookup? v = some w :=
  Renaming.lookup?_of_pairs_eq_append (h.pairs i) hv

/-- A pass that had no record has every replacement from the log. -/
theorem Logs.mem_of_lookup? (h : s.Logs s' log) (hs : s.records i = ∅)
    (hv : (s'.records i).lookup? v = some w) : (i, v, w) ∈ log := by
  have hmem : (v, w) ∈ (s'.records i).pairs := VariableMap.mem_of_lookup? hv
  rw [h.pairs, hs] at hmem
  exact mem_ofPass.1 hmem

/-- A replacement belongs to one pass and to one variable of it. -/
theorem Logs.unique (h : s.Logs s' log) (hv : (i, v, w) ∈ log) (hv' : (j, v', w) ∈ log) :
    i = j ∧ v = v' := by
  have hentry := List.inj_on_of_nodup_map h.makes.nodup hv hv' rfl
  simp only [Prod.mk.injEq, and_true] at hentry
  exact hentry

theorem Logs.unused (h : s.Logs s' log) (hv : (i, v, w) ∈ log) : w.symbol ∉ s.registry.symbols :=
  h.makes.unused w (List.mem_map.2 ⟨_, hv, rfl⟩)

end Session
end Unification
