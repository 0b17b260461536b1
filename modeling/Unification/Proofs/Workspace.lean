import Mathlib.Logic.Function.Basic
import Unification.Proofs.RenamingApart

/-!
# Workspaces

A workspace has several registries, told apart by number, and records of replacements
that all of them serve: a pass may rename one expression with fresh variables of one
registry and the next with those of another, and whoever uses the registries may record
a symbol of any of them as a replacement.

Each operation answers with the symbols that it hands out: the one that was asked for,
or the replacements of all occurrences of variables in an expression.  It fails only
where it asks for a symbol without a name, and then changes nothing.
-/

namespace Unification

structure Workspace where
  registry : Nat → Registry
  records : Nat → Renaming

namespace Registry.Request

/-- The request names no symbol. -/
def Nameless : Request → Prop
  | get name => name = ""
  | getOptional name? => ∀ name ∈ name?, name = ""
  | generate _ | fresh _ => False

end Registry.Request

namespace Registry

variable {r : Registry} {q : Request}

theorem Request.answer_of_nameless (h : q.Nameless) :
    q.answer r = .error (.invalidArgument .missingName) := by
  cases q with
  | get name =>
    cases h
    rfl
  | getOptional name? =>
    cases name? with
    | none => rfl
    | some name =>
      cases h name rfl
      rfl
  | generate stem? => exact h.elim
  | fresh v => exact h.elim

theorem call_of_nameless (h : q.Nameless) :
    r.call q = ⟨r, q, .error (.invalidArgument .missingName), r⟩ := by
  rw [call, Request.answer_of_nameless h]

end Registry

namespace Workspace

/-- Registries that have handed out nothing yet. -/
def start (config : Nat → Registry.Config) : Workspace :=
  ⟨fun i => .ofConfig (config i), fun _ => ∅⟩

inductive Operation where
  /-- Asks a registry for a symbol, and may record it as the replacement of a variable. -/
  | request (owner : Nat) (q : Registry.Request) (use? : Option (Nat × Variable))
  /-- Renames an expression apart with the record of the pass. -/
  | standardize (owner pass : Nat) (e : Expression)

/-- The registry that is asked. -/
def Operation.owner : Operation → Nat
  | request owner _ _ | standardize owner _ _ => owner

/-- An operation and how it went. -/
structure Step where
  before : Workspace
  operation : Operation
  /-- The symbols that are handed out. -/
  answer : Except Error (List Symbol)
  after : Workspace

def setRegistry (w : Workspace) (owner : Nat) (r : Registry) : Workspace :=
  { w with registry := Function.update w.registry owner r }

def setRecord (w : Workspace) (pass : Nat) (m : Renaming) : Workspace :=
  { w with records := Function.update w.records pass m }

/-- Records a symbol as the replacement of a variable, if there is one. -/
def use (w : Workspace) (use? : Option (Nat × Variable)) (s : Symbol) : Workspace :=
  match use? with
  | some (pass, v) => w.setRecord pass ((w.records pass).insert v ⟨s⟩)
  | none => w

def renamer (w : Workspace) (owner pass : Nat) : Renamer := ⟨w.records pass, w.registry owner⟩

/-- Puts a renamer back after it has gone on. -/
def resume (w : Workspace) (owner pass : Nat) (r : Renamer) : Workspace :=
  (w.setRegistry owner r.registry).setRecord pass r.record

def perform (w : Workspace) (o : Operation) : Step :=
  match o with
  | .request owner q use? =>
    let c := (w.registry owner).call q
    match c.answer with
    | .ok s => ⟨w, o, .ok [s], (w.setRegistry owner c.after).use use? s⟩
    | .error cause => ⟨w, o, .error cause, w.setRegistry owner c.after⟩
  | .standardize owner pass e =>
    let (e', r) := e.standardizeApart (w.renamer owner pass)
    ⟨w, o, .ok (e'.occurrences.map Variable.symbol), w.resume owner pass r⟩

/-- Performs operations from left to right. -/
def run (w : Workspace) : List Operation → List Step
  | [] => []
  | o :: os => w.perform o :: (w.perform o).after.run os

/-- The workspace after a run. -/
def last (w : Workspace) (os : List Operation) : Workspace :=
  os.foldl (fun w o => (w.perform o).after) w

variable {w : Workspace} {owner pass : Nat} {o : Operation} {os : List Operation}

@[simp] theorem registry_use (w : Workspace) (use? : Option (Nat × Variable)) (s : Symbol) :
    (w.use use? s).registry = w.registry := by
  cases use? <;> rfl

theorem registry_setRegistry_self (w : Workspace) (owner : Nat) (r : Registry) :
    (w.setRegistry owner r).registry owner = r := by
  simp only [setRegistry, Function.update_self]

theorem registry_setRegistry_of_ne (w : Workspace) {owner other : Nat} (h : other ≠ owner)
    (r : Registry) : (w.setRegistry owner r).registry other = w.registry other := by
  simp only [setRegistry, Function.update_of_ne h]

theorem setRegistry_setRegistry (w : Workspace) (owner : Nat) (r r' : Registry) :
    (w.setRegistry owner r).setRegistry owner r' = w.setRegistry owner r' := by
  simp only [setRegistry, Function.update_idem]

theorem setRegistry_self (w : Workspace) (owner : Nat) :
    w.setRegistry owner (w.registry owner) = w := by
  rw [setRegistry, Function.update_eq_self]

theorem renamer_resume (w : Workspace) (owner pass : Nat) (r : Renamer) :
    (w.resume owner pass r).renamer owner pass = r := by
  simp only [resume, renamer, setRecord, setRegistry, Function.update_self]

theorem resume_renamer (w : Workspace) (owner pass : Nat) :
    w.resume owner pass (w.renamer owner pass) = w := by
  simp only [resume, renamer, setRecord, setRegistry, Function.update_eq_self]

theorem resume_resume (w : Workspace) (owner pass : Nat) (r r' : Renamer) :
    (w.resume owner pass r).resume owner pass r' = w.resume owner pass r' := by
  simp only [resume, setRecord, setRegistry, Function.update_idem]

theorem operation_perform (w : Workspace) (o : Operation) : (w.perform o).operation = o := by
  cases o with
  | request owner q use? =>
    rw [perform]
    split <;> rfl
  | standardize owner pass e => rfl

theorem registry_perform_request (w : Workspace) (owner : Nat) (q : Registry.Request)
    (use? : Option (Nat × Variable)) :
    (w.perform (.request owner q use?)).after.registry owner =
      ((w.registry owner).call q).after := by
  rw [perform]
  split
  · rw [registry_use, registry_setRegistry_self]
  · rw [registry_setRegistry_self]

theorem registry_perform_standardize (w : Workspace) (owner pass : Nat) (e : Expression) :
    (w.perform (.standardize owner pass e)).after.registry owner =
      (e.standardizeApart (w.renamer owner pass)).2.registry :=
  w.registry_setRegistry_self owner _

/-! ## Failures -/

/-- The operation asks for a symbol without a name. -/
def Operation.Nameless : Operation → Prop
  | .request _ q _ => q.Nameless
  | .standardize _ _ _ => False

/-- An operation fails if it asks for a symbol without a name, and then changes nothing. -/
theorem perform_of_nameless (h : o.Nameless) :
    w.perform o = ⟨w, o, .error (.invalidArgument .missingName), w⟩ := by
  cases o with
  | request owner q use? =>
    simp only [perform, Registry.call_of_nameless h, setRegistry_self]
  | standardize owner pass e => exact h.elim

end Workspace
end Unification
