import Mathlib.Order.Filter.AtTopBot.Basic
import Unification.Proofs.Problem
import Unification.Substitution.Compose

/-!
# Work on unchecked bindings

A `Substitution` carries the proof that following its bindings ends, and every
operation on one hands the proof on.  Here the same work is done on plain
bindings, by the moves it is made of: look a variable up, go on with what is
found, take two terms apart, put one more binding at the end without a look at
what it closes.  Nothing keeps such bindings from running in a circle.

So each operation is a run that is given a depth, the number of calls that it may
nest, and has no answer where this is exceeded.  It ends with an answer when it
gives that answer at every depth from some depth on (`Ends`); a run in a circle
has none at any depth.

`Bindings.Reachable` holds of the bindings that a sequence of these operations
can arrive at.
-/

namespace Unification

open Filter

/-- The run gives the answer, however many more calls it may nest. -/
def Ends {α : Type} (run : Nat → Option α) (answer : α) : Prop :=
  ∀ᶠ depth in atTop, run depth = some answer

namespace Ends

variable {α β : Type} {run run' : Nat → Option α} {a a' : α}

theorem unique (h : Ends run a) (h' : Ends run a') : a = a' := by
  obtain ⟨depth, ha, ha'⟩ := (h.and h').exists
  exact Option.some.inj (ha.symm.trans ha')

theorem const (a : α) : Ends (fun _ => some a) a := Eventually.of_forall fun _ => rfl

/-- A run that calls another one ends as that one does. -/
theorem of_call (hcall : ∀ depth, run' (depth + 1) = run depth) (h : Ends run a) : Ends run' a := by
  rw [Ends, ← map_add_atTop_eq_nat 1, eventually_map]
  filter_upwards [h] with depth hdepth
  rw [hcall, hdepth]

theorem of_depth (least : Nat) (h : ∀ depth, run (depth + least) = some a) : Ends run a := by
  rw [Ends, ← map_add_atTop_eq_nat least, eventually_map]
  exact Eventually.of_forall h

theorem of_answer (h : ∀ depth, run (depth + 1) = some a) : Ends run a := of_depth 1 h

theorem map (f : α → β) (h : Ends run a) : Ends (fun depth => (run depth).map f) (f a) := by
  filter_upwards [h] with depth hdepth
  rw [hdepth, Option.map_some]

theorem mapM {run : Nat → α → Option β} {answer : α → β} {xs : List α}
    (h : ∀ x ∈ xs, Ends (run · x) (answer x)) :
    Ends (fun depth => xs.mapM (run depth)) (xs.map answer) := by
  induction xs with
  | nil => exact .const _
  | cons x xs ih =>
    obtain ⟨hx, hxs⟩ := List.forall_mem_cons.1 h
    filter_upwards [hx, ih hxs] with depth hdepth hdepths
    rw [List.mapM_cons, hdepth, hdepths]
    rfl

theorem anyM {run : Nat → α → Option Bool} {answer : α → Bool} {xs : List α}
    (h : ∀ x ∈ xs, Ends (run · x) (answer x)) :
    Ends (fun depth => xs.anyM (run depth)) (xs.any answer) := by
  induction xs with
  | nil => exact .const _
  | cons x xs ih =>
    obtain ⟨hx, hxs⟩ := List.forall_mem_cons.1 h
    filter_upwards [hx, ih hxs] with depth hdepth hdepths
    rw [List.anyM, hdepth, List.any_cons]
    cases answer x with
    | true => rfl
    | false => exact hdepths

section Checked

variable {ε : Type} {run : Nat → Option (Except ε Bindings)} {r : Except ε Substitution}

/-- What a run on concrete bindings returns settles what the work on substitutions gives,
if the two always have the same answer. -/
theorem exists_eq_ok {b : Bindings} (hr : Ends run (r.map Substitution.bindings))
    (h : Ends run (.ok b)) : ∃ σ, r = .ok σ ∧ σ.bindings = b := by
  have hanswer := hr.unique h
  cases r with
  | ok σ => exact ⟨σ, rfl, Except.ok.inj hanswer⟩
  | error cause => cases hanswer

theorem eq_error {cause : ε} (hr : Ends run (r.map Substitution.bindings))
    (h : Ends run (.error cause)) : r = .error cause := by
  have hanswer := hr.unique h
  cases r with
  | ok σ => cases hanswer
  | error cause' =>
    cases hanswer
    rfl

end Checked

end Ends

namespace Bindings

variable {b : Bindings} {v w : Variable} {s t : Term}

/-! ## Following bindings -/

/-- Follows a variable to something else or to an unbound variable. -/
def resolve? (b : Bindings) : Nat → Term → Option Term
  | 0, _ => none
  | depth + 1, .var v =>
    match b.lookup? v with
    | some t => resolve? b depth t
    | none => some (.var v)
  | _ + 1, t => some t

theorem resolve?_unbound (hv : b.lookup? v = none) : Ends (b.resolve? · (.var v)) (.var v) :=
  .of_answer fun _ => by rw [resolve?, hv]

theorem resolve?_bound {u : Term} (hv : b.lookup? v = some t) (h : Ends (b.resolve? · t) u) :
    Ends (b.resolve? · (.var v)) u :=
  .of_call (fun _ => by rw [resolve?, hv]) h

theorem resolve?_of_not_variable (ht : t.isVariable = false) : Ends (b.resolve? · t) t := by
  cases t with
  | var v => exact Bool.noConfusion ht
  | const c => exact .of_answer fun _ => rfl
  | app f args => exact .of_answer fun _ => rfl

/-- Looks for a variable in a term and, through the bindings, in the terms of
its variables, up to the first place where it stands. -/
def reaches? (b : Bindings) (v : Variable) : Nat → Term → Option Bool
  | 0, _ => none
  | depth + 1, .var w =>
    if w = v then some true
    else
      match b.lookup? w with
      | some t => reaches? b v depth t
      | none => some false
  | _ + 1, .const _ => some false
  | depth + 1, .app _ args => args.anyM (reaches? b v depth)

theorem reaches?_self (b : Bindings) (v : Variable) : Ends (b.reaches? v · (.var v)) true :=
  .of_answer fun _ => by rw [reaches?, if_pos rfl]

theorem reaches?_unbound (hne : w ≠ v) (hw : b.lookup? w = none) :
    Ends (b.reaches? v · (.var w)) false :=
  .of_answer fun _ => by rw [reaches?, if_neg hne, hw]

theorem reaches?_bound {answer : Bool} (hne : w ≠ v) (hw : b.lookup? w = some t)
    (h : Ends (b.reaches? v · t) answer) : Ends (b.reaches? v · (.var w)) answer :=
  .of_call (fun _ => by rw [reaches?, if_neg hne, hw]) h

/-- Puts the term of a bound variable in its place, and goes on in that term. -/
def replace? (b : Bindings) : Nat → Term → Option Term
  | 0, _ => none
  | depth + 1, .var v =>
    match b.lookup? v with
    | some t => replace? b depth t
    | none => some (.var v)
  | _ + 1, .const c => some (.const c)
  | depth + 1, .app f args => (args.mapM (replace? b depth)).map (.app f)

theorem replace?_unbound (hv : b.lookup? v = none) : Ends (b.replace? · (.var v)) (.var v) :=
  .of_answer fun _ => by rw [replace?, hv]

theorem replace?_bound {u : Term} (hv : b.lookup? v = some t) (h : Ends (b.replace? · t) u) :
    Ends (b.replace? · (.var v)) u :=
  .of_call (fun _ => by rw [replace?, hv]) h

def replaceFormula? (b : Bindings) : Nat → Formula → Option Formula
  | 0, _ => none
  | depth + 1, .predicate p args v => (args.mapM (replace? b depth)).map (.predicate p · v)
  | depth + 1, .operator k operands _ => (operands.mapM (replaceFormula? b depth)).map (.connect k)

/-! ## Unification -/

/-- Works through a list from left to right, each item with the bindings made
before, as long as nothing is wrong. -/
def thread {ε α : Type} (step : Bindings → α → Option (Except ε Bindings)) (b : Bindings) :
    List α → Option (Except ε Bindings)
  | [] => some (.ok b)
  | x :: xs => do
    match ← step b x with
    | .error cause => return .error cause
    | .ok b' => thread step b' xs

section Thread

variable {ε α : Type}

theorem thread_cons (step : Bindings → α → Option (Except ε Bindings)) (b : Bindings) (x : α)
    (xs : List α) :
    thread step b (x :: xs) = (step b x).bind fun
      | .error cause => some (.error cause)
      | .ok b' => thread step b' xs := rfl

theorem thread_map {β : Type} (step : Bindings → α → Option (Except ε Bindings)) (f : β → α)
    (b : Bindings) (xs : List β) :
    thread step b (xs.map f) = thread (fun b x => step b (f x)) b xs := by
  induction xs generalizing b with
  | nil => rfl
  | cons x xs ih =>
    rw [List.map_cons, thread_cons, thread_cons]
    congr 1
    funext r
    cases r with
    | error cause => rfl
    | ok b' => exact ih b'

theorem thread_append (step : Bindings → α → Option (Except ε Bindings)) (b : Bindings)
    (xs ys : List α) :
    thread step b (xs ++ ys) = (thread step b xs).bind fun
      | .error cause => some (.error cause)
      | .ok b' => thread step b' ys := by
  induction xs generalizing b with
  | nil => rfl
  | cons x xs ih =>
    rw [List.cons_append, thread_cons, thread_cons, Option.bind_assoc]
    congr 1
    funext r
    cases r with
    | error cause => rfl
    | ok b' => exact ih b'

/-- Where each step ends as an operation on substitutions says, the whole list does. -/
theorem ends_thread (step : Nat → Bindings → α → Option (Except ε Bindings))
    (op : Substitution → α → Except ε Substitution) {xs : List α}
    (h : ∀ x ∈ xs, ∀ σ : Substitution,
      Ends (step · σ.bindings x) ((op σ x).map Substitution.bindings)) (σ : Substitution) :
    Ends (fun depth => thread (step depth) σ.bindings xs)
      ((xs.foldlM op σ).map Substitution.bindings) := by
  induction xs generalizing σ with
  | nil => exact .const _
  | cons x xs ih =>
    obtain ⟨hx, hxs⟩ := List.forall_mem_cons.1 h
    have hfirst := hx σ
    rw [List.foldlM_cons]
    cases hop : op σ x with
    | error cause =>
      rw [hop] at hfirst
      filter_upwards [hfirst] with depth hdepth
      rw [thread_cons, hdepth]
      rfl
    | ok τ =>
      rw [hop] at hfirst
      filter_upwards [hfirst, ih hxs τ] with depth hdepth hdepths
      rw [thread_cons, hdepth]
      exact hdepths

end Thread

/-- How an attempt to unify ends, if it ends. -/
abbrev Attempt := Option (Except UnificationError Bindings)

/-- Binds a variable after the occurs check, and without any other. -/
def eliminate? (depth : Nat) (b : Bindings) (v : Variable) (t : Term) : Attempt := do
  if ← b.reaches? v depth t then return .error (.occursCheck v (← b.replace? depth t))
  else return .ok (b.insert v t)

mutual
/-- Unifies two terms.  A variable on either side takes the lead. -/
def unifyTerms? : Nat → Bindings → Term → Term → Attempt
  | 0, _, _, _ => none
  | depth + 1, b, .var v, t => unifyVariable? depth b v t
  | depth + 1, b, s, .var w => unifyVariable? depth b w s
  | _ + 1, b, .const c, .const d => some (if c = d then .ok b else .error (.symbolClash c d))
  | depth + 1, b, .app f ss, .app g ts =>
    if f ≠ g then some (.error (.symbolClash f g))
    else if ss.length ≠ ts.length then some (.error (.arityMismatch ss.length ts.length))
    else thread (fun b e => unifyTerms? depth b e.1 e.2) b (ss.zip ts)
  | _ + 1, _, s, t => some (.error (.variantMismatch s.display t.display))

/-- Unifies a variable with a term.  A bound variable gives way to its term,
first on this side and then on the other. -/
def unifyVariable? : Nat → Bindings → Variable → Term → Attempt
  | 0, _, _, _ => none
  | depth + 1, b, v, t =>
    if t = .var v then some (.ok b)
    else
      match b.lookup? v with
      | some s => unifyTerms? depth b s t
      | none =>
        match t.asVariable?.bind b.lookup? with
        | some t' => unifyVariable? depth b v t'
        | none => eliminate? depth b v t
end

variable {r : Except UnificationError Bindings}

theorem unifyTerms?_var_left (h : Ends (unifyVariable? · b v t) r) :
    Ends (unifyTerms? · b (.var v) t) r :=
  .of_call (fun _ => by rw [unifyTerms?]) h

theorem unifyTerms?_var_right (hs : s.isVariable = false) (h : Ends (unifyVariable? · b w s) r) :
    Ends (unifyTerms? · b s (.var w)) r := by
  cases s with
  | var v => exact Bool.noConfusion hs
  | const c => exact .of_call (fun _ => rfl) h
  | app f args => exact .of_call (fun _ => rfl) h

theorem unifyVariable?_self (b : Bindings) (v : Variable) :
    Ends (unifyVariable? · b v (.var v)) (.ok b) :=
  .of_answer fun _ => by rw [unifyVariable?, if_pos rfl]

theorem unifyVariable?_bound (hne : t ≠ .var v) (hv : b.lookup? v = some s)
    (h : Ends (unifyTerms? · b s t) r) : Ends (unifyVariable? · b v t) r :=
  .of_call (fun _ => by rw [unifyVariable?, if_neg hne, hv]) h

theorem unifyVariable?_follow (hne : w ≠ v) (hv : b.lookup? v = none) (hw : b.lookup? w = some t)
    (h : Ends (unifyVariable? · b v t) r) : Ends (unifyVariable? · b v (.var w)) r := by
  have hfollowed : (Term.var w).asVariable?.bind b.lookup? = some t := hw
  refine .of_call (fun depth => ?_) h
  rw [unifyVariable?, if_neg (fun h => hne (Term.var.inj h)), hv, hfollowed]

theorem unifyVariable?_eliminate (hne : t ≠ .var v) (hv : b.lookup? v = none)
    (ht : ∀ w, t = .var w → b.lookup? w = none) (h : Ends (eliminate? · b v t) r) :
    Ends (unifyVariable? · b v t) r := by
  have hnone : t.asVariable?.bind b.lookup? = none := by
    cases t with
    | var w => exact ht w rfl
    | const c => rfl
    | app f args => rfl
  refine .of_call (fun depth => ?_) h
  rw [unifyVariable?, if_neg hne, hv, hnone]

def unifyArgs? (depth : Nat) (b : Bindings) (es : List Equation) : Attempt :=
  thread (fun b e => unifyTerms? depth b e.1 e.2) b es

def unifyFormulas? : Nat → Bindings → Formula → Formula → Attempt
  | 0, _, _, _ => none
  | depth + 1, b, .predicate p ss _, .predicate q ts _ =>
    if p ≠ q then some (.error (.symbolClash p q))
    else if ss.length ≠ ts.length then some (.error (.arityMismatch ss.length ts.length))
    else unifyArgs? depth b (ss.zip ts)
  | depth + 1, b, .operator k fs _, .operator l gs _ =>
    if k ≠ l then some (.error (.operatorClash k l))
    else if fs.length ≠ gs.length then some (.error (.arityMismatch fs.length gs.length))
    else thread (fun b fg => unifyFormulas? depth b fg.1 fg.2) b (fs.zip gs)
  | _ + 1, _, f@(.predicate _ _ _), g@(.operator _ _ _) =>
    some (.error (.variantMismatch f.display g.display))
  | _ + 1, _, f@(.operator _ _ _), g@(.predicate _ _ _) =>
    some (.error (.variantMismatch f.display g.display))

def unify? (depth : Nat) (b : Bindings) : Pair → Attempt
  | .terms s t => unifyTerms? depth b s t
  | .formulas f g => unifyFormulas? depth b f g

/-! ## Adding and composing -/

/-- Binds a variable that is unbound and that the term does not reach. -/
def add? (depth : Nat) (b : Bindings) (v : Variable) (t : Term) : Option (Except Error Bindings) :=
  match b.lookup? v with
  | some existing => some (.error (.alreadyBound v existing))
  | none => do
    if ← b.reaches? v depth t then return .error (.cyclicBinding v t)
    else return .ok (b.insert v t)

def addAll? (depth : Nat) (b : Bindings) (ps : List (Variable × Term)) :
    Option (Except Error Bindings) :=
  thread (fun b p => add? depth b p.1 p.2) b ps

/-- Records for each variable what it becomes under `b` and then `c`, unless it
comes back to itself. -/
def composeAll? (depth : Nat) (b c composed : Bindings) : List Variable → Option Bindings
  | [] => some composed
  | v :: vs => do
    let t ← c.replace? depth (← b.replace? depth (.var v))
    composeAll? depth b c (if t = .var v then composed else composed.insert v t) vs

/-- Composes, unless a term mentions a variable that is to be bound. -/
def compose? (depth : Nat) (b c : Bindings) : Option (Except Error Bindings) := do
  let unbound := c.keys.filter fun v => !(b.lookup? v).isSome
  let composed ← composeAll? depth b c [] (b.keys ++ unbound)
  match composed.find? fun p => composed.keys.any (p.2.contains ·) with
  | some (v, t) => return .error (.unrepresentableComposition v t)
  | none => return .ok (composed.foldl (fun d p => d.insert p.1 p.2) [])

/-! ## Runs -/

/-- The bindings that a sequence of operations arrives at.  Each operation works
on what earlier ones arrived at, and one that fails leaves that as it was. -/
inductive Reachable : Bindings → Prop
  | empty : Reachable []
  | ofBindings {ps b} : Ends (addAll? · [] ps) (.ok b) → Reachable b
  | add {b v t b'} : Reachable b → Ends (add? · b v t) (.ok b') → Reachable b'
  | unify {b p b'} : Reachable b → Ends (unify? · b p) (.ok b') → Reachable b'
  | compose {b c d} : Reachable b → Reachable c → Ends (compose? · b c) (.ok d) → Reachable d

end Bindings
end Unification
