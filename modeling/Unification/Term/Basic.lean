import Unification.Symbol

/-!
# Terms

A term is a variable, a constant or a functor applied to a list of terms.  The
three kinds never overlap: the constant `a`, the variable `a` and the
application `a()` are three different terms.

Functions on terms come in pairs, one for a term and one for a list of terms,
so that every recursion is structural.  `Term.Lemmas` restates the list halves
through `List.map`, `List.all` and membership.
-/

namespace Unification

/-- A placeholder that a substitution may bind. -/
structure Variable where
  symbol : Symbol
  deriving DecidableEq

namespace Variable

def name (v : Variable) : String := v.symbol.name

instance : ToString Variable := ⟨name⟩

theorem ext_name {v w : Variable} (h : v.name = w.name) : v = w := by
  cases v; cases w; cases Symbol.ext_name h; rfl

end Variable

inductive Term where
  | var (v : Variable)
  | const (c : Symbol)
  | app (f : Symbol) (args : List Term)

namespace Term

/-- To prove a property of all terms, prove it of an application from the
property of each of its arguments. -/
@[elab_as_elim, induction_eliminator]
theorem induction {motive : Term → Prop} (var : ∀ v, motive (.var v)) (const : ∀ c, motive (.const c))
    (app : ∀ f args, (∀ t ∈ args, motive t) → motive (.app f args)) (t : Term) : motive t :=
  @Term.rec motive (fun ts => ∀ t ∈ ts, motive t) var const app
    (fun _ h => nomatch h)
    (fun _ _ head tail => List.forall_mem_cons.2 ⟨head, tail⟩) t

mutual
def decEq : (s t : Term) → Decidable (s = t)
  | .var v, .var w =>
    if h : v = w then isTrue (h ▸ rfl) else isFalse (fun e => h (Term.var.inj e))
  | .const c, .const d =>
    if h : c = d then isTrue (h ▸ rfl) else isFalse (fun e => h (Term.const.inj e))
  | .app f ss, .app g ts =>
    if h : f = g then
      match decEqList ss ts with
      | isTrue h' => isTrue (h ▸ h' ▸ rfl)
      | isFalse h' => isFalse (fun e => h' (Term.app.inj e).2)
    else isFalse (fun e => h (Term.app.inj e).1)
  | .var _, .const _ | .var _, .app _ _ | .const _, .var _ | .const _, .app _ _
  | .app _ _, .var _ | .app _ _, .const _ => isFalse nofun

def decEqList : (ss ts : List Term) → Decidable (ss = ts)
  | [], [] => isTrue rfl
  | s :: ss, t :: ts =>
    match decEq s t with
    | isTrue h =>
      match decEqList ss ts with
      | isTrue h' => isTrue (h ▸ h' ▸ rfl)
      | isFalse h' => isFalse (fun e => h' (List.cons.inj e).2)
    | isFalse h => isFalse (fun e => h (List.cons.inj e).1)
  | [], _ :: _ | _ :: _, [] => isFalse nofun
end

instance : DecidableEq Term := decEq

/-- The symbol a term is headed by. -/
def symbol : Term → Symbol
  | .var v => v.symbol
  | .const c => c
  | .app f _ => f

/-- The arguments of an application; other terms have none. -/
def args : Term → List Term
  | .app _ args => args
  | _ => []

def arity (t : Term) : Nat := t.args.length

def asVariable? : Term → Option Variable
  | .var v => some v
  | _ => none

def isVariable (t : Term) : Bool := t.asVariable?.isSome

mutual
/-- The variable occurs in the term. -/
def contains (v : Variable) : Term → Bool
  | .var w => w = v
  | .const _ => false
  | .app _ args => anyContains v args

def anyContains (v : Variable) : List Term → Bool
  | [] => false
  | t :: ts => contains v t || anyContains v ts
end

instance : Membership Variable Term := ⟨fun t v => contains v t = true⟩

instance (v : Variable) (t : Term) : Decidable (v ∈ t) :=
  inferInstanceAs (Decidable (contains v t = true))

mutual
/-- The term has no variables. -/
def isGround : Term → Bool
  | .var _ => false
  | .const _ => true
  | .app _ args => allGround args

def allGround : List Term → Bool
  | [] => true
  | t :: ts => isGround t && allGround ts
end

mutual
/-- Adds the variables of a term to a list, each at the end where it first
occurs, unless the list has it already. -/
def collect (seen : List Variable) : Term → List Variable
  | .var v => if v ∈ seen then seen else seen ++ [v]
  | .const _ => seen
  | .app _ args => collectAll seen args

def collectAll (seen : List Variable) : List Term → List Variable
  | [] => seen
  | t :: ts => collectAll (collect seen t) ts
end

/-- The distinct variables of a term in order of first occurrence. -/
def vars (t : Term) : List Variable := t.collect []

mutual
/-- The number of symbol occurrences. -/
def size : Term → Nat
  | .var _ => 1
  | .const _ => 1
  | .app _ args => sizeAll args + 1

def sizeAll : List Term → Nat
  | [] => 0
  | t :: ts => size t + sizeAll ts
end

mutual
/-- Replaces every variable by its image, all at once. -/
def subst (θ : Variable → Term) : Term → Term
  | .var v => θ v
  | .const c => .const c
  | .app f args => .app f (substAll θ args)

def substAll (θ : Variable → Term) : List Term → List Term
  | [] => []
  | t :: ts => subst θ t :: substAll θ ts
end

mutual
/-- Replaces every variable by its image, where the image may use that the
variable occurs in the term. -/
def substOn : (t : Term) → ((v : Variable) → v ∈ t → Term) → Term
  | .var v, θ => θ v (decide_eq_true rfl)
  | .const c, _ => .const c
  | .app f args, θ => .app f (substAllOn args θ)

def substAllOn : (ts : List Term) → ((v : Variable) → anyContains v ts = true → Term) → List Term
  | [], _ => []
  | t :: ts, θ =>
    substOn t (fun v h => θ v (Bool.or_eq_true_iff.2 (.inl h))) ::
      substAllOn ts (fun v h => θ v (Bool.or_eq_true_iff.2 (.inr h)))
end

end Term
end Unification
