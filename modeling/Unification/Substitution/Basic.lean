import Unification.Substitution.Bindings
import Unification.Formula.Basic

/-!
# Substitutions

A substitution is a list of bindings, in the order they were made, that binds
no variable twice and whose dependency graph has no infinite path.  The terms
are kept as they were given, so they may mention bound variables:
`resolve` follows a variable until something else or an unbound variable
stands there, and `Term.replace` follows every variable of a term to the end.

Both recursions descend along the dependency graph, and so does the test
`reaches` that `add` makes before it binds a variable.
-/

namespace Unification

structure Substitution where
  bindings : Bindings
  nodup : bindings.keys.Nodup
  acyclic : WellFounded bindings.Depends

namespace Substitution

def empty : Substitution := ⟨[], List.nodup_nil, Bindings.wellFounded_nil⟩

instance : EmptyCollection Substitution := ⟨empty⟩
instance : Inhabited Substitution := ⟨empty⟩

theorem ext_bindings {σ τ : Substitution} (h : σ.bindings = τ.bindings) : σ = τ := by
  cases σ; cases τ; cases h; rfl

instance : DecidableEq Substitution := fun σ τ =>
  decidable_of_iff (σ.bindings = τ.bindings) ⟨ext_bindings, fun h => h ▸ rfl⟩

/-- Two substitutions are equivalent when they have the same bindings, whatever
their order. -/
instance : HasEquiv Substitution := ⟨fun σ τ => σ.bindings.Perm τ.bindings⟩

instance (σ τ : Substitution) : Decidable (σ ≈ τ) :=
  inferInstanceAs (Decidable (σ.bindings.Perm τ.bindings))

def size (σ : Substitution) : Nat := σ.bindings.length

def isEmpty (σ : Substitution) : Bool := σ.bindings.isEmpty

/-- The bound variables, in binding order. -/
def domain (σ : Substitution) : List Variable := σ.bindings.keys

/-- The term that a variable is bound to, as it was given. -/
def lookup? (σ : Substitution) (v : Variable) : Option Term := σ.bindings.lookup? v

def isBound (σ : Substitution) (v : Variable) : Bool := (σ.lookup? v).isSome

/-- The term that a variable is bound to; an unbound variable is a failure. -/
def binding (σ : Substitution) (v : Variable) : Except Error Term :=
  match σ.lookup? v with
  | some t => .ok t
  | none => .error (.unboundVariable v)

/-! ## Following bindings -/

/-- What a variable stands for once every binding is followed to the end. -/
def value (σ : Substitution) (v : Variable) : Term :=
  match _bound : σ.lookup? v with
  | none => .var v
  | some t => t.substOn (fun w _mem => value σ w)
termination_by σ.acyclic.wrap v
decreasing_by exact ⟨t, _bound, _mem⟩

/-- What a variable leads to once bindings are followed as long as they give
another variable. -/
def resolveVariable (σ : Substitution) (v : Variable) : Term :=
  match _bound : σ.lookup? v with
  | none => .var v
  | some (.var w) => resolveVariable σ w
  | some t => t
termination_by σ.acyclic.wrap v
decreasing_by exact ⟨.var w, _bound, Term.mem_var.2 rfl⟩

/-- Follows bindings until the term is no variable or an unbound one. -/
def resolve (σ : Substitution) : Term → Term
  | .var v => σ.resolveVariable v
  | t => t

/-- Following the variable `w` comes to `v`; it does when they are the same. -/
def leadsTo (σ : Substitution) (v w : Variable) : Bool :=
  w = v ||
    match _bound : σ.lookup? w with
    | none => false
    | some t => t.vars.attach.any (fun u => leadsTo σ v u.1)
termination_by σ.acyclic.wrap w
decreasing_by exact ⟨t, _bound, Term.mem_vars.1 u.2⟩

/-- The term mentions the variable, directly or through bindings. -/
def reaches (σ : Substitution) (v : Variable) (t : Term) : Bool :=
  t.vars.any (σ.leadsTo v)

@[simp] theorem leadsTo_self (σ : Substitution) (v : Variable) : σ.leadsTo v v = true := by
  unfold leadsTo; simp

theorem leadsTo_of_depends {σ : Substitution} {u v w : Variable} (h : σ.bindings.Depends u w)
    (hu : σ.leadsTo v u = true) : σ.leadsTo v w = true := by
  obtain ⟨t, ht, hut⟩ := h
  unfold leadsTo
  rw [Bool.or_eq_true]
  right
  split
  · next hn => exact nomatch hn.symm.trans ht
  · next t' ht' =>
    cases ht'.symm.trans ht
    exact List.any_eq_true.2 ⟨⟨u, Term.mem_vars.2 hut⟩, List.mem_attach _ _, hu⟩

theorem leadsTo_eq (σ : Substitution) (v w : Variable) :
    σ.leadsTo v w = (w = v ||
      match σ.lookup? w with
      | none => false
      | some t => σ.reaches v t) := by
  rw [leadsTo]
  split
  · next h => rw [h]
  · next h => simp [h, reaches]

theorem reaches_eq_true_iff {σ : Substitution} {v : Variable} {t : Term} :
    σ.reaches v t = true ↔ ∃ w ∈ t, σ.leadsTo v w = true := by
  simp [reaches]

end Substitution

/-- The term with every bound variable replaced by what it stands for. -/
def Term.replace (t : Term) (σ : Substitution) : Term := t.subst σ.value

/-- The formula with every bound variable replaced by what it stands for. -/
def Formula.replace (f : Formula) (σ : Substitution) : Formula := f.subst σ.value

namespace Substitution

/-! ## Binding variables -/

/-- One more binding, for a variable that is unbound and that the term does not
lead back to. -/
def bind (σ : Substitution) (v : Variable) (t : Term) (hv : σ.lookup? v = none)
    (ht : σ.reaches v t = false) : Substitution where
  bindings := σ.bindings ++ [(v, t)]
  nodup := VariableMap.nodup_keys_append σ.nodup t hv
  acyclic := by
    refine Bindings.wellFounded_append σ.acyclic hv (σ.leadsTo v · = false) (by simp) ?_ ?_
    · intro w hw
      rw [← Bool.not_eq_true]
      intro h
      rw [reaches_eq_true_iff.2 ⟨w, hw, h⟩] at ht
      exact Bool.noConfusion ht
    · intro w u hw hu
      rw [← Bool.not_eq_true] at hw ⊢
      exact fun h => hw (leadsTo_of_depends hu h)

/-- Binds a variable, unless it is bound already or the term leads back to it. -/
def add (σ : Substitution) (v : Variable) (t : Term) : Except Error Substitution :=
  match hv : σ.lookup? v with
  | some existing => .error (.alreadyBound v existing)
  | none =>
    if ht : σ.reaches v t = true then .error (.cyclicBinding v t)
    else .ok (σ.bind v t hv (Bool.eq_false_iff.2 ht))

/-- Binds variables one after the other, up to the first that cannot be bound. -/
def ofBindings (b : Bindings) : Except Error Substitution :=
  b.foldlM (fun σ p => σ.add p.1 p.2) ∅

/-! ## Text -/

/-- The bindings in order, as in `{X -> a, Y -> f(X)}`. -/
def display (σ : Substitution) : String :=
  "\x7b" ++ ", ".intercalate (σ.bindings.map fun (v, t) => s!"{v} -> {t}") ++ "\x7d"

instance : ToString Substitution := ⟨display⟩

end Substitution
end Unification
