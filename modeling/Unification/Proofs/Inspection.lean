import Unification.Proofs.Unchecked.Reachable

/-!
# Inspecting terms under bindings

Two questions about what a term stands for are answered without replacing anything in it.
`Substitution.resolve` says which head it has, and `Substitution.reaches` whether a variable
occurs in it.  Replacement to the end gives the same answers.

Resolving goes along a chain of bindings, of variables to variables but for the last, and stops
where it has no next link (`Bindings.chain_of_resolve?`).  A term that is no variable keeps its
head when it is replaced (`Term.sameHead_replace`), so what is found at the end of the chain is
what replacement puts on top.

A search goes along paths of the dependency graph (`Substitution.reaches_iff_mem_or_path`), so
it also finds variables that are bound, which replacement would not leave.  For unbound ones the
two agree.
-/

namespace Unification

open Relation

namespace Term

/-- The terms are the same constant, or apply the same functor to as many arguments. -/
inductive SameHead : Term → Term → Prop
  | const (c : Symbol) : SameHead (.const c) (.const c)
  | app (f : Symbol) {ss ts : List Term} (h : ss.length = ts.length) :
    SameHead (.app f ss) (.app f ts)

theorem sameHead_replace {t : Term} (ht : t.isVariable = false) (σ : Substitution) :
    t.SameHead (t.replace σ) := by
  obtain ⟨c, rfl⟩ | ⟨f, args, rfl⟩ := eq_const_or_eq_app ht
  · exact .const c
  · rw [replace_app]
    exact .app f (List.length_map _).symm

end Term

/-- The term has the variable, or has one from which a path leads there. -/
theorem Substitution.reaches_iff_mem_or_path {σ : Substitution} {v : Variable} {t : Term} :
    σ.reaches v t = true ↔ v ∈ t ∨ ∃ u ∈ t, TransGen σ.bindings.Depends v u := by
  rw [reaches_iff]
  constructor
  · intro h
    obtain ⟨u, hu, hpath⟩ := h
    obtain rfl | hpath := reflTransGen_iff_eq_or_transGen.1 hpath
    · exact .inl hu
    · exact .inr ⟨u, hu, hpath⟩
  · intro h
    obtain hv | ⟨u, hu, hpath⟩ := h
    · exact ⟨v, hv, .refl⟩
    · exact ⟨u, hu, hpath.to_reflTransGen⟩

namespace Bindings

variable {b : Bindings} {s t u : Term}

/-- The term is a variable, bound to the other one. -/
def Follows (b : Bindings) (s t : Term) : Prop := ∃ v, s = .var v ∧ b.lookup? v = some t

theorem Follows.isVariable (h : b.Follows s t) : s.isVariable = true := by
  obtain ⟨v, rfl, -⟩ := h
  rfl

/-- Where resolving ends, on whatever bindings, it has gone along a chain to its end. -/
theorem chain_of_resolve? {depth : Nat} (h : b.resolve? depth t = some u) :
    ReflTransGen b.Follows t u ∧ ∀ s, ¬b.Follows u s := by
  induction depth generalizing t with
  | zero =>
    rw [resolve?] at h
    cases h
  | succ depth ih =>
    cases t with
    | var v =>
      rw [resolve?] at h
      cases hv : b.lookup? v with
      | some s =>
        rw [hv] at h
        obtain ⟨hchain, hend⟩ := ih h
        exact ⟨.head ⟨v, rfl, hv⟩ hchain, hend⟩
      | none =>
        rw [hv] at h
        cases h
        refine ⟨.refl, fun s hs => ?_⟩
        obtain ⟨w, hw, hs⟩ := hs
        cases hw
        rw [hv] at hs
        cases hs
    | const c =>
      cases h
      exact ⟨.refl, fun s hs => Bool.noConfusion hs.isVariable⟩
    | app f args =>
      cases h
      exact ⟨.refl, fun s hs => Bool.noConfusion hs.isVariable⟩

/-- Resolving ends at the first term of the chain that is no bound variable.  To replace it or
the term at the start is the same; it is a variable where that gives one, the same one, and has
the head of what that gives otherwise. -/
theorem Reachable.resolve_shows_head (h : b.Reachable) :
    ∃ σ : Substitution, σ.bindings = b ∧ (∀ t, Ends (b.replace? · t) (t.replace σ)) ∧ ∀ t,
      Ends (b.resolve? · t) (σ.resolve t) ∧
      ReflTransGen b.Follows t (σ.resolve t) ∧
      (∀ v, σ.resolve t = .var v → b.lookup? v = none) ∧
      (σ.resolve t).replace σ = t.replace σ ∧
      (∀ v, σ.resolve t = .var v ↔ t.replace σ = .var v) ∧
      ((σ.resolve t).isVariable = false → (σ.resolve t).SameHead (t.replace σ)) := by
  obtain ⟨σ, rfl⟩ := h.exists_substitution
  refine ⟨σ, rfl, replace?_bindings σ, fun t => ?_⟩
  have hrun := resolve?_bindings σ t
  obtain ⟨depth, hdepth⟩ := hrun.exists
  obtain ⟨hchain, hend⟩ := chain_of_resolve? hdepth
  have hreplace : (σ.resolve t).replace σ = t.replace σ := Term.replace_resolve t
  refine ⟨hrun, hchain, fun v hv => ?_, hreplace, fun v => Substitution.resolve_eq_var_iff,
    fun hu => ?_⟩
  · exact Option.eq_none_iff_forall_ne_some.2 fun s hs => hend s ⟨v, hv, hs⟩
  · rw [← hreplace]
    exact Term.sameHead_replace hu σ

/-- `X` is followed to `Y` and from there to `f(Z)`, where `Z` stays although it is bound. -/
theorem Reachable.resolve_shows_head_chain :
    let b : Bindings := [(Sample.x, .var Sample.y), (Sample.z, .const Sample.a),
      (Sample.y, .app Sample.f [.var Sample.z])]
    let x : Term := .var Sample.x
    b.Reachable ∧
      ∃ σ : Substitution, σ.bindings = b ∧
        σ.resolve x = .app Sample.f [.var Sample.z] ∧
        x.replace σ = .app Sample.f [.const Sample.a] ∧
        Ends (b.resolve? · x) (σ.resolve x) ∧ ReflTransGen b.Follows x (σ.resolve x) ∧
        (σ.resolve x).replace σ = x.replace σ ∧ (σ.resolve x).SameHead (x.replace σ) := by
  intro b x
  have hadded : Ends (addAll? · [] b) (.ok b) := .of_depth 6 fun _ => rfl
  have hreachable : b.Reachable := .ofBindings hadded
  obtain ⟨σ, hσ, hreplace, hresolve⟩ := hreachable.resolve_shows_head
  obtain ⟨hrun, hchain, -, hsame, -, hhead⟩ := hresolve x
  have hresolved : σ.resolve x = .app Sample.f [.var Sample.z] :=
    hrun.unique (.of_depth 3 fun _ => rfl)
  have hreplaced : x.replace σ = .app Sample.f [.const Sample.a] :=
    (hreplace x).unique (.of_depth 6 fun _ => rfl)
  exact ⟨hreachable, σ, hσ, hresolved, hreplaced, hrun, hchain, hsame,
    hhead (by rw [hresolved]; rfl)⟩

/-- A search finds a variable that occurs in the term, or that some variable of the term leads
to along one edge or more, and no other.  One that is not bound is found exactly if replacement
leaves it in the term. -/
theorem Reachable.reaches_exact (h : b.Reachable) :
    ∃ σ : Substitution, σ.bindings = b ∧ (∀ t, Ends (b.replace? · t) (t.replace σ)) ∧ ∀ v t,
      Ends (b.reaches? v · t) (σ.reaches v t) ∧
      (σ.reaches v t = true ↔ v ∈ t ∨ ∃ u ∈ t, TransGen b.Depends v u) ∧
      (b.lookup? v = none → (σ.reaches v t = true ↔ (t.replace σ).contains v = true)) := by
  obtain ⟨σ, rfl⟩ := h.exists_substitution
  exact ⟨σ, rfl, replace?_bindings σ, fun v t => ⟨reaches?_bindings σ v t,
    Substitution.reaches_iff_mem_or_path, Substitution.reaches_iff_mem_replace⟩⟩

/-- From `X` a search comes to `Z` along two edges.  It finds `Y` on the way as well, which is
bound and does not stay. -/
theorem Reachable.reaches_exact_path :
    let b : Bindings := [(Sample.x, .app Sample.f [.const Sample.a, .var Sample.y]),
      (Sample.y, .app Sample.f [.var Sample.z])]
    let x : Term := .var Sample.x
    b.Reachable ∧ b.lookup? Sample.z = none ∧
      ∃ σ : Substitution, σ.bindings = b ∧
        σ.reaches Sample.z x = true ∧ σ.reaches Sample.y x = true ∧
        (Sample.z ∈ x ∨ ∃ u ∈ x, TransGen b.Depends Sample.z u) ∧
        (Sample.y ∈ x ∨ ∃ u ∈ x, TransGen b.Depends Sample.y u) ∧
        (x.replace σ).contains Sample.z = true ∧ (x.replace σ).contains Sample.y = false := by
  intro b x
  have hadded : Ends (addAll? · [] b) (.ok b) := .of_depth 6 fun _ => rfl
  have hreachable : b.Reachable := .ofBindings hadded
  obtain ⟨σ, hσ, hreplace, hsearch⟩ := hreachable.reaches_exact
  obtain ⟨hrunz, hpathz, hstays⟩ := hsearch Sample.z x
  obtain ⟨hruny, hpathy, -⟩ := hsearch Sample.y x
  have hz : σ.reaches Sample.z x = true := hrunz.unique (.of_depth 6 fun _ => rfl)
  have hy : σ.reaches Sample.y x = true := hruny.unique (.of_depth 6 fun _ => rfl)
  have hreplaced : x.replace σ =
      .app Sample.f [.const Sample.a, .app Sample.f [.var Sample.z]] :=
    (hreplace x).unique (.of_depth 6 fun _ => rfl)
  refine ⟨hreachable, rfl, σ, hσ, hz, hy, hpathz.1 hz, hpathy.1 hy, (hstays rfl).1 hz, ?_⟩
  rw [hreplaced]
  rfl

end Bindings
end Unification
