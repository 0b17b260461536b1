import Mathlib.Data.Set.Function
import Unification.Proofs.Elimination

/-!
# Variables are as good as any others

Unification sees of a variable only which others are the same.  So a run on equations
whose variables have been renamed, no two of them to one, is the old run renamed: it takes
every turn that the old one takes, binds in the same order what the old one binds, and ends
at the same obstruction (`Pair.unify_rename`).

`Substitution.Renamed` relates the substitutions that the two runs have got to, and
`Renamed.reduce` says that a step keeps it.  Names matter only within the set of variables
that the run has to do with, which a step does not leave either.
-/

namespace Unification

instance : Nonempty Variable := ⟨⟨⟨"X", by decide⟩⟩⟩

variable {g : Variable → Variable} {V : Set Variable}

/-! ## Terms and equations -/

namespace Term

variable {s t : Term} {v : Variable}

/-- The variables of the term are in `V`. -/
def About (V : Set Variable) (t : Term) : Prop := ∀ v ∈ t, v ∈ V

theorem about_var : (var v).About V ↔ v ∈ V :=
  ⟨fun h => h v (mem_var.2 rfl), fun h _ hw => mem_var.1 hw ▸ h⟩

theorem about_app {f : Symbol} {args : List Term} :
    (app f args).About V ↔ ∀ t ∈ args, t.About V :=
  ⟨fun h t ht v hv => h v (mem_app.2 ⟨t, ht, hv⟩), fun h v hv =>
    let ⟨t, ht, hvt⟩ := mem_app.1 hv
    h t ht v hvt⟩

theorem About.subst {θ : Variable → Term} (h : ∀ v ∈ t, (θ v).About V) : (t.subst θ).About V := by
  intro w hw
  obtain ⟨v, hv, hw⟩ := mem_subst.1 hw
  exact h v hv w hw

@[simp] theorem rename_app (g : Variable → Variable) (f : Symbol) (args : List Term) :
    (app f args).rename g = app f (args.map (rename g)) :=
  subst_app _ f args

@[simp] theorem isVariable_rename (g : Variable → Variable) (t : Term) :
    (t.rename g).isVariable = t.isVariable := by
  cases t <;> rfl

theorem mem_rename {w : Variable} : w ∈ t.rename g ↔ ∃ v ∈ t, g v = w := by
  simp only [rename, mem_subst, mem_var, eq_comm]

theorem mem_rename_iff (hg : V.InjOn g) (hv : v ∈ V) (ht : t.About V) :
    g v ∈ t.rename g ↔ v ∈ t := by
  rw [mem_rename]
  constructor
  · rintro ⟨w, hw, heq⟩
    exact hg (ht w hw) hv heq ▸ hw
  · intro h
    exact ⟨v, h, rfl⟩

/-- Within `V` names can be given back. -/
theorem rename_invFunOn (hg : V.InjOn g) (ht : t.About V) :
    (t.rename g).rename (Function.invFunOn g V) = t := by
  rw [rename, rename, subst_subst]
  refine (subst_congr fun v hv => ?_).trans t.subst_id
  exact congrArg var (hg.leftInvOn_invFunOn (ht v hv))

theorem rename_inj (hg : V.InjOn g) (hs : s.About V) (ht : t.About V) :
    s.rename g = t.rename g ↔ s = t := by
  refine ⟨fun h => ?_, fun h => h ▸ rfl⟩
  rw [← rename_invFunOn hg hs, h, rename_invFunOn hg ht]

end Term

namespace VariableMap

variable {α β : Type} {m : VariableMap α} {v : Variable}

theorem lookup?_map_rename (hg : V.InjOn g) (hm : ∀ p ∈ m, p.1 ∈ V) (hv : v ∈ V) (f : α → β) :
    lookup? (m.map (Prod.map g f)) (g v) = (lookup? m v).map f := by
  induction m with
  | nil => rfl
  | cons p m ih =>
    obtain ⟨w, a⟩ := p
    obtain ⟨hw, hm⟩ := List.forall_mem_cons.1 hm
    rw [List.map_cons, Prod.map_apply, lookup?_cons, lookup?_cons, ih hm]
    simp only [hg.eq_iff hv hw]
    split <;> rfl

end VariableMap

namespace Equation

variable {s t : Term} {e : Equation} {es : List Equation}

def About (V : Set Variable) (e : Equation) : Prop := e.1.About V ∧ e.2.About V

def rename (g : Variable → Variable) (e : Equation) : Equation := (e.1.rename g, e.2.rename g)

theorem about_of_decompose (h : decompose s t = .ok es) (hs : s.About V) (ht : t.About V) :
    ∀ e ∈ es, e.About V := by
  intro e he
  rcases decompose_eq_ok h with ⟨c, rfl, rfl, rfl⟩ | ⟨f, ss, ts, rfl, rfl, -, rfl⟩
  · exact absurd he List.not_mem_nil
  · obtain ⟨hl, hr⟩ := List.of_mem_zip he
    exact ⟨Term.about_app.1 hs _ hl, Term.about_app.1 ht _ hr⟩

end Equation

/-! ## Outcomes -/

/-- What becomes of an obstruction when variables are renamed. -/
inductive UnificationError.Renamed (g : Variable → Variable) :
    UnificationError → UnificationError → Prop
  | symbolClash (a b : Symbol) : Renamed g (.symbolClash a b) (.symbolClash a b)
  | arityMismatch (m n : Nat) : Renamed g (.arityMismatch m n) (.arityMismatch m n)
  | operatorClash (k l : Connective) : Renamed g (.operatorClash k l) (.operatorClash k l)
  /-- The texts are those of the renamed terms, and below of the renamed formulas. -/
  | terms (s t : Term) : Renamed g (.variantMismatch s.display t.display)
      (.variantMismatch (s.rename g).display (t.rename g).display)
  | formulas (f f' : Formula) : Renamed g (.variantMismatch f.display f'.display)
      (.variantMismatch (f.rename g).display (f'.rename g).display)
  | occursCheck (v : Variable) (t : Term) :
      Renamed g (.occursCheck v t) (.occursCheck (g v) (t.rename g))

/-- Both fail, the second one with the renamed obstruction of the first, or both succeed, with
related results. -/
inductive Alongside (g : Variable → Variable) {α β : Type} (R : α → β → Prop) :
    Except UnificationError α → Except UnificationError β → Prop
  | error {c d : UnificationError} (h : c.Renamed g d) : Alongside g R (.error c) (.error d)
  | ok {a : α} {b : β} (h : R a b) : Alongside g R (.ok a) (.ok b)

namespace Alongside

variable {α β α' β' : Type} {R : α → β → Prop} {R' : α' → β' → Prop}
  {a : Except UnificationError α} {b : Except UnificationError β}

theorem map {f : α → α'} {f' : β → β'} (h : Alongside g R a b)
    (hR : ∀ x y, a = .ok x → R x y → R' (f x) (f' y)) : Alongside g R' (a.map f) (b.map f') := by
  cases h with
  | error h => exact .error h
  | ok h => exact .ok (hR _ _ rfl h)

theorem bind {f : α → Except UnificationError α'} {f' : β → Except UnificationError β'}
    (h : Alongside g R a b) (hR : ∀ x y, a = .ok x → R x y → Alongside g R' (f x) (f' y)) :
    Alongside g R' (a.bind f) (b.bind f') := by
  cases h with
  | error h => exact .error h
  | ok h => exact hR _ _ rfl h

theorem exists_ok_iff (h : Alongside g R a b) : (∃ x, a = .ok x) ↔ ∃ y, b = .ok y := by
  cases h with
  | error h => exact iff_of_false nofun nofun
  | ok h => exact iff_of_true ⟨_, rfl⟩ ⟨_, rfl⟩

theorem of_ok {x : α} {y : β} (h : Alongside g R a b) (hx : a = .ok x) (hy : b = .ok y) :
    R x y := by
  cases h with
  | error h => cases hx
  | ok h => cases hx; cases hy; exact h

theorem of_error {c d : UnificationError} (h : Alongside g R a b) (hc : a = .error c)
    (hd : b = .error d) : c.Renamed g d := by
  cases h with
  | error h => cases hc; cases hd; exact h
  | ok h => cases hc

end Alongside

theorem Equation.decompose_rename (g : Variable → Variable) (s t : Term) :
    Alongside g (fun es fs => fs = es.map (rename g)) (decompose s t)
      (decompose (s.rename g) (t.rename g)) := by
  cases s with
  | var v => cases t <;> exact .error (.terms _ _)
  | const c =>
    cases t with
    | var w => exact .error (.terms _ _)
    | const d =>
      show Alongside g _ (decompose (.const c) (.const d)) (decompose (.const c) (.const d))
      rw [decompose]
      split
      · exact .ok rfl
      · exact .error (.symbolClash c d)
    | app f ts => exact .error (.terms _ _)
  | app f ss =>
    cases t with
    | var w => exact .error (.terms _ _)
    | const d => exact .error (.terms _ _)
    | app h ts =>
      have hss : (ss.map (Term.rename g)).length = ss.length := List.length_map _
      have hts : (ts.map (Term.rename g)).length = ts.length := List.length_map _
      rw [Term.rename_app, Term.rename_app]
      by_cases hf : f = h
      · subst hf
        by_cases hlen : ss.length = ts.length
        · rw [decompose_app_of_length_eq hlen, decompose_app_of_length_eq (by rwa [hss, hts])]
          exact .ok List.zip_map
        · rw [decompose_app_of_length_ne hlen, decompose_app_of_length_ne (by rwa [hss, hts]),
            hss, hts]
          exact .error (.arityMismatch _ _)
      · rw [decompose_app_of_ne hf, decompose_app_of_ne hf]
        exact .error (.symbolClash f h)

/-! ## Substitutions -/

namespace Substitution

variable {σ τ : Substitution} {v : Variable} {t : Term} {e : Equation} {es : List Equation}

/-- `τ` is `σ`, which is about variables in `V` only, with its variables renamed. -/
structure Renamed (g : Variable → Variable) (V : Set Variable) (σ τ : Substitution) : Prop where
  bindings : τ.bindings = σ.bindings.map (Prod.map g (Term.rename g))
  about : ∀ p ∈ σ.bindings, p.1 ∈ V ∧ p.2.About V

namespace Renamed

theorem empty (g : Variable → Variable) (V : Set Variable) : Renamed g V ∅ ∅ :=
  ⟨rfl, fun _ hp => absurd hp List.not_mem_nil⟩

theorem lookup?_eq (h : Renamed g V σ τ) (hg : V.InjOn g) (hv : v ∈ V) :
    τ.lookup? (g v) = (σ.lookup? v).map (Term.rename g) := by
  rw [lookup?, h.bindings]
  exact VariableMap.lookup?_map_rename hg (fun p hp => (h.about p hp).1) hv _

theorem unbound (h : Renamed g V σ τ) (hg : V.InjOn g) (hv : v ∈ V) (hun : σ.lookup? v = none) :
    τ.lookup? (g v) = none := by
  rw [h.lookup?_eq hg hv, hun]
  rfl

theorem about_of_lookup? (h : Renamed g V σ τ) (ht : σ.lookup? v = some t) : t.About V :=
  (h.about (v, t) (VariableMap.mem_of_lookup? ht)).2

/-- What is bound in the one is bound in the other, to the renamed term. -/
theorem bound (h : Renamed g V σ τ) (hg : V.InjOn g) (hv : v ∈ V) (ht : σ.lookup? v = some t) :
    τ.lookup? (g v) = some (t.rename g) ∧ t.About V := by
  rw [h.lookup?_eq hg hv, ht]
  exact ⟨rfl, h.about_of_lookup? ht⟩

/-! ### Following bindings -/

theorem replace_of_value (h : ∀ v ∈ t, τ.value (g v) = (σ.value v).rename g) :
    (t.rename g).replace τ = (t.replace σ).rename g :=
  calc (t.rename g).replace τ = t.subst fun v => τ.value (g v) := Term.subst_subst _ _ t
    _ = t.subst fun v => (σ.value v).rename g := Term.subst_congr h
    _ = (t.replace σ).rename g := (Term.subst_subst _ _ t).symm

theorem value_eq (h : Renamed g V σ τ) (hg : V.InjOn g) (hv : v ∈ V) :
    τ.value (g v) = (σ.value v).rename g := by
  induction v using σ.bound_induction with
  | unbound v hun =>
    rw [value_of_unbound hun, value_of_unbound (h.unbound hg hv hun)]
    rfl
  | bound v t ht ih =>
    obtain ⟨hbound, habout⟩ := h.bound hg hv ht
    rw [value_of_lookup? ht, value_of_lookup? hbound]
    exact replace_of_value fun w hw => ih w hw (habout w hw)

theorem about_value (h : Renamed g V σ τ) (hv : v ∈ V) : (σ.value v).About V := by
  induction v using σ.bound_induction with
  | unbound v hun =>
    rw [value_of_unbound hun]
    exact Term.about_var.2 hv
  | bound v t ht ih =>
    rw [value_of_lookup? ht]
    exact .subst fun w hw => ih w hw (h.about_of_lookup? ht w hw)

theorem replace_eq (h : Renamed g V σ τ) (hg : V.InjOn g) (ht : t.About V) :
    (t.rename g).replace τ = (t.replace σ).rename g :=
  replace_of_value fun v hv => h.value_eq hg (ht v hv)

theorem about_replace (h : Renamed g V σ τ) (ht : t.About V) : (t.replace σ).About V :=
  .subst fun v hv => h.about_value (ht v hv)

theorem resolveVariable_eq (h : Renamed g V σ τ) (hg : V.InjOn g) (hv : v ∈ V) :
    τ.resolveVariable (g v) = (σ.resolveVariable v).rename g ∧ (σ.resolveVariable v).About V := by
  induction v using σ.bound_induction with
  | unbound v hun =>
    rw [resolveVariable_of_unbound hun, resolveVariable_of_unbound (h.unbound hg hv hun)]
    exact ⟨rfl, Term.about_var.2 hv⟩
  | bound v t ht ih =>
    obtain ⟨hbound, habout⟩ := h.bound hg hv ht
    rw [resolveVariable_of_lookup? ht, resolveVariable_of_lookup? hbound]
    cases t with
    | var w => exact ih w (Term.mem_var.2 rfl) (Term.about_var.1 habout)
    | const c => exact ⟨rfl, habout⟩
    | app f args => exact ⟨rfl, habout⟩

theorem resolve_eq (h : Renamed g V σ τ) (hg : V.InjOn g) (ht : t.About V) :
    τ.resolve (t.rename g) = (σ.resolve t).rename g ∧ (σ.resolve t).About V := by
  cases t with
  | var v => exact h.resolveVariable_eq hg (Term.about_var.1 ht)
  | const c => exact ⟨rfl, ht⟩
  | app f args => exact ⟨rfl, ht⟩

theorem reaches_eq (h : Renamed g V σ τ) (hg : V.InjOn g) (hv : v ∈ V) (hun : σ.lookup? v = none)
    (ht : t.About V) : τ.reaches (g v) (t.rename g) = σ.reaches v t := by
  rw [Bool.eq_iff_iff, reaches_iff_mem_replace hun, reaches_iff_mem_replace (h.unbound hg hv hun),
    h.replace_eq hg ht, Term.mem_rename_iff hg hv (h.about_replace ht)]

/-! ### Runs -/

theorem bind (h : Renamed g V σ τ) (hv : v ∈ V) (ht : t.About V) {hun : σ.lookup? v = none}
    {hreach : σ.reaches v t = false} {hun' : τ.lookup? (g v) = none}
    {hreach' : τ.reaches (g v) (t.rename g) = false} :
    Renamed g V (σ.bind v t hun hreach) (τ.bind (g v) (t.rename g) hun' hreach') where
  bindings := by
    show τ.bindings ++ [_] = (σ.bindings ++ [_]).map _
    rw [h.bindings, List.map_append]
    rfl
  about := List.forall_mem_append.2 ⟨h.about, List.forall_mem_singleton.2 ⟨hv, ht⟩⟩

theorem eliminate (h : Renamed g V σ τ) (hg : V.InjOn g) (hv : v ∈ V) (hun : σ.lookup? v = none)
    (ht : t.About V) :
    Alongside g (Renamed g V) (σ.eliminate v t) (τ.eliminate (g v) (t.rename g)) := by
  have hreaches := h.reaches_eq hg hv hun ht
  cases hreach : σ.reaches v t with
  | true =>
    rw [eliminate_eq_error hreach, eliminate_eq_error (hreaches.trans hreach), h.replace_eq hg ht]
    exact .error (.occursCheck v (t.replace σ))
  | false =>
    rw [eliminate_eq_ok hun hreach, eliminate_eq_ok (h.unbound hg hv hun) (hreaches.trans hreach)]
    exact .ok (h.bind hv ht)

/-- What the two runs have got to and what they have left to do. -/
structure Step (g : Variable → Variable) (V : Set Variable)
    (r r' : Substitution × List Equation) : Prop where
  substitution : Renamed g V r.1 r'.1
  equations : r'.2 = r.2.map (Equation.rename g)
  about : ∀ e ∈ r.2, e.About V

theorem step_nil (h : Renamed g V σ τ) : Step g V (σ, []) (τ, []) :=
  ⟨h, rfl, fun _ he => absurd he List.not_mem_nil⟩

/-- Equations are taken alike: what is bound and what is left are the same but for names. -/
theorem reduce (h : Renamed g V σ τ) (hg : V.InjOn g) (he : e.About V) :
    Alongside g (Step g V) (σ.reduce e) (τ.reduce (e.rename g)) := by
  obtain ⟨hl, habout₁⟩ := h.resolve_eq hg he.1
  obtain ⟨hr, habout₂⟩ := h.resolve_eq hg he.2
  have eliminated {v : Variable} {t : Term} (hv : v ∈ V) (hun : σ.lookup? v = none)
      (ht : t.About V) :
      Alongside g (Step g V) ((σ.eliminate v t).map (·, []))
        ((τ.eliminate (g v) (t.rename g)).map (·, [])) :=
    (h.eliminate hg hv hun ht).map fun _ _ _ hστ => hστ.step_nil
  have compared {s t : Term} (hs : s.About V) (ht : t.About V) :
      Alongside g (Step g V) ((Equation.decompose s t).map (σ, ·))
        ((Equation.decompose (s.rename g) (t.rename g)).map (τ, ·)) :=
    (Equation.decompose_rename g s t).map fun _ _ hes hrename =>
      ⟨h, hrename, Equation.about_of_decompose hes hs ht⟩
  by_cases heq : σ.resolve e.1 = σ.resolve e.2
  · have heq' : τ.resolve (e.rename g).1 = τ.resolve (e.rename g).2 :=
      hl.trans ((congrArg (Term.rename g) heq).trans hr.symm)
    rw [reduce_of_resolve_eq heq, reduce_of_resolve_eq heq']
    exact .ok h.step_nil
  have hne : τ.resolve (e.rename g).1 ≠ τ.resolve (e.rename g).2 := fun heq' =>
    heq ((Term.rename_inj hg habout₁ habout₂).1 (hl.symm.trans (heq'.trans hr)))
  rcases (σ.resolve e.1).eq_var_or_not_variable with ⟨v, hv⟩ | hleft
  · have hv' : τ.resolve (e.rename g).1 = .var (g v) := hl.trans (congrArg _ hv)
    have hun := Term.unbound_of_resolve_eq_var hv
    rw [hv] at habout₁
    rw [reduce_of_var_left heq hv, reduce_of_var_left hne hv']
    exact hr ▸ eliminated (Term.about_var.1 habout₁) hun habout₂
  have hleft' : (τ.resolve (e.rename g).1).isVariable = false := by
    rw [Equation.rename, hl, Term.isVariable_rename, hleft]
  rcases (σ.resolve e.2).eq_var_or_not_variable with ⟨w, hw⟩ | hright
  · have hw' : τ.resolve (e.rename g).2 = .var (g w) := hr.trans (congrArg _ hw)
    have hun := Term.unbound_of_resolve_eq_var hw
    rw [hw] at habout₂
    rw [reduce_of_var_right hleft hw, reduce_of_var_right hleft' hw']
    exact hl ▸ eliminated (Term.about_var.1 habout₂) hun habout₁
  · have hright' : (τ.resolve (e.rename g).2).isVariable = false := by
      rw [Equation.rename, hr, Term.isVariable_rename, hright]
    rw [reduce_of_not_variable heq hleft hright, reduce_of_not_variable hne hleft' hright']
    rw [Equation.rename, hl, hr, Term.isVariable_rename]
    -- Both runs turn the sides round here, or neither does.
    cases e.2.isVariable with
    | true => exact compared habout₂ habout₁
    | false => exact compared habout₁ habout₂

/-- So are lists of equations, by induction on the old run. -/
theorem solve (h : Renamed g V σ τ) (hg : V.InjOn g) (hes : ∀ e ∈ es, e.About V) :
    Alongside g (Renamed g V) (σ.solve es) (τ.solve (es.map (Equation.rename g))) := by
  induction σ, es using solve.induct generalizing τ with
  | case1 σ =>
    rw [List.map_nil, solve_nil, solve_nil]
    exact .ok h
  | case2 σ e rest cause hred =>
    rw [List.map_cons, solve_cons_eq_bind, solve_cons_eq_bind]
    refine (h.reduce hg (List.forall_mem_cons.1 hes).1).bind fun r _ hr => ?_
    cases hred.symm.trans hr
  | case3 σ e rest σ' parts hred ih =>
    obtain ⟨he, hrest⟩ := List.forall_mem_cons.1 hes
    rw [List.map_cons, solve_cons_eq_bind, solve_cons_eq_bind]
    refine (h.reduce hg he).bind fun r r' hr hstep => ?_
    cases hred.symm.trans hr
    rw [hstep.equations, ← List.map_append]
    exact ih hstep.substitution (List.forall_mem_append.2 ⟨hstep.about, hrest⟩)

end Renamed
end Substitution

/-! ## Expressions -/

theorem optionRel_or {α β : Type} {R : α → β → Prop} {a c : Option α} {b d : Option β}
    (h : Option.Rel R a b) (h' : Option.Rel R c d) : Option.Rel R (a.or c) (b.or d) := by
  cases h with
  | some h => exact .some h
  | none => exact h'

namespace Formula

variable {f f' : Formula} {cause : UnificationError}

@[simp] theorem rename_predicate (g : Variable → Variable) (p : Symbol) (args : List Term)
    (a : TruthValue) :
    (predicate p args a).rename g = predicate p (args.map (Term.rename g)) a :=
  subst_predicate _ p args a

theorem rename_operator (g : Variable → Variable) (k : Connective) (fs : List Formula)
    (a : TruthValue) :
    (operator k fs a).rename g = connect k (fs.map (rename g)) :=
  subst_operator _ k fs a

theorem Clash.rename (h : Clash f f' cause) (g : Variable → Variable) :
    ∃ cause', Clash (f.rename g) (f'.rename g) cause' ∧ cause.Renamed g cause' := by
  cases h with
  | symbols hp => exact ⟨_, .symbols hp, .symbolClash _ _⟩
  | @arguments p ss ts a b hlen =>
    rw [rename_predicate, rename_predicate]
    refine ⟨_, .arguments (by rwa [List.length_map, List.length_map]), ?_⟩
    rw [List.length_map, List.length_map]
    exact .arityMismatch _ _
  | connectives hk =>
    rw [rename_operator, rename_operator, connect, connect]
    exact ⟨_, .connectives hk, .operatorClash _ _⟩
  | @operands k fs gs a b hlen =>
    rw [rename_operator, rename_operator, connect, connect]
    refine ⟨_, .operands (by rwa [List.length_map, List.length_map]), ?_⟩
    rw [List.length_map, List.length_map]
    exact .arityMismatch _ _
  | predicateOperator => exact ⟨_, .predicateOperator, .formulas _ _⟩
  | operatorPredicate => exact ⟨_, .operatorPredicate, .formulas _ _⟩

/-- Formulas are blocked where they were, and by the same. -/
theorem obstruction?_rename (g : Variable → Variable) (f f' : Formula) :
    Option.Rel (UnificationError.Renamed g) (f.problem f').obstruction?
      ((f.rename g).problem (f'.rename g)).obstruction? := by
  induction f, f' using pair_induction with
  | clash f f' cause h =>
    obtain ⟨cause', h', hcause⟩ := h.rename g
    rw [problem_of_clash h, problem_of_clash h']
    exact .some hcause
  | predicates p ss ts a b hlen =>
    rw [rename_predicate, rename_predicate, problem_predicates hlen,
      problem_predicates (by rwa [List.length_map, List.length_map])]
    exact .none
  | operators k fs gs a b h =>
    rw [rename_operator, rename_operator, connect, connect, problem_operators h.length_eq,
      problem_operators (by rw [List.length_map, List.length_map, h.length_eq])]
    induction h with
    | nil => exact .none
    | cons hfg _ ih =>
      rw [List.map_cons, List.map_cons, problemAll, problemAll, Problem.obstruction?_andThen,
        Problem.obstruction?_andThen]
      exact optionRel_or hfg ih

end Formula

namespace Pair

variable {σ τ : Substitution} {p : Pair}

def rename (g : Variable → Variable) (p : Pair) : Pair := p.subst fun v => .var (g v)

theorem problem_rename (g : Variable → Variable) (p : Pair) :
    (p.rename g).problem.equations = p.problem.equations.map (Equation.rename g) ∧
      Option.Rel (UnificationError.Renamed g) p.problem.obstruction?
        (p.rename g).problem.obstruction? := by
  cases p with
  | terms s t => exact ⟨rfl, .none⟩
  | formulas f f' =>
    exact ⟨(Formula.problem_follows_subst _ f f').1, Formula.obstruction?_rename g f f'⟩

/-- Renaming the variables of a pair, no two to one, renames what comes of unifying it. -/
theorem unify_rename (hστ : σ.Renamed g V τ) (hg : V.InjOn g) (hp : ∀ v ∈ p.vars, v ∈ V) :
    Alongside g (Substitution.Renamed g V) (p.unify σ) ((p.rename g).unify τ) := by
  obtain ⟨hequations, hobstruction⟩ := p.problem_rename g
  have habout : ∀ e ∈ p.problem.equations, e.About V := fun e he =>
    ⟨fun v hv => hp v (mem_vars_of_mem_problem he (.inl hv)),
      fun v hv => hp v (mem_vars_of_mem_problem he (.inr hv))⟩
  rw [← solve_problem, ← solve_problem, Problem.solve, Problem.solve, hequations]
  refine (hστ.solve hg habout).bind fun σ' τ' _ hστ' => ?_
  generalize p.problem.obstruction? = cause?, (p.rename g).problem.obstruction? = cause'?
    at hobstruction
  cases hobstruction with
  | none => exact .ok hστ'
  | some hcause => exact .error hcause

end Pair
end Unification
