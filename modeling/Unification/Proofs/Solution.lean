import Mathlib.Data.List.Forall2
import Unification.Unify

/-!
# Solutions

A map from variables to terms solves an equation when it makes both sides equal,
and a substitution when every binding, read as an equation, holds under it.  The
map may be any function: it need not be idempotent, nor move finitely many
variables.

Solving neither gains nor loses a solution.  `solve_solvedBy` says so of a
substitution that solving returns, and `not_solvedBy_of_solve_eq_error` says that
an obstruction is reported only where there is no solution.  Both follow, by
induction on the run, from what `reduce` does to one equation.
-/

namespace Unification

namespace Term

theorem isVariable_eq_false_iff {t : Term} : t.isVariable = false ↔ ∀ v, t ≠ .var v := by
  cases t with
  | var v => exact iff_of_false nofun fun h => h v rfl
  | const c => exact iff_of_true rfl nofun
  | app f args => exact iff_of_true rfl nofun

theorem eq_var_or_not_variable (t : Term) : (∃ v, t = .var v) ∨ t.isVariable = false := by
  cases t with
  | var v => exact .inl ⟨v, rfl⟩
  | const c => exact .inr rfl
  | app f args => exact .inr rfl

theorem eq_const_or_eq_app {t : Term} (h : t.isVariable = false) :
    (∃ c, t = .const c) ∨ ∃ f args, t = .app f args := by
  cases t with
  | var v => exact Bool.noConfusion h
  | const c => exact .inl ⟨c, rfl⟩
  | app f args => exact .inr ⟨f, args, rfl⟩

theorem size_subst_lt_of_mem {t : Term} {args : List Term} (h : t ∈ args) (f : Symbol)
    (θ : Variable → Term) : (t.subst θ).size < ((app f args).subst θ).size := by
  have hle : (t.subst θ).size ≤ sizeAll (args.map (subst θ)) :=
    size_le_sizeAll (List.mem_map_of_mem h)
  rw [subst_app, size]
  omega

theorem size_le_size_subst {v : Variable} {t : Term} (h : v ∈ t) (θ : Variable → Term) :
    (θ v).size ≤ (t.subst θ).size := by
  induction t with
  | var w =>
    have hvar : θ v = (var w).subst θ := by rw [mem_var.1 h, subst_var]
    exact Nat.le_of_eq (congrArg size hvar)
  | const c => exact absurd h not_mem_const
  | app f args ih =>
    obtain ⟨t, ht, hv⟩ := mem_app.1 h
    exact Nat.le_of_lt (Nat.lt_of_le_of_lt (ih t ht hv) (size_subst_lt_of_mem ht f θ))

/-- A variable that occurs in a term properly has a smaller image. -/
theorem size_lt_size_subst {v : Variable} {t : Term} (h : v ∈ t) (hne : t ≠ .var v)
    (θ : Variable → Term) : (θ v).size < (t.subst θ).size := by
  cases t with
  | var w => exact absurd (mem_var.1 h ▸ rfl) hne
  | const c => exact absurd h not_mem_const
  | app f args =>
    obtain ⟨t, ht, hv⟩ := mem_app.1 h
    exact Nat.lt_of_le_of_lt (size_le_size_subst hv θ) (size_subst_lt_of_mem ht f θ)

end Term

namespace Substitution

/-- Every binding holds under the map. -/
def SolvedBy (σ : Substitution) (θ : Variable → Term) : Prop :=
  ∀ p ∈ σ.bindings, θ p.1 = p.2.subst θ

variable {σ τ : Substitution} {θ : Variable → Term}

theorem solvedBy_iff_lookup? :
    σ.SolvedBy θ ↔ ∀ v t, σ.lookup? v = some t → θ v = t.subst θ := by
  constructor
  · intro h v t ht
    exact h (v, t) (VariableMap.mem_of_lookup? ht)
  · intro h p hp
    exact h p.1 p.2 ((VariableMap.lookup?_eq_some_iff σ.nodup).2 hp)

theorem solvedBy_value (σ : Substitution) : σ.SolvedBy σ.value :=
  solvedBy_iff_lookup?.2 fun _ _ h => value_of_lookup? h

theorem solvedBy_empty (θ : Variable → Term) : (∅ : Substitution).SolvedBy θ :=
  fun _ hp => absurd hp List.not_mem_nil

theorem SolvedBy.subst_value (h : σ.SolvedBy θ) (v : Variable) : (σ.value v).subst θ = θ v := by
  induction v using σ.bound_induction with
  | unbound v hv => rw [value_of_unbound hv, Term.subst_var]
  | bound v t ht ih =>
    rw [value_of_lookup? ht, Term.replace, Term.subst_subst, Term.subst_congr ih]
    exact (solvedBy_iff_lookup?.1 h v t ht).symm

/-- A solution does not see whether bindings have been followed. -/
theorem SolvedBy.subst_replace (h : σ.SolvedBy θ) (t : Term) :
    (t.replace σ).subst θ = t.subst θ := by
  rw [Term.replace, Term.subst_subst]
  exact Term.subst_congr fun v _ => h.subst_value v

theorem SolvedBy.subst_resolve (h : σ.SolvedBy θ) (t : Term) :
    (σ.resolve t).subst θ = t.subst θ := by
  rw [← h.subst_replace (σ.resolve t), Term.replace_resolve, h.subst_replace]

theorem solvedBy_bind {v : Variable} {t : Term} {hv : σ.lookup? v = none}
    {ht : σ.reaches v t = false} :
    (σ.bind v t hv ht).SolvedBy θ ↔ σ.SolvedBy θ ∧ θ v = t.subst θ := by
  simp only [SolvedBy, bind, List.mem_append, List.mem_singleton, or_imp, forall_and, forall_eq]

end Substitution

namespace Equation

/-- Both sides are equal under the map. -/
def SolvedBy (e : Equation) (θ : Variable → Term) : Prop := e.1.subst θ = e.2.subst θ

theorem solvedBy_zip_iff {ss ts : List Term} (h : ss.length = ts.length) (θ : Variable → Term) :
    (∀ e ∈ ss.zip ts, SolvedBy e θ) ↔ ss.map (Term.subst θ) = ts.map (Term.subst θ) := by
  rw [← List.forall₂_eq_eq_eq, List.forall₂_map_left_iff, List.forall₂_map_right_iff,
    List.forall₂_iff_zip]
  exact ⟨fun hz => ⟨h, fun {s t} hst => hz (s, t) hst⟩, fun hz e he => hz.2 he⟩

/-- The equations between the parts hold exactly when the equation between the
whole terms does. -/
theorem solvedBy_decompose {s t : Term} {es : List Equation} (h : decompose s t = .ok es)
    (θ : Variable → Term) : (∀ e ∈ es, SolvedBy e θ) ↔ s.subst θ = t.subst θ := by
  rcases decompose_eq_ok h with ⟨c, rfl, rfl, rfl⟩ | ⟨f, ss, ts, rfl, rfl, hlen, rfl⟩
  · simp
  · rw [solvedBy_zip_iff hlen, Term.subst_app, Term.subst_app, Term.app.injEq]
    exact (and_iff_right rfl).symm

/-- Terms that are no variables and cannot be taken apart stay different. -/
theorem subst_ne_of_decompose_eq_error {s t : Term} {cause : UnificationError}
    (h : decompose s t = .error cause) (hs : s.isVariable = false) (ht : t.isVariable = false)
    (θ : Variable → Term) : s.subst θ ≠ t.subst θ := by
  intro heq
  rcases Term.eq_const_or_eq_app hs with ⟨c, rfl⟩ | ⟨f, ss, rfl⟩ <;>
    rcases Term.eq_const_or_eq_app ht with ⟨d, rfl⟩ | ⟨g, ts, rfl⟩
  · rw [Term.subst_const, Term.subst_const] at heq
    rw [decompose, if_pos (Term.const.inj heq)] at h
    cases h
  · rw [Term.subst_const, Term.subst_app] at heq
    cases heq
  · rw [Term.subst_const, Term.subst_app] at heq
    cases heq
  · rw [Term.subst_app, Term.subst_app] at heq
    obtain ⟨rfl, hargs⟩ := Term.app.inj heq
    have hlen : ss.length = ts.length := by simpa using congrArg List.length hargs
    rw [decompose_app_of_length_eq hlen] at h
    cases h

end Equation

namespace Substitution

variable {σ τ : Substitution} {θ : Variable → Term}

/-- Following a variable ends at a variable exactly when full replacement leaves
one, and then it is the same. -/
theorem resolve_eq_var_iff {t : Term} {v : Variable} :
    σ.resolve t = .var v ↔ t.replace σ = .var v := by
  have hreplace : (σ.resolve t).replace σ = t.replace σ := Term.replace_resolve t
  constructor
  · intro h
    have hv : σ.lookup? v = none := Term.unbound_of_resolve_eq_var h
    rw [← hreplace, h, Term.replace_var, value_of_unbound hv]
  · intro h
    rw [h] at hreplace
    cases hr : σ.resolve t with
    | var w =>
      have hw : σ.lookup? w = none := Term.unbound_of_resolve_eq_var hr
      rwa [hr, Term.replace_var, value_of_unbound hw] at hreplace
    | const c => rw [hr, Term.replace_const] at hreplace; cases hreplace
    | app f args => rw [hr, Term.replace_app] at hreplace; cases hreplace

theorem resolve_of_not_variable {t : Term} (ht : t.isVariable = false) : σ.resolve t = t := by
  rcases Term.eq_const_or_eq_app ht with ⟨c, rfl⟩ | ⟨f, args, rfl⟩
  · rfl
  · rfl

theorem resolve_resolve (t : Term) : σ.resolve (σ.resolve t) = σ.resolve t := by
  cases h : σ.resolve t with
  | var v =>
    have hv : σ.lookup? v = none := Term.unbound_of_resolve_eq_var h
    rw [resolve, resolveVariable_of_unbound hv]
  | const c => rfl
  | app f args => rfl

theorem eliminate_eq_ok {v : Variable} {t : Term} (hv : σ.lookup? v = none)
    (ht : σ.reaches v t = false) : σ.eliminate v t = .ok (σ.bind v t hv ht) :=
  dif_pos ⟨hv, ht⟩

theorem eliminate_eq_error {v : Variable} {t : Term} (ht : σ.reaches v t = true) :
    σ.eliminate v t = .error (.occursCheck v (t.replace σ)) :=
  dif_neg fun h => Bool.noConfusion (h.2.symm.trans ht)

/-! ### The four cases of `reduce` -/

theorem reduce_of_resolve_eq {e : Equation} (h : σ.resolve e.1 = σ.resolve e.2) :
    σ.reduce e = .ok (σ, []) :=
  if_pos h

theorem reduce_of_var_left {e : Equation} {v : Variable} (hne : σ.resolve e.1 ≠ σ.resolve e.2)
    (hl : σ.resolve e.1 = .var v) :
    σ.reduce e = (σ.eliminate v (σ.resolve e.2)).map (·, []) := by
  rw [reduce, if_neg hne, hl]

theorem reduce_of_var_right {e : Equation} {w : Variable} (hl : (σ.resolve e.1).isVariable = false)
    (hr : σ.resolve e.2 = .var w) : σ.reduce e = (σ.eliminate w (σ.resolve e.1)).map (·, []) := by
  have hne : σ.resolve e.1 ≠ σ.resolve e.2 := hr ▸ Term.isVariable_eq_false_iff.1 hl w
  rw [reduce, if_neg hne, hr]
  rcases Term.eq_const_or_eq_app hl with ⟨c, hc⟩ | ⟨f, args, ha⟩
  · rw [hc]
  · rw [ha]

theorem reduce_of_not_variable {e : Equation} (hne : σ.resolve e.1 ≠ σ.resolve e.2)
    (hl : (σ.resolve e.1).isVariable = false) (hr : (σ.resolve e.2).isVariable = false) :
    σ.reduce e =
      (if e.2.isVariable then Equation.decompose (σ.resolve e.2) (σ.resolve e.1)
        else Equation.decompose (σ.resolve e.1) (σ.resolve e.2)).map (σ, ·) := by
  rw [reduce, if_neg hne]
  rcases Term.eq_const_or_eq_app hl with ⟨c, hc⟩ | ⟨f, ss, hc⟩ <;>
    rcases Term.eq_const_or_eq_app hr with ⟨d, hd⟩ | ⟨g, ts, hd⟩ <;> rw [hc, hd]

/-- The two ways in which an equation is refused: a variable would have to equal
a term that contains it, or two terms that are no variables disagree. -/
theorem reduce_eq_error {e : Equation} {cause : UnificationError}
    (h : σ.reduce e = .error cause) :
    (∃ v t, (σ.resolve e.1 = .var v ∧ σ.resolve e.2 = t ∨
      σ.resolve e.1 = t ∧ σ.resolve e.2 = .var v) ∧ σ.resolve t = t ∧ t ≠ .var v ∧
      σ.lookup? v = none ∧ σ.reaches v t = true ∧ cause = .occursCheck v (t.replace σ)) ∨
    ((σ.resolve e.1).isVariable = false ∧ (σ.resolve e.2).isVariable = false ∧
      (Equation.decompose (σ.resolve e.1) (σ.resolve e.2) = .error cause ∨
        Equation.decompose (σ.resolve e.2) (σ.resolve e.1) = .error cause)) := by
  have eliminated {v : Variable} {t : Term} (hv : σ.lookup? v = none)
      (h : (σ.eliminate v t).map (·, ([] : List Equation)) = .error cause) :
      σ.reaches v t = true ∧ cause = .occursCheck v (t.replace σ) := by
    cases hr : σ.reaches v t with
    | true =>
      rw [eliminate_eq_error hr] at h
      cases h
      exact ⟨rfl, rfl⟩
    | false =>
      rw [eliminate_eq_ok hv hr] at h
      cases h
  have compared {s t : Term} (h : (Equation.decompose s t).map (σ, ·) = .error cause) :
      Equation.decompose s t = .error cause := by
    cases hd : Equation.decompose s t with
    | error c => rw [hd] at h; cases h; rfl
    | ok es => rw [hd] at h; cases h
  by_cases heq : σ.resolve e.1 = σ.resolve e.2
  · rw [reduce_of_resolve_eq heq] at h
    cases h
  rcases (σ.resolve e.1).eq_var_or_not_variable with ⟨v, hl⟩ | hl
  · have hv := Term.unbound_of_resolve_eq_var hl
    rw [reduce_of_var_left heq hl] at h
    refine .inl ⟨v, σ.resolve e.2, .inl ⟨hl, rfl⟩, resolve_resolve _, ?_, hv, eliminated hv h⟩
    exact fun hr => heq (hl.trans hr.symm)
  rcases (σ.resolve e.2).eq_var_or_not_variable with ⟨w, hr⟩ | hr
  · have hw := Term.unbound_of_resolve_eq_var hr
    rw [reduce_of_var_right hl hr] at h
    refine .inl ⟨w, σ.resolve e.1, .inr ⟨rfl, hr⟩, resolve_resolve _, ?_, hw, eliminated hw h⟩
    exact fun hl' => heq (hl'.trans hr.symm)
  · rw [reduce_of_not_variable heq hl hr] at h
    refine .inr ⟨hl, hr, ?_⟩
    by_cases hswap : e.2.isVariable = true
    · rw [if_pos hswap] at h
      exact .inr (compared h)
    · rw [if_neg hswap] at h
      exact .inl (compared h)

/-- What is left of an equation has the solutions of the equation. -/
theorem reduce_solvedBy {e : Equation} {es : List Equation} (h : σ.reduce e = .ok (τ, es))
    (θ : Variable → Term) :
    (τ.SolvedBy θ ∧ ∀ e' ∈ es, Equation.SolvedBy e' θ) ↔ σ.SolvedBy θ ∧ e.SolvedBy θ := by
  have hresolved (hσ : σ.SolvedBy θ) :
      e.SolvedBy θ ↔ (σ.resolve e.1).subst θ = (σ.resolve e.2).subst θ := by
    rw [hσ.subst_resolve, hσ.subst_resolve, Equation.SolvedBy]
  rcases reduce_eq_ok h with ⟨heq, rfl, rfl⟩ | ⟨v, t, hv, ht, hsides, rfl, rfl⟩ | ⟨hd, rfl⟩
  · have hsolved (hσ : τ.SolvedBy θ) : e.SolvedBy θ := (hresolved hσ).2 (by rw [heq])
    simpa using hsolved
  · rw [solvedBy_bind]
    have hsolved (hσ : σ.SolvedBy θ) : θ v = t.subst θ ↔ e.SolvedBy θ := by
      rw [hresolved hσ]
      rcases hsides with ⟨hl, hr⟩ | ⟨hl, hr⟩
      · rw [hl, hr, Term.subst_var]
      · rw [hl, hr, Term.subst_var, eq_comm]
    simpa using hsolved
  · have hsolved (hσ : τ.SolvedBy θ) : (∀ e' ∈ es, Equation.SolvedBy e' θ) ↔ e.SolvedBy θ := by
      rw [hresolved hσ]
      rcases hd with hd | hd
      · exact Equation.solvedBy_decompose hd θ
      · exact (Equation.solvedBy_decompose hd θ).trans eq_comm
    exact and_congr_right hsolved

theorem not_solvedBy_of_reduce_eq_error {e : Equation} {cause : UnificationError}
    (h : σ.reduce e = .error cause) (hσ : σ.SolvedBy θ) : ¬e.SolvedBy θ := by
  rw [Equation.SolvedBy, ← hσ.subst_resolve e.1, ← hσ.subst_resolve e.2]
  rcases reduce_eq_error h with ⟨v, t, hsides, ht, hne, hv, hreaches, -⟩ | ⟨hl, hr, hd⟩
  · have hmem : v ∈ t.replace σ := (reaches_iff_mem_replace hv).1 hreaches
    have hproper : t.replace σ ≠ .var v := fun hr => hne (ht.symm.trans (resolve_eq_var_iff.2 hr))
    have hsize : (θ v).size < (t.subst θ).size := by
      rw [← hσ.subst_replace t]
      exact Term.size_lt_size_subst hmem hproper θ
    have hdiffer : θ v ≠ t.subst θ := fun heq => Nat.lt_irrefl _ (heq ▸ hsize)
    rcases hsides with ⟨hl, hr⟩ | ⟨hl, hr⟩
    · rw [hl, hr, Term.subst_var]
      exact hdiffer
    · rw [hl, hr, Term.subst_var]
      exact hdiffer.symm
  · rcases hd with hd | hd
    · exact Equation.subst_ne_of_decompose_eq_error hd hl hr θ
    · exact (Equation.subst_ne_of_decompose_eq_error hd hr hl θ).symm

/-- Solving keeps exactly the solutions that the equations leave. -/
theorem solve_solvedBy {es : List Equation} (h : σ.solve es = .ok τ) (θ : Variable → Term) :
    τ.SolvedBy θ ↔ σ.SolvedBy θ ∧ ∀ e ∈ es, e.SolvedBy θ := by
  fun_induction solve σ es with
  | case1 σ =>
    cases h
    simp
  | case2 σ e rest cause hred => cases h
  | case3 σ e rest σ' es hred ih =>
    have hstep := reduce_solvedBy hred θ
    rw [ih h, List.forall_mem_append, List.forall_mem_cons, ← and_assoc, hstep, and_assoc]

/-- An obstruction is met only where there is no solution. -/
theorem not_solvedBy_of_solve_eq_error {es : List Equation} {cause : UnificationError}
    (h : σ.solve es = .error cause) (hσ : σ.SolvedBy θ) : ¬∀ e ∈ es, e.SolvedBy θ := by
  fun_induction solve σ es with
  | case1 σ => cases h
  | case2 σ e rest cause' hred =>
    cases h
    exact fun hes => not_solvedBy_of_reduce_eq_error hred hσ (hes e List.mem_cons_self)
  | case3 σ e rest σ' es hred ih =>
    intro hes
    obtain ⟨he, hrest⟩ := List.forall_mem_cons.1 hes
    obtain ⟨hσ', hparts⟩ := (reduce_solvedBy hred θ).2 ⟨hσ, he⟩
    exact ih h hσ' (List.forall_mem_append.2 ⟨hparts, hrest⟩)

end Substitution

end Unification
