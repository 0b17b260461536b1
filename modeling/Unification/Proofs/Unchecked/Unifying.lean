import Unification.Proofs.Unchecked.Following

/-!
# Unifying over unchecked bindings

On the bindings of a substitution unification ends, and it ends with what `solve`
returns.  The two differ in how they come to the sides of an equation.  Unchecked
work follows the left side as far as it goes before the right one, and changes
sides when it meets a variable on the right; `reduce` resolves both sides first.
`unifyTerms?_resolve` brings the one to the other, and from there on each
equation gives way to those that `reduce` leaves (`unifyTerms?_of_reduce`), so
the induction is the one that `solve` makes.
-/

namespace Unification
namespace Bindings

open Filter

variable {σ : Substitution} {r : Except UnificationError Bindings}

theorem eliminate?_bindings {v : Variable} (hv : σ.lookup? v = none) (t : Term) :
    Ends (eliminate? · σ.bindings v t) ((σ.eliminate v t).map Substitution.bindings) := by
  filter_upwards [reaches?_bindings σ v t, replace?_bindings σ t] with depth hreaches hreplace
  rw [eliminate?, hreaches, hreplace]
  cases ht : σ.reaches v t with
  | true =>
    rw [Substitution.eliminate_eq_error ht]
    rfl
  | false =>
    rw [Substitution.eliminate_eq_ok hv ht]
    show some (Except.ok (VariableMap.insert σ.bindings v t)) = _
    rw [VariableMap.insert_of_lookup?_eq_none hv]
    rfl

/-- What is left to do with two resolved terms.  A right side that has been
reached from a variable comes first. -/
def unifyResolved? (swap : Bool) (depth : Nat) (b : Bindings) : Term → Term → Attempt
  | .var v, t => if t = .var v then some (.ok b) else eliminate? depth b v t
  | s, .var w => eliminate? depth b w s
  | s, t => if swap then unifyTerms? depth b t s else unifyTerms? depth b s t

theorem unifyResolved?_of_not_variable {b : Bindings} {swap : Bool} {depth : Nat} {s t : Term}
    (hs : s.isVariable = false) (ht : t.isVariable = false) :
    unifyResolved? swap depth b s t =
      if swap then unifyTerms? depth b t s else unifyTerms? depth b s t := by
  rcases Term.eq_const_or_eq_app hs with ⟨c, rfl⟩ | ⟨f, ss, rfl⟩ <;>
    rcases Term.eq_const_or_eq_app ht with ⟨d, rfl⟩ | ⟨g, ts, rfl⟩ <;> rfl

theorem unifyResolved?_var_right {b : Bindings} {swap : Bool} {depth : Nat} {s : Term}
    (hs : s.isVariable = false) (w : Variable) :
    unifyResolved? swap depth b s (.var w) = eliminate? depth b w s := by
  rcases Term.eq_const_or_eq_app hs with ⟨c, rfl⟩ | ⟨f, ss, rfl⟩ <;> rfl

theorem unifyResolved?_swap {b : Bindings} {depth : Nat} {s : Term} (hs : s.isVariable = false)
    (t : Term) : unifyResolved? true depth b s t = unifyResolved? false depth b t s := by
  rcases t.eq_var_or_not_variable with ⟨w, rfl⟩ | ht
  · have hne : s ≠ .var w := Term.isVariable_eq_false_iff.1 hs w
    rw [unifyResolved?_var_right hs, unifyResolved?, if_neg hne]
  · rw [unifyResolved?_of_not_variable hs ht, unifyResolved?_of_not_variable ht hs]
    rfl

/-- An unbound variable meets the resolved form of the other side. -/
theorem unifyVariable?_of_unbound {v : Variable} (hv : σ.lookup? v = none) {swap : Bool} {t : Term}
    (h : Ends (unifyResolved? swap · σ.bindings (.var v) (σ.resolve t)) r) :
    Ends (unifyVariable? · σ.bindings v t) r := by
  have hterm {t : Term} (ht : t.isVariable = false)
      (h : Ends (unifyResolved? swap · σ.bindings (.var v) t) r) :
      Ends (unifyVariable? · σ.bindings v t) r := by
    have hne := Term.isVariable_eq_false_iff.1 ht
    simp only [unifyResolved?, if_neg (hne v)] at h
    exact unifyVariable?_eliminate (hne v) hv (fun w hw => absurd hw (hne w)) h
  have hvar (w : Variable)
      (h : Ends (unifyResolved? swap · σ.bindings (.var v) (σ.resolveVariable w)) r) :
      Ends (unifyVariable? · σ.bindings v (.var w)) r := by
    induction w using σ.bound_induction with
    | unbound w hw =>
      rw [Substitution.resolveVariable_of_unbound hw] at h
      by_cases hwv : Term.var w = .var v
      · simp only [unifyResolved?, if_pos hwv] at h
        have hr : .ok σ.bindings = r := (Ends.const _).unique h
        rw [hwv, ← hr]
        exact unifyVariable?_self σ.bindings v
      · simp only [unifyResolved?, if_neg hwv] at h
        exact unifyVariable?_eliminate hwv hv (fun u hu => Term.var.inj hu ▸ hw) h
    | bound w t ht ih =>
      have hwv : w ≠ v := by
        intro heq
        rw [heq, hv] at ht
        cases ht
      rw [Substitution.resolveVariable_of_lookup? ht] at h
      apply unifyVariable?_follow hwv hv ht
      rcases t.eq_var_or_not_variable with ⟨u, rfl⟩ | hs
      · exact ih u (Term.mem_var.2 rfl) h
      · rw [Substitution.resolve_of_not_variable hs] at h
        exact hterm hs h
  rcases t.eq_var_or_not_variable with ⟨w, rfl⟩ | ht
  · exact hvar w h
  · rw [Substitution.resolve_of_not_variable ht] at h
    exact hterm ht h

theorem unifyVariable?_of_not_variable {t : Term} (ht : t.isVariable = false) {v : Variable}
    (h : Ends (unifyResolved? false · σ.bindings (σ.resolveVariable v) t) r) :
    Ends (unifyVariable? · σ.bindings v t) r := by
  induction v using σ.bound_induction with
  | unbound v hv =>
    apply unifyVariable?_of_unbound hv
    rwa [Substitution.resolve_of_not_variable ht, ← Substitution.resolveVariable_of_unbound hv]
  | bound v s hs ih =>
    rw [Substitution.resolveVariable_of_lookup? hs] at h
    apply unifyVariable?_bound (Term.isVariable_eq_false_iff.1 ht v) hs
    rcases s.eq_var_or_not_variable with ⟨u, rfl⟩ | hs'
    · exact unifyTerms?_var_left (ih u (Term.mem_var.2 rfl) h)
    · simpa only [Substitution.resolve_of_not_variable hs', unifyResolved?_of_not_variable hs' ht,
        Bool.false_eq_true, if_false] using h

theorem unifyTerms?_of_not_variable {s t : Term} (hs : s.isVariable = false)
    (h : Ends (unifyResolved? t.isVariable · σ.bindings (σ.resolve s) (σ.resolve t)) r) :
    Ends (unifyTerms? · σ.bindings s t) r := by
  rw [Substitution.resolve_of_not_variable hs] at h
  rcases t.eq_var_or_not_variable with ⟨w, rfl⟩ | ht
  · apply unifyTerms?_var_right hs
    apply unifyVariable?_of_not_variable hs
    have hswap : (Term.var w).isVariable = true := rfl
    rw [hswap] at h
    simp only [unifyResolved?_swap hs] at h
    exact h
  · simpa only [ht, Substitution.resolve_of_not_variable ht, unifyResolved?_of_not_variable hs ht,
      Bool.false_eq_true, if_false] using h

/-- Unification of two terms comes down to the resolved terms, unless it meets
one variable on both sides on the way. -/
theorem unifyTerms?_resolve {s t : Term}
    (h : Ends (unifyResolved? t.isVariable · σ.bindings (σ.resolve s) (σ.resolve t)) r) :
    (σ.resolve s = σ.resolve t ∧ Ends (unifyTerms? · σ.bindings s t) (.ok σ.bindings)) ∨
      Ends (unifyTerms? · σ.bindings s t) r := by
  rcases s.eq_var_or_not_variable with ⟨v, rfl⟩ | hs
  · induction v using σ.bound_induction with
    | unbound v hv =>
      right
      apply unifyTerms?_var_left
      apply unifyVariable?_of_unbound hv
      rwa [← Substitution.resolveVariable_of_unbound hv]
    | bound v s hs ih =>
      by_cases htv : t = .var v
      · left
        rw [htv]
        exact ⟨rfl, unifyTerms?_var_left (unifyVariable?_self σ.bindings v)⟩
      · have hv : σ.resolve (.var v) = σ.resolve s := Substitution.resolveVariable_of_lookup? hs
        rw [hv] at h ⊢
        have hcall {r : Except UnificationError Bindings}
            (h : Ends (unifyTerms? · σ.bindings s t) r) :
            Ends (unifyTerms? · σ.bindings (.var v) t) r :=
          unifyTerms?_var_left (unifyVariable?_bound htv hs h)
        rcases s.eq_var_or_not_variable with ⟨u, rfl⟩ | hs'
        · rcases ih u (Term.mem_var.2 rfl) h with ⟨heq, hmet⟩ | hends
          · exact .inl ⟨heq, hcall hmet⟩
          · exact .inr (hcall hends)
        · exact .inr (hcall (unifyTerms?_of_not_variable hs' h))
  · exact .inr (unifyTerms?_of_not_variable hs h)

/-- Two terms that are no variables give way to the equations between their parts. -/
theorem unifyTerms?_decompose {b : Bindings} {s t : Term} (hs : s.isVariable = false)
    (ht : t.isVariable = false) (depth : Nat) :
    unifyTerms? (depth + 1) b s t =
      match Equation.decompose s t with
      | .error cause => some (.error cause)
      | .ok es => unifyArgs? depth b es := by
  rcases Term.eq_const_or_eq_app hs with ⟨c, rfl⟩ | ⟨f, ss, rfl⟩ <;>
    rcases Term.eq_const_or_eq_app ht with ⟨d, rfl⟩ | ⟨g, ts, rfl⟩
  · rw [unifyTerms?, Equation.decompose]
    by_cases hc : c = d
    · rw [if_pos hc, if_pos hc]
      rfl
    · rw [if_neg hc, if_neg hc]
  · rfl
  · rfl
  · rw [unifyTerms?, Equation.decompose]
    by_cases hf : f = g
    · by_cases hlen : ss.length = ts.length
      · simp only [hf, hlen, ne_eq, not_true_eq_false, if_false, unifyArgs?]
      · simp only [hf, hlen, ne_eq, not_true_eq_false, not_false_eq_true, if_false, if_true]
    · simp only [hf, ne_eq, not_false_eq_true, if_true]

theorem unifyArgs?_of_forall {b : Bindings} {es : List Equation}
    (h : ∀ e ∈ es, Ends (unifyTerms? · b e.1 e.2) (.ok b)) : Ends (unifyArgs? · b es) (.ok b) := by
  induction es with
  | nil => exact .const _
  | cons e es ih =>
    obtain ⟨he, hes⟩ := List.forall_mem_cons.1 h
    filter_upwards [he, ih hes] with depth hdepth hdepths
    rw [unifyArgs?, thread_cons, hdepth]
    exact hdepths

/-! ## Equal sides

`reduce` lets two sides go when they resolve to one term.  Unchecked work takes
that term apart and finds nothing to do at its leaves. -/

theorem unifyTerms?_of_parts {s t : Term} (hs : s.isVariable = false) (ht : t.isVariable = false)
    (heq : s.replace σ = t.replace σ)
    (hparts : ∀ s' t' : Term, s'.replace σ = t'.replace σ →
      (s'.replace σ).size < (s.replace σ).size →
      Ends (unifyTerms? · σ.bindings s' t') (.ok σ.bindings)) :
    Ends (unifyTerms? · σ.bindings s t) (.ok σ.bindings) := by
  cases hd : Equation.decompose s t with
  | error cause => exact absurd heq (Equation.subst_ne_of_decompose_eq_error hd hs ht σ.value)
  | ok es =>
    have hes : Ends (unifyArgs? · σ.bindings es) (.ok σ.bindings) := by
      refine unifyArgs?_of_forall fun e he => ?_
      have hsolved : e.1.replace σ = e.2.replace σ :=
        (Equation.solvedBy_decompose hd σ.value).2 heq e he
      refine hparts e.1 e.2 hsolved ?_
      rcases Equation.decompose_eq_ok hd with ⟨c, rfl, rfl, rfl⟩ | ⟨f, ss, ts, rfl, rfl, -, rfl⟩
      · cases he
      · exact Term.size_subst_lt_of_mem (List.of_mem_zip he).1 f σ.value
    exact .of_call (fun depth => by rw [unifyTerms?_decompose hs ht, hd]) hes

theorem unifyTerms?_of_replace_eq {s t : Term} (h : s.replace σ = t.replace σ) :
    Ends (unifyTerms? · σ.bindings s t) (.ok σ.bindings) := by
  induction hn : (s.replace σ).size using Nat.strong_induction_on generalizing s t with
  | h n ih =>
    have hresolved : Ends (unifyResolved? t.isVariable · σ.bindings (σ.resolve s) (σ.resolve t))
        (.ok σ.bindings) := by
      rcases (σ.resolve s).eq_var_or_not_variable with ⟨v, hv⟩ | hs
      · have ht : σ.resolve t = .var v := by
          rw [Substitution.resolve_eq_var_iff, ← h, ← Substitution.resolve_eq_var_iff, hv]
        simp only [hv, ht, unifyResolved?, if_true]
        exact .const _
      · have ht : (σ.resolve t).isVariable = false := by
          rw [Term.isVariable_eq_false_iff] at hs ⊢
          intro v hv
          rw [Substitution.resolve_eq_var_iff, ← h, ← Substitution.resolve_eq_var_iff] at hv
          exact hs v hv
        have hl : (σ.resolve s).replace σ = s.replace σ := Term.replace_resolve s
        have hr : (σ.resolve t).replace σ = s.replace σ := by rw [Term.replace_resolve, h]
        simp only [unifyResolved?_of_not_variable hs ht]
        by_cases hswap : t.isVariable = true
        · simp only [if_pos hswap]
          refine unifyTerms?_of_parts ht hs (hr.trans hl.symm) fun s' t' heq hlt => ?_
          rw [hr, hn] at hlt
          exact ih _ hlt heq rfl
        · simp only [if_neg hswap]
          refine unifyTerms?_of_parts hs ht (hl.trans hr.symm) fun s' t' heq hlt => ?_
          rw [hl, hn] at hlt
          exact ih _ hlt heq rfl
    rcases unifyTerms?_resolve hresolved with ⟨-, hmet⟩ | hends
    · exact hmet
    · exact hends

/-! ## The run -/

/-- The work that `reduce` leaves. -/
def unifyReduced? (depth : Nat) :
    Except UnificationError (Substitution × List Equation) → Attempt
  | .error cause => some (.error cause)
  | .ok (τ, es) => unifyArgs? depth τ.bindings es

/-- One equation gives way to those that `reduce` leaves. -/
theorem unifyTerms?_of_reduce {e : Equation} (h : Ends (unifyReduced? · (σ.reduce e)) r) :
    Ends (unifyTerms? · σ.bindings e.1 e.2) r := by
  have heliminate {v : Variable} {t : Term} (hv : σ.lookup? v = none)
      (h : Ends (unifyReduced? · ((σ.eliminate v t).map (·, []))) r) :
      Ends (eliminate? · σ.bindings v t) r := by
    filter_upwards [h, eliminate?_bindings hv t] with depth hdepth hends
    rw [hends, ← hdepth]
    cases σ.eliminate v t <;> rfl
  have hdecompose {s t : Term} (hs : s.isVariable = false) (ht : t.isVariable = false)
      (h : Ends (unifyReduced? · ((Equation.decompose s t).map (σ, ·))) r) :
      Ends (unifyTerms? · σ.bindings s t) r := by
    refine .of_call (fun depth => ?_) h
    rw [unifyTerms?_decompose hs ht]
    cases Equation.decompose s t <;> rfl
  by_cases heq : σ.resolve e.1 = σ.resolve e.2
  · have hreplace : e.1.replace σ = e.2.replace σ := by
      rw [← Term.replace_resolve e.1, heq, Term.replace_resolve]
    rw [Substitution.reduce_of_resolve_eq heq] at h
    have hr : .ok σ.bindings = r := (Ends.const _).unique h
    rw [← hr]
    exact unifyTerms?_of_replace_eq hreplace
  have hresolved : Ends (unifyResolved? e.2.isVariable · σ.bindings (σ.resolve e.1)
      (σ.resolve e.2)) r := by
    rcases (σ.resolve e.1).eq_var_or_not_variable with ⟨v, hl⟩ | hl
    · have hne : σ.resolve e.2 ≠ .var v := fun hr => heq (hl.trans hr.symm)
      rw [Substitution.reduce_of_var_left heq hl] at h
      simp only [hl, unifyResolved?, if_neg hne]
      exact heliminate (Term.unbound_of_resolve_eq_var hl) h
    rcases (σ.resolve e.2).eq_var_or_not_variable with ⟨w, hr⟩ | hr
    · rw [Substitution.reduce_of_var_right hl hr] at h
      simp only [hr, unifyResolved?_var_right hl]
      exact heliminate (Term.unbound_of_resolve_eq_var hr) h
    · rw [Substitution.reduce_of_not_variable heq hl hr] at h
      simp only [unifyResolved?_of_not_variable hl hr]
      by_cases hswap : e.2.isVariable = true
      · rw [if_pos hswap] at h
        simp only [if_pos hswap]
        exact hdecompose hr hl h
      · rw [if_neg hswap] at h
        simp only [if_neg hswap]
        exact hdecompose hl hr h
  rcases unifyTerms?_resolve hresolved with ⟨hmet, -⟩ | hends
  · exact absurd hmet heq
  · exact hends

/-- Work on equations ends, with what `solve` returns, and so does the work on
the first of them. -/
theorem unifyArgs?_of_prefix {es all : List Equation} (h : es <+: all) :
    Ends (unifyArgs? · σ.bindings es) ((σ.solve es).map Substitution.bindings) := by
  -- `solve` puts what is left of an equation before the others.  Unchecked work
  -- does it in a run of its own, so that has to be known to end as well.
  fun_induction Substitution.solve σ all generalizing es with
  | case1 σ =>
    rw [List.prefix_nil.1 h, Substitution.solve_nil]
    exact .const _
  | case2 σ e rest cause hred =>
    rcases List.prefix_cons_iff.1 h with rfl | ⟨es', rfl, -⟩
    · rw [Substitution.solve_nil]
      exact .const _
    · have he : Ends (unifyTerms? · σ.bindings e.1 e.2) (.error cause) := by
        apply unifyTerms?_of_reduce
        rw [hred]
        exact .const _
      rw [Substitution.solve_cons, hred]
      filter_upwards [he] with depth hdepth
      rw [unifyArgs?, thread_cons, hdepth]
      rfl
  | case3 σ e rest τ parts hred ih =>
    rcases List.prefix_cons_iff.1 h with rfl | ⟨es', rfl, hes⟩
    · rw [Substitution.solve_nil]
      exact .const _
    · have hparts := ih (List.prefix_append parts rest)
      have hall := ih ((List.prefix_append_right_inj parts).2 hes)
      have he : Ends (unifyTerms? · σ.bindings e.1 e.2)
          ((τ.solve parts).map Substitution.bindings) := by
        apply unifyTerms?_of_reduce
        rw [hred]
        exact hparts
      rw [Substitution.solve_cons, hred]
      filter_upwards [he, hparts, hall] with depth hdepth hdepths hrun
      rw [unifyArgs?] at hdepths hrun ⊢
      rw [thread_append, hdepths] at hrun
      rw [thread_cons, hdepth]
      exact hrun

theorem unifyArgs?_bindings (σ : Substitution) (es : List Equation) :
    Ends (unifyArgs? · σ.bindings es) ((σ.solve es).map Substitution.bindings) :=
  unifyArgs?_of_prefix (List.prefix_refl es)

theorem unifyTerms?_bindings (σ : Substitution) (s t : Term) :
    Ends (unifyTerms? · σ.bindings s t) ((s.unify σ t).map Substitution.bindings) := by
  rw [Term.unify]
  filter_upwards [unifyArgs?_bindings σ [(s, t)]] with depth hdepth
  rw [← hdepth, unifyArgs?, thread_cons]
  cases unifyTerms? depth σ.bindings s t with
  | none => rfl
  | some r => cases r <;> rfl

theorem unifyAll_eq_foldlM (σ : Substitution) (fs gs : List Formula) :
    Formula.unifyAll σ fs gs = (fs.zip gs).foldlM (fun σ fg => fg.1.unify σ fg.2) σ := by
  induction fs generalizing σ gs with
  | nil => cases gs <;> rfl
  | cons f fs ih =>
    cases gs with
    | nil => rfl
    | cons g gs =>
      rw [Formula.unifyAll, List.zip_cons_cons, List.foldlM_cons]
      cases f.unify σ g with
      | error cause => rfl
      | ok τ => exact ih τ gs

theorem unifyFormulas?_of_clash {f g : Formula} {cause : UnificationError}
    (h : Formula.Clash f g cause) (depth : Nat) (b : Bindings) :
    unifyFormulas? (depth + 1) b f g = some (.error cause) := by
  cases h with
  | symbols hp => rw [unifyFormulas?, if_pos hp]
  | arguments hlen => rw [unifyFormulas?, if_neg (not_not_intro rfl), if_pos hlen]
  | connectives hk => rw [unifyFormulas?, if_pos hk]
  | operands hlen => rw [unifyFormulas?, if_neg (not_not_intro rfl), if_pos hlen]
  | predicateOperator => rw [unifyFormulas?]
  | operatorPredicate => rw [unifyFormulas?]

theorem unifyFormulas?_bindings (σ : Substitution) (f g : Formula) :
    Ends (unifyFormulas? · σ.bindings f g) ((f.unify σ g).map Substitution.bindings) := by
  induction f, g using Formula.pair_induction generalizing σ with
  | clash f g cause h =>
    rw [Formula.unify_of_clash h]
    exact .of_answer fun depth => unifyFormulas?_of_clash h depth σ.bindings
  | predicates p ss ts a b hlen =>
    rw [Formula.unify_predicates hlen]
    refine .of_call (fun _ => ?_) (unifyArgs?_bindings σ (ss.zip ts))
    rw [unifyFormulas?, if_neg (not_not_intro rfl), if_neg (not_not_intro hlen)]
  | operators k fs gs a b h =>
    rw [Formula.unify_operators h.length_eq, unifyAll_eq_foldlM]
    have hoperands (fg : Formula × Formula) (hfg : fg ∈ fs.zip gs) (σ : Substitution) :
        Ends (unifyFormulas? · σ.bindings fg.1 fg.2)
          ((fg.1.unify σ fg.2).map Substitution.bindings) :=
      (List.forall₂_iff_zip.1 h).2 hfg σ
    refine .of_call (fun _ => ?_) (ends_thread
      (fun depth b (fg : Formula × Formula) => unifyFormulas? depth b fg.1 fg.2)
      (fun σ fg => fg.1.unify σ fg.2) hoperands σ)
    rw [unifyFormulas?, if_neg (not_not_intro rfl), if_neg (not_not_intro h.length_eq)]

theorem unify?_bindings (σ : Substitution) (p : Pair) :
    Ends (unify? · σ.bindings p) ((p.unify σ).map Substitution.bindings) := by
  cases p with
  | terms s t => exact unifyTerms?_bindings σ s t
  | formulas f g => exact unifyFormulas?_bindings σ f g

/-- What a run on concrete bindings returns settles what unification does. -/
theorem exists_unify_of_ends {p : Pair} {b : Bindings} (h : Ends (unify? · σ.bindings p) (.ok b)) :
    ∃ τ, p.unify σ = .ok τ ∧ τ.bindings = b :=
  (unify?_bindings σ p).exists_eq_ok h

theorem unify_eq_error_of_ends {p : Pair} {cause : UnificationError}
    (h : Ends (unify? · σ.bindings p) (.error cause)) : p.unify σ = .error cause :=
  (unify?_bindings σ p).eq_error h

end Bindings
end Unification
