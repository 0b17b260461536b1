import Unification.Proofs.Unchecked.Reachable

/-!
# Where work on bindings ends

Replacement ends at a term exactly when no endless path starts at one of its
variables (`replace?_ends_iff`), so on bindings with a cycle there are terms that
it never finishes.  `Reachable.runs_end` is the other side: on what unchecked
work arrives at every operation ends, with the answer of the operation on
substitutions.
-/

namespace Unification
namespace Bindings

variable {b : Bindings} {v : Variable} {t u : Term}

theorem acc_of_bound (hv : b.lookup? v = some t) (ht : ∀ w ∈ t, Acc b.Depends w) :
    Acc b.Depends v := by
  refine ⟨v, fun w hw => ?_⟩
  obtain ⟨s, hs, hmem⟩ := hw
  cases hs.symm.trans hv
  exact ht w hmem

theorem exists_of_mapM_eq_some {α β : Type} {f : α → Option β} {xs : List α} {ys : List β}
    (h : xs.mapM f = some ys) : ∀ x ∈ xs, ∃ y, f x = some y := by
  induction xs generalizing ys with
  | nil => exact fun x hx => absurd hx List.not_mem_nil
  | cons x xs ih =>
    rw [List.mapM_cons] at h
    obtain ⟨y, hy, hrest⟩ := Option.bind_eq_some_iff.1 h
    obtain ⟨ys, hys, -⟩ := Option.bind_eq_some_iff.1 hrest
    exact List.forall_mem_cons.2 ⟨⟨y, hy⟩, ih hys⟩

/-- What replacement has finished has no endless path below it. -/
theorem acc_of_replace?_eq_some {depth : Nat} (h : b.replace? depth t = some u) :
    ∀ w ∈ t, Acc b.Depends w := by
  induction depth generalizing t u with
  | zero =>
    rw [replace?] at h
    cases h
  | succ depth ih =>
    intro w hw
    cases t with
    | var v =>
      rw [Term.mem_var.1 hw]
      rw [replace?] at h
      cases hv : b.lookup? v with
      | none => exact acc_of_unbound hv
      | some s =>
        rw [hv] at h
        exact acc_of_bound hv (ih h)
    | const c => exact absurd hw Term.not_mem_const
    | app f args =>
      rw [replace?] at h
      obtain ⟨us, hargs, -⟩ := Option.map_eq_some_iff.1 h
      obtain ⟨t, ht, hwt⟩ := Term.mem_app.1 hw
      obtain ⟨u, hu⟩ := exists_of_mapM_eq_some hargs t ht
      exact ih hu w hwt

theorem replace?_ends_of_vars (h : ∀ w ∈ t, ∃ u, Ends (b.replace? · (.var w)) u) :
    ∃ u, Ends (b.replace? · t) u := by
  have hvars (w : Variable) : ∃ u, w ∈ t → Ends (b.replace? · (.var w)) u := by
    by_cases hw : w ∈ t
    · obtain ⟨u, hu⟩ := h w hw
      exact ⟨u, fun _ => hu⟩
    · exact ⟨.var w, fun hmem => absurd hmem hw⟩
  choose θ hθ using hvars
  exact ⟨t.subst θ, replace?_of_vars hθ⟩

theorem replace?_ends_of_acc (h : Acc b.Depends v) : ∃ u, Ends (b.replace? · (.var v)) u := by
  induction h with
  | intro v _ ih =>
    cases hv : b.lookup? v with
    | none => exact ⟨.var v, replace?_unbound hv⟩
    | some t =>
      obtain ⟨u, hu⟩ := replace?_ends_of_vars fun w hw => ih w ⟨t, hv, hw⟩
      exact ⟨u, replace?_bound hv hu⟩

theorem replace?_ends_iff : (∃ u, Ends (b.replace? · t) u) ↔ ∀ w ∈ t, Acc b.Depends w := by
  constructor
  · rintro ⟨u, hu⟩
    obtain ⟨depth, hdepth⟩ := hu.exists
    exact acc_of_replace?_eq_some hdepth
  · intro h
    exact replace?_ends_of_vars fun w hw => replace?_ends_of_acc (h w hw)

/-- Replacement ends on every term exactly when no variable comes back to itself. -/
theorem replace?_ends_everywhere_iff (hb : b.keys.Nodup) :
    (∀ t, ∃ u, Ends (b.replace? · t) u) ↔ b.Acyclic := by
  constructor
  · intro h
    refine acyclic_of_wellFounded ⟨fun v => ?_⟩
    exact replace?_ends_iff.1 (h (.var v)) v (Term.mem_var.2 rfl)
  · intro hc t
    obtain ⟨σ, -, rfl⟩ := Substitution.ofBindings_of_acyclic hb hc
    exact ⟨t.replace σ, replace?_bindings σ t⟩

/-- On reachable bindings every run ends, with the answer on the substitution
that has these bindings. -/
theorem Reachable.runs_end (h : Reachable b) :
    ∃ σ : Substitution, σ.bindings = b ∧
      (∀ t, Ends (b.resolve? · t) (σ.resolve t)) ∧
      (∀ v t, Ends (b.reaches? v · t) (σ.reaches v t)) ∧
      (∀ t, Ends (b.replace? · t) (t.replace σ)) ∧
      (∀ f, Ends (b.replaceFormula? · f) (f.replace σ)) ∧
      ∀ p, Ends (unify? · b p) ((p.unify σ).map Substitution.bindings) := by
  obtain ⟨σ, rfl⟩ := h.exists_substitution
  exact ⟨σ, rfl, resolve?_bindings σ, reaches?_bindings σ, replace?_bindings σ,
    replaceFormula?_bindings σ, unify?_bindings σ⟩

theorem Reachable.runs_end_atoms :
    let b : Bindings := [(Sample.x, .app Sample.f [.var Sample.z])]
    Ends (unify? · [] Sample.atoms) (.ok b) ∧
      ∃ σ : Substitution, σ.bindings = b ∧
        (∀ t, Ends (b.resolve? · t) (σ.resolve t)) ∧
        (∀ v t, Ends (b.reaches? v · t) (σ.reaches v t)) ∧
        (∀ t, Ends (b.replace? · t) (t.replace σ)) ∧
        (∀ f, Ends (b.replaceFormula? · f) (f.replace σ)) ∧
        ∀ p, Ends (unify? · b p) ((p.unify σ).map Substitution.bindings) := by
  intro b
  have hrun : Ends (unify? · [] Sample.atoms) (.ok b) := .of_depth 6 fun _ => rfl
  exact ⟨hrun, (Reachable.empty.unify hrun).runs_end⟩

end Bindings
end Unification
