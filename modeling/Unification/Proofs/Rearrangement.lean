import Mathlib.Data.List.OfFn
import Mathlib.Logic.Equiv.Defs
import Unification.Proofs.Unchecked.Unifying

/-!
# Order and orientation

Pairs of expressions can be unified one after the other, each on top of what the ones
before have come to.  Which side leads, which variable is bound and which chains of
bindings arise all depend on the order of the pairs and of their sides.  Whether it
can be done does not, nor does what the result replaces, up to an exchange of
variables (`unifyAll_rearranged`).

The reason is that an outcome is settled by the common solutions alone: a success has
exactly these, and a failure means that there are none (`Settles`).  Solutions have
no order.
-/

namespace Unification

namespace Substitution

/-- One map turns whatever `σ` replaces into what `τ` replaces. -/
def Generalizes (σ τ : Substitution) : Prop :=
  ∃ δ : Variable → Term, ∀ t : Term, (t.replace σ).subst δ = t.replace τ

theorem SolvedBy.generalizes {σ τ : Substitution} (h : σ.SolvedBy τ.value) : σ.Generalizes τ :=
  ⟨τ.value, h.subst_replace⟩

end Substitution

/-- The outcome is a substitution that exactly the maps in `S` solve, or there is no
such map and the outcome is a failure. -/
def Settles (S : (Variable → Term) → Prop) : Except UnificationError Substitution → Prop
  | .ok τ => ∀ θ, τ.SolvedBy θ ↔ S θ
  | .error _ => ∀ θ, ¬S θ

namespace Settles

variable {S T : (Variable → Term) → Prop} {a b : Except UnificationError Substitution}

theorem exists_ok_iff (h : Settles S a) : (∃ τ, a = .ok τ) ↔ ∃ θ, S θ := by
  cases a with
  | error cause => exact iff_of_false nofun fun ⟨θ, hθ⟩ => h θ hθ
  | ok τ => exact iff_of_true ⟨τ, rfl⟩ ⟨τ.value, (h τ.value).1 τ.solvedBy_value⟩

theorem ok_iff_ok (ha : Settles S a) (hb : Settles T b) (h : ∀ θ, S θ ↔ T θ) :
    (∃ τ, a = .ok τ) ↔ ∃ τ, b = .ok τ := by
  rw [ha.exists_ok_iff, hb.exists_ok_iff, exists_congr h]

theorem generalizes {σ τ : Substitution} (ha : Settles S (.ok σ)) (hb : Settles T (.ok τ))
    (h : ∀ θ, S θ ↔ T θ) : σ.Generalizes τ := by
  have hsolved : S τ.value := (h τ.value).2 ((hb τ.value).1 τ.solvedBy_value)
  exact ((ha τ.value).2 hsolved).generalizes

end Settles

namespace Pair

variable {σ τ : Substitution} {θ : Variable → Term} {p q : Pair} {ps qs : List Pair}

/-- The same two expressions with their places exchanged. -/
def swap : Pair → Pair
  | terms s t => terms t s
  | formulas f g => formulas g f

/-- Unifies pairs from left to right, each on top of what the ones before have come to. -/
def unifyAll (σ : Substitution) (ps : List Pair) : Except UnificationError Substitution :=
  ps.foldlM (fun σ p => p.unify σ) σ

/-- `qs` has the pairs of `ps` in some order, each as it was or swapped. -/
def Rearranged (ps qs : List Pair) : Prop :=
  ∃ rs, ps.Perm rs ∧ List.Forall₂ (fun p q => q = p ∨ q = p.swap) rs qs

theorem agree_swap_subst (p : Pair) (θ : Variable → Term) :
    (p.swap.subst θ).Agree ↔ (p.subst θ).Agree := by
  cases p with
  | terms s t => exact eq_comm
  | formulas f g => exact ⟨Setoid.symm, Setoid.symm⟩

theorem unifyAll_nil (σ : Substitution) : unifyAll σ [] = .ok σ := rfl

theorem unifyAll_cons (σ : Substitution) (p : Pair) (ps : List Pair) :
    unifyAll σ (p :: ps) = (p.unify σ).bind fun τ => unifyAll τ ps := List.foldlM_cons

/-! ## What settles an outcome -/

theorem settles_unify (σ : Substitution) (p : Pair) :
    Settles (fun θ => σ.SolvedBy θ ∧ (p.subst θ).Agree) (p.unify σ) := by
  cases h : p.unify σ with
  | ok τ => exact unify_solvedBy h
  | error cause =>
    intro θ hθ
    obtain ⟨τ, hτ⟩ := exists_unify_eq_ok hθ.1 hθ.2
    rw [h] at hτ
    cases hτ

theorem settles_unifyAll (σ : Substitution) (ps : List Pair) :
    Settles (fun θ => σ.SolvedBy θ ∧ ∀ p ∈ ps, (p.subst θ).Agree) (unifyAll σ ps) := by
  induction ps generalizing σ with
  | nil => exact fun θ => (and_iff_left fun p hp => absurd hp List.not_mem_nil).symm
  | cons p ps ih =>
    have hfirst := settles_unify σ p
    rw [unifyAll_cons]
    simp only [List.forall_mem_cons]
    cases hp : p.unify σ with
    | error cause =>
      rw [hp] at hfirst
      exact fun θ hθ => hfirst θ ⟨hθ.1, hθ.2.1⟩
    | ok τ =>
      rw [hp] at hfirst
      have hsame (θ : Variable → Term) :
          (τ.SolvedBy θ ∧ ∀ p ∈ ps, (p.subst θ).Agree) ↔
            σ.SolvedBy θ ∧ (p.subst θ).Agree ∧ ∀ p ∈ ps, (p.subst θ).Agree := by
        rw [hfirst θ, and_assoc]
      simp only [← hsame]
      exact ih τ

theorem forall_agree_of_rearranged (h : Rearranged ps qs) (θ : Variable → Term) :
    (∀ p ∈ ps, (p.subst θ).Agree) ↔ ∀ q ∈ qs, (q.subst θ).Agree := by
  obtain ⟨rs, hperm, hswapped⟩ := h
  have horder : (∀ p ∈ ps, (p.subst θ).Agree) ↔ ∀ r ∈ rs, (r.subst θ).Agree :=
    forall_congr' fun p => imp_congr_left hperm.mem_iff
  apply horder.trans
  clear horder hperm
  induction hswapped with
  | nil => exact Iff.rfl
  | cons hq _ ih =>
    simp only [List.forall_mem_cons]
    apply and_congr _ ih
    rcases hq with rfl | rfl
    · exact Iff.rfl
    · exact (agree_swap_subst _ θ).symm

/-- Lists agree place by place wherever their places have been moved to. -/
theorem map_ofFn_comp_perm_iff {n : Nat} (π : Equiv.Perm (Fin n)) (s t : Fin n → Term)
    (g : Term → Term) :
    (List.ofFn (s ∘ π)).map g = (List.ofFn (t ∘ π)).map g ↔
      (List.ofFn s).map g = (List.ofFn t).map g := by
  rw [List.map_ofFn, List.map_ofFn, List.map_ofFn, List.map_ofFn, List.ofFn_inj, List.ofFn_inj,
    funext_iff, funext_iff]
  exact π.forall_congr_right (q := fun i => (g ∘ s) i = (g ∘ t) i)

/-- What runs on concrete bindings return settles what comes of two pairs. -/
theorem exists_unifyAll_two {b c : Bindings} (hp : Ends (Bindings.unify? · σ.bindings p) (.ok b))
    (hq : Ends (Bindings.unify? · b q) (.ok c)) :
    ∃ τ, unifyAll σ [p, q] = .ok τ ∧ τ.bindings = c := by
  obtain ⟨σ', hσ', rfl⟩ := Bindings.exists_unify_of_ends hp
  obtain ⟨τ, hτ, hbindings⟩ := Bindings.exists_unify_of_ends hq
  refine ⟨τ, ?_, hbindings⟩
  rw [unifyAll_cons, hσ', Except.bind, unifyAll_cons, hτ, Except.bind, unifyAll_nil]

/-- Neither the order of the pairs nor which side of a pair comes first decides whether
they can be unified, and the results are instances of each other.  So a pair can be
unified exactly when it can be the other way round, and when the arguments of both
sides are moved about in the same way. -/
theorem unifyAll_rearranged (σ : Substitution) :
    (∀ ps qs, Rearranged ps qs →
      ((∃ τ, unifyAll σ ps = .ok τ) ↔ ∃ τ, unifyAll σ qs = .ok τ) ∧
      ∀ τ τ', unifyAll σ ps = .ok τ → unifyAll σ qs = .ok τ' →
        τ.Generalizes τ' ∧ τ'.Generalizes τ) ∧
    (∀ p : Pair, (∃ τ, p.unify σ = .ok τ) ↔ ∃ τ, p.swap.unify σ = .ok τ) ∧
    ∀ (n : Nat) (π : Equiv.Perm (Fin n)) (f g : Symbol) (s t : Fin n → Term),
      ((∃ τ, (terms (.app f (.ofFn s)) (.app g (.ofFn t))).unify σ = .ok τ) ↔
        ∃ τ, (terms (.app f (.ofFn (s ∘ π))) (.app g (.ofFn (t ∘ π)))).unify σ = .ok τ) ∧
      ∀ a b : TruthValue,
        (∃ τ, (formulas (.predicate f (.ofFn s) a) (.predicate g (.ofFn t) b)).unify σ = .ok τ) ↔
        ∃ τ, (formulas (.predicate f (.ofFn (s ∘ π)) a)
          (.predicate g (.ofFn (t ∘ π)) b)).unify σ = .ok τ := by
  have hunify {p q : Pair} (h : ∀ θ, (p.subst θ).Agree ↔ (q.subst θ).Agree) :
      (∃ τ, p.unify σ = .ok τ) ↔ ∃ τ, q.unify σ = .ok τ :=
    (settles_unify σ p).ok_iff_ok (settles_unify σ q) fun θ => and_congr_right fun _ => h θ
  refine ⟨fun ps qs h => ⟨?_, fun τ τ' hτ hτ' => ?_⟩, fun p => ?_, fun n π f g s t => ⟨?_, ?_⟩⟩
  · apply (settles_unifyAll σ ps).ok_iff_ok (settles_unifyAll σ qs)
    exact fun θ => and_congr_right fun _ => forall_agree_of_rearranged h θ
  · have hps := settles_unifyAll σ ps
    have hqs := settles_unifyAll σ qs
    rw [hτ] at hps
    rw [hτ'] at hqs
    have hsame := fun θ =>
      and_congr_right (a := σ.SolvedBy θ) fun _ => forall_agree_of_rearranged h θ
    exact ⟨hps.generalizes hqs hsame, hqs.generalizes hps fun θ => (hsame θ).symm⟩
  · exact hunify fun θ => (agree_swap_subst p θ).symm
  · refine hunify fun θ => ?_
    simp only [subst, Agree, Term.subst_app, Term.app.injEq, map_ofFn_comp_perm_iff]
  · intro a b
    refine hunify fun θ => ?_
    simp only [subst, Agree, Formula.subst_predicate, Formula.predicate_equiv_predicate,
      map_ofFn_comp_perm_iff]

/-- In one order `X` is bound to `Y` and `Y` to `f(Z)`, in the other one both to `f(Z)`. -/
theorem unifyAll_rearranged_two :
    let p : Pair := .terms (.var Sample.x) (.var Sample.y)
    let t : Term := .app Sample.f [.var Sample.z]
    Rearranged [p, Sample.atoms] [Sample.atoms.swap, p] ∧
      ∃ τ τ', unifyAll ∅ [p, Sample.atoms] = .ok τ ∧
        unifyAll ∅ [Sample.atoms.swap, p] = .ok τ' ∧
        τ.bindings = [(Sample.x, .var Sample.y), (Sample.y, t)] ∧
        τ'.bindings = [(Sample.x, t), (Sample.y, t)] ∧
        τ.Generalizes τ' ∧ τ'.Generalizes τ := by
  intro p t
  have hrearranged : Rearranged [p, Sample.atoms] [Sample.atoms.swap, p] :=
    ⟨[Sample.atoms, p], .swap _ _ _, .cons (.inr rfl) (.cons (.inl rfl) .nil)⟩
  have hleft : ∃ τ, unifyAll ∅ [p, Sample.atoms] = .ok τ ∧
      τ.bindings = [(Sample.x, .var Sample.y), (Sample.y, t)] :=
    exists_unifyAll_two (b := [(Sample.x, .var Sample.y)]) (.of_depth 8 fun _ => rfl)
      (.of_depth 8 fun _ => rfl)
  have hright : ∃ τ, unifyAll ∅ [Sample.atoms.swap, p] = .ok τ ∧
      τ.bindings = [(Sample.x, t), (Sample.y, t)] :=
    exists_unifyAll_two (b := [(Sample.x, t)]) (.of_depth 8 fun _ => rfl)
      (.of_depth 8 fun _ => rfl)
  obtain ⟨τ, hτ, hbindings⟩ := hleft
  obtain ⟨τ', hτ', hbindings'⟩ := hright
  obtain ⟨-, hinstances⟩ := (unifyAll_rearranged ∅).1 _ _ hrearranged
  exact ⟨hrearranged, τ, τ', hτ, hτ', hbindings, hbindings', hinstances τ τ' hτ hτ'⟩

end Pair
end Unification
