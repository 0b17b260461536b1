import Unification.Equation.Basic

/-!
# Solving equations

`Substitution.solve` works through a list of equations on top of a substitution.
`Substitution.reduce` takes one equation: both sides are resolved, a side that is
an unbound variable is bound to the other, and two applications of one functor
give way to the equations between their arguments, which are worked through
before the rest.  The first obstruction ends the work.

Binding a variable leaves fewer variables in the replaced sides, and taking
terms apart leaves fewer symbols (`reduce_smaller`), so the work ends.
-/

namespace Unification
namespace Substitution

/-- Binds an unbound variable to a term that it does not occur in. -/
def eliminate (σ : Substitution) (v : Variable) (t : Term) : Except UnificationError Substitution :=
  if h : σ.lookup? v = none ∧ σ.reaches v t = false then .ok (σ.bind v t h.1 h.2)
  else .error (.occursCheck v (t.replace σ))

/-- Takes one equation.  The answer is the substitution after it and the
equations that it leaves.

Sides that resolve to one term are equal already; to take that term apart would
follow its variables as often as they occur.  The left side is bound if both are
unbound variables.  Two terms that are no variables are compared in the order of
the equation, but the right one comes first if it was reached from a variable. -/
def reduce (σ : Substitution) (e : Equation) : Except UnificationError (Substitution × List Equation) :=
  if σ.resolve e.1 = σ.resolve e.2 then .ok (σ, [])
  else
    match σ.resolve e.1, σ.resolve e.2 with
    | .var v, t => (σ.eliminate v t).map (·, [])
    | s, .var w => (σ.eliminate w s).map (·, [])
    | s, t =>
      (if e.2.isVariable then Equation.decompose t s else Equation.decompose s t).map (σ, ·)

/-- The three ways in which an equation is taken: it holds already, it binds a
variable, or it gives way to the equations between arguments. -/
theorem reduce_eq_ok {σ σ' : Substitution} {e : Equation} {es : List Equation}
    (h : σ.reduce e = .ok (σ', es)) :
    (σ.resolve e.1 = σ.resolve e.2 ∧ σ' = σ ∧ es = []) ∨
    (∃ v t hv ht, (σ.resolve e.1 = .var v ∧ σ.resolve e.2 = t ∨
      σ.resolve e.1 = t ∧ σ.resolve e.2 = .var v) ∧ σ' = σ.bind v t hv ht ∧ es = []) ∨
    (Equation.decompose (σ.resolve e.1) (σ.resolve e.2) = .ok es ∨
      Equation.decompose (σ.resolve e.2) (σ.resolve e.1) = .ok es) ∧ σ' = σ := by
  have eliminated {v : Variable} {t : Term}
      (h : (σ.eliminate v t).map (·, []) = .ok (σ', es)) :
      ∃ hv ht, σ' = σ.bind v t hv ht ∧ es = [] := by
    unfold eliminate at h
    split at h
    · next hvt => cases h; exact ⟨hvt.1, hvt.2, rfl, rfl⟩
    · cases h
  have compared {s t : Term} (h : (Equation.decompose s t).map (σ, ·) = .ok (σ', es)) :
      Equation.decompose s t = .ok es ∧ σ' = σ := by
    cases hd : Equation.decompose s t with
    | error _ => rw [hd] at h; cases h
    | ok es' => rw [hd] at h; cases h; exact ⟨rfl, rfl⟩
  unfold reduce at h
  split at h
  · next heq => cases h; exact .inl ⟨heq, rfl, rfl⟩
  split at h
  · next v hl =>
    obtain ⟨hv, ht, hσ, hes⟩ := eliminated h
    exact .inr (.inl ⟨v, _, hv, ht, .inl ⟨hl, rfl⟩, hσ, hes⟩)
  · next w hr _ =>
    obtain ⟨hv, ht, hσ, hes⟩ := eliminated h
    exact .inr (.inl ⟨w, _, hv, ht, .inr ⟨rfl, hr⟩, hσ, hes⟩)
  · refine .inr (.inr ?_)
    split at h
    · exact (compared h).imp .inr id
    · exact (compared h).imp .inl id

open Equation in
theorem reduce_smaller {σ σ' : Substitution} {e : Equation} {es : List Equation}
    (h : σ.reduce e = .ok (σ', es)) (rest : List Equation) :
    Smaller σ' (es ++ rest) σ (e :: rest) := by
  rcases reduce_eq_ok h with ⟨_, rfl, rfl⟩ | ⟨v, t, hv, ht, hsides, rfl, rfl⟩ | ⟨hd, rfl⟩
  · exact smaller_tail σ' e rest
  · -- Both sides replaced are the variable and the term it is bound to.
    have hmem (w : Variable) : (w = v ∨ w ∈ t.replace σ) → w ∈ unknowns σ (e :: rest) := by
      intro hw
      refine mem_unknowns.2 ⟨e, List.mem_cons_self, ?_⟩
      rw [← Term.replace_resolve e.1, ← Term.replace_resolve e.2]
      rcases hsides with ⟨hl, hr⟩ | ⟨hl, hr⟩ <;>
        rw [hl, hr, Term.replace_var, value_of_unbound hv, Term.mem_var]
      · exact hw
      · exact hw.symm
    have hvt : v ∉ t.replace σ := fun hm => by
      rw [(reaches_iff_mem_replace hv).2 hm] at ht; exact Bool.noConfusion ht
    have himage {s : Term} {w : Variable} (hw : w ∈ s.replace (σ.bind v t hv ht)) :
        w ≠ v ∧ (w ∈ s.replace σ ∨ w ∈ t.replace σ) := by
      rw [Term.replace_bind] at hw
      obtain ⟨u, hu, hw⟩ := Term.mem_subst.1 hw
      unfold single at hw
      split at hw
      · exact ⟨fun e => hvt (e ▸ hw), .inr hw⟩
      · next hne => exact Term.mem_var.1 hw ▸ ⟨hne, .inl hu⟩
    rw [List.nil_append]
    refine smaller_of_ssubset (v := v) (fun w hw => ?_) (hmem v (.inl rfl)) (fun hv' => ?_)
    · obtain ⟨e', he', hw⟩ := mem_unknowns.1 hw
      have hside (s : Term) (hs : s = e'.1 ∨ s = e'.2) (hw : w ∈ s.replace (σ.bind v t hv ht)) :
          w ∈ unknowns σ (e :: rest) := by
        rcases (himage hw).2 with h | h
        · refine mem_unknowns.2 ⟨e', List.mem_cons_of_mem e he', ?_⟩
          exact hs.elim (fun hs => .inl (hs ▸ h)) (fun hs => .inr (hs ▸ h))
        · exact hmem w (.inr h)
      exact hw.elim (hside _ (.inl rfl)) (hside _ (.inr rfl))
    · obtain ⟨e', _, hw⟩ := mem_unknowns.1 hv'
      exact hw.elim (fun hw => (himage hw).1 rfl) (fun hw => (himage hw).1 rfl)
  · -- Resolving changes neither the variables nor the size of a replaced side.
    have hmem (e' : Equation) (he' : e' ∈ es) (v : Variable)
        (hv : v ∈ e'.1.replace σ' ∨ v ∈ e'.2.replace σ') :
        v ∈ e.1.replace σ' ∨ v ∈ e.2.replace σ' := by
      rw [← Term.replace_resolve e.1, ← Term.replace_resolve e.2]
      rcases hd with hd | hd
      · obtain ⟨h₁, h₂⟩ := mem_of_mem_decompose hd σ' he' v
        exact hv.imp h₁ h₂
      · obtain ⟨h₁, h₂⟩ := mem_of_mem_decompose hd σ' he' v
        exact (hv.imp h₁ h₂).symm
    refine smaller_of_subset (fun v hv => ?_) ?_
    · obtain ⟨e', he', hv⟩ := mem_unknowns.1 hv
      rcases List.mem_append.1 he' with he' | he'
      · exact mem_unknowns.2 ⟨e, List.mem_cons_self, hmem e' he' v hv⟩
      · exact mem_unknowns.2 ⟨e', List.mem_cons_of_mem e he', hv⟩
    · rw [weight_append, weight_cons, ← Term.replace_resolve e.1, ← Term.replace_resolve e.2]
      rcases hd with hd | hd
      · have := weight_decompose_lt hd σ'
        omega
      · have := weight_decompose_lt hd σ'
        omega

/-- Extends a substitution so that both sides of every equation become equal, or
gives the first obstruction. -/
def solve (σ : Substitution) (es : List Equation) : Except UnificationError Substitution :=
  match es with
  | [] => .ok σ
  | e :: rest =>
    match _reduced : σ.reduce e with
    | .error cause => .error cause
    | .ok (σ', es) => solve σ' (es ++ rest)
termination_by ((Equation.unknowns σ es).length, Equation.weight σ es)
decreasing_by exact reduce_smaller _reduced rest

@[simp] theorem solve_nil (σ : Substitution) : σ.solve [] = .ok σ := by
  rw [solve]

theorem solve_cons (σ : Substitution) (e : Equation) (rest : List Equation) :
    σ.solve (e :: rest) =
      match σ.reduce e with
      | .error cause => .error cause
      | .ok (σ', es) => σ'.solve (es ++ rest) := by
  rw [solve]
  split <;> simp_all

end Substitution
end Unification
