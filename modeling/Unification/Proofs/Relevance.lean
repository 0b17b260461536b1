import Unification.Proofs.Problem

/-!
# What solving adds

Solving puts bindings after those that there are, and the new ones are about the
variables of the fully replaced sides only: they bind no other variable and mention
no other one, however far the old bindings are followed (`solve_adds`).  So a term that
is about these variables stays so when the added bindings are followed as well
(`Adds.mem_of_mem_value`).
-/

namespace Unification
namespace Substitution

variable {σ τ : Substitution} {V : Variable → Prop}

/-- The bindings of `τ` are those of `σ` and then some that are about variables in
`V` only, once `σ` has been followed. -/
def Adds (V : Variable → Prop) (σ τ : Substitution) : Prop :=
  ∃ added : Bindings, τ.bindings = σ.bindings ++ added ∧
    ∀ p ∈ added, V p.1 ∧ ∀ w ∈ p.2.replace σ, V w

theorem Adds.refl (V : Variable → Prop) (σ : Substitution) : Adds V σ σ :=
  ⟨[], (List.append_nil _).symm, fun _ hp => absurd hp List.not_mem_nil⟩

theorem mem_replace_bind {v w : Variable} {s t : Term} {hv : σ.lookup? v = none}
    {ht : σ.reaches v t = false} (hw : w ∈ s.replace (σ.bind v t hv ht)) :
    w ∈ s.replace σ ∨ w ∈ t.replace σ := by
  rw [Term.replace_bind] at hw
  obtain ⟨u, hu, hw⟩ := Term.mem_subst.1 hw
  rw [single] at hw
  split at hw
  · exact .inr hw
  · exact .inl (Term.mem_var.1 hw ▸ hu)

theorem mem_replace_of_bind {v w : Variable} {s t : Term} {hv : σ.lookup? v = none}
    {ht : σ.reaches v t = false} (hw : w ∈ s.replace σ) (hne : w ≠ v) :
    w ∈ s.replace (σ.bind v t hv ht) := by
  rw [Term.replace_bind, Term.mem_subst]
  refine ⟨w, hw, ?_⟩
  rw [single, if_neg hne]
  exact Term.mem_var.2 rfl

/-- A binding in front of those that are added. -/
theorem Adds.of_bind {v : Variable} {t : Term} {hv : σ.lookup? v = none}
    {ht : σ.reaches v t = false} (h : Adds V (σ.bind v t hv ht) τ) (hV : V v)
    (htV : ∀ w ∈ t.replace σ, V w) : Adds V σ τ := by
  obtain ⟨added, hadded, hp⟩ := h
  refine ⟨(v, t) :: added, ?_, List.forall_mem_cons.2 ⟨⟨hV, htV⟩, fun p hpmem => ?_⟩⟩
  · rw [hadded, bind, List.append_assoc, List.singleton_append]
  · obtain ⟨hkey, hterm⟩ := hp p hpmem
    refine ⟨hkey, fun w hw => ?_⟩
    by_cases hwv : w = v
    · exact hwv ▸ hV
    · exact hterm w (mem_replace_of_bind hw hwv)

/-- The variables of the two sides, fully replaced, are in `V`. -/
def Concerns (σ : Substitution) (V : Variable → Prop) (e : Equation) : Prop :=
  ∀ w, w ∈ e.1.replace σ ∨ w ∈ e.2.replace σ → V w

theorem concerns_decompose {s t : Term} {es : List Equation} (h : Equation.decompose s t = .ok es)
    (hV : σ.Concerns V (s, t)) : ∀ e ∈ es, σ.Concerns V e := by
  intro e he w hw
  have hmem := Equation.mem_of_mem_decompose h σ he w
  exact hV w (hw.imp hmem.1 hmem.2)

/-- The variable and the term that an equation comes down to are about `V` if the equation is. -/
theorem Concerns.of_sides {e : Equation} {v : Variable} {t : Term} (he : σ.Concerns V e)
    (hv : σ.lookup? v = none) (hsides : σ.resolve e.1 = .var v ∧ σ.resolve e.2 = t ∨
      σ.resolve e.1 = t ∧ σ.resolve e.2 = .var v) : V v ∧ ∀ w ∈ t.replace σ, V w := by
  have hself : v ∈ (Term.var v).replace σ := by
    rw [Term.replace_var, value_of_unbound hv]
    exact Term.mem_var.2 rfl
  have hresolved : σ.Concerns V (σ.resolve e.1, σ.resolve e.2) := by
    intro w hw
    rw [Term.replace_resolve, Term.replace_resolve] at hw
    exact he w hw
  rcases hsides with ⟨hl, hr⟩ | ⟨hl, hr⟩ <;> rw [hl, hr] at hresolved
  · exact ⟨hresolved v (.inl hself), fun w hw => hresolved w (.inr hw)⟩
  · exact ⟨hresolved v (.inr hself), fun w hw => hresolved w (.inl hw)⟩

/-- After an equation has been taken, what it leaves and the other equations are about `V`
still. -/
theorem reduce_concerns {e : Equation} {es : List Equation} (h : σ.reduce e = .ok (τ, es))
    (he : σ.Concerns V e) :
    (∀ e' ∈ es, τ.Concerns V e') ∧ ∀ e', σ.Concerns V e' → τ.Concerns V e' := by
  rcases reduce_eq_ok h with ⟨-, rfl, rfl⟩ | ⟨v, t, hv, ht, hsides, rfl, rfl⟩ | ⟨hd, rfl⟩
  · exact ⟨fun e' he' => absurd he' List.not_mem_nil, fun e' he' => he'⟩
  · -- The other equations now have `t` in place of `v`, and both are about `V`.
    obtain ⟨-, hterm⟩ := he.of_sides hv hsides
    refine ⟨fun e' he' => absurd he' List.not_mem_nil, fun e' he' w hw => ?_⟩
    rcases hw with hw | hw
    · exact (mem_replace_bind hw).elim (fun hw => he' w (.inl hw)) (hterm w)
    · exact (mem_replace_bind hw).elim (fun hw => he' w (.inr hw)) (hterm w)
  · have hresolved (w : Variable)
        (hw : w ∈ (τ.resolve e.1).replace τ ∨ w ∈ (τ.resolve e.2).replace τ) : V w := by
      rw [Term.replace_resolve, Term.replace_resolve] at hw
      exact he w hw
    refine ⟨?_, fun e' he' => he'⟩
    rcases hd with hd | hd
    · exact concerns_decompose hd hresolved
    · exact concerns_decompose hd fun w hw => hresolved w hw.symm

theorem solve_adds {es : List Equation} (h : σ.solve es = .ok τ)
    (hV : ∀ e ∈ es, σ.Concerns V e) : Adds V σ τ := by
  fun_induction solve σ es with
  | case1 σ =>
    cases h
    exact .refl V τ
  | case2 σ e rest cause hred => cases h
  | case3 σ e rest σ' es hred ih =>
    obtain ⟨he, hrest⟩ := List.forall_mem_cons.1 hV
    obtain ⟨hparts, hkeeps⟩ := reduce_concerns hred he
    have hadds : Adds V σ' τ :=
      ih h (List.forall_mem_append.2 ⟨hparts, fun e' he' => hkeeps e' (hrest e' he')⟩)
    rcases reduce_eq_ok hred with ⟨-, rfl, -⟩ | ⟨v, t, hv, ht, hsides, rfl, -⟩ | ⟨-, rfl⟩
    · exact hadds
    · obtain ⟨hvar, hterm⟩ := he.of_sides hv hsides
      exact hadds.of_bind hvar hterm
    · exact hadds

theorem lookup?_of_append {added : Bindings} (h : τ.bindings = σ.bindings ++ added)
    (v : Variable) : τ.lookup? v = (σ.lookup? v).or (added.lookup? v) := by
  rw [lookup?, h, VariableMap.lookup?_append]
  rfl

/-- A variable whose replacement was about `V` is still replaced by a term about `V`. -/
theorem Adds.mem_of_mem_value (h : Adds V σ τ) {u w : Variable} (hu : ∀ x ∈ σ.value u, V x)
    (hw : w ∈ τ.value u) : V w := by
  obtain ⟨added, hadded, hp⟩ := h
  induction u using τ.bound_induction with
  | unbound u hunbound =>
    rw [value_of_unbound hunbound, Term.mem_var] at hw
    rw [lookup?_of_append hadded, Option.or_eq_none_iff] at hunbound
    rw [value_of_unbound hunbound.1] at hu
    exact hu w (Term.mem_var.2 hw)
  | bound u t ht ih =>
    -- Whichever binding this is, an old or a new one, `σ` makes a term about `V` of `t`.
    have hterm : ∀ x ∈ t.replace σ, V x := by
      rw [lookup?_of_append hadded, Option.or_eq_some_iff] at ht
      rcases ht with hold | ⟨-, hnew⟩
      · rwa [value_of_lookup? hold] at hu
      · exact (hp (u, t) (VariableMap.mem_of_lookup? hnew)).2
    rw [value_of_lookup? ht] at hw
    obtain ⟨v, hv, hw⟩ := Term.mem_subst.1 hw
    exact ih v hv (fun x hx => hterm x (Term.mem_subst.2 ⟨v, hv, hx⟩)) hw

end Substitution
end Unification
