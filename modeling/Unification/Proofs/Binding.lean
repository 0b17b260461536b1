import Unification.Proofs.Unchecked.Reachable

/-!
# What checked binding accepts

A variable is bound unless it is bound already or the new edges close a cycle.  The test
looks at paths through the bindings already made only, and that is enough: whatever edge of a
cycle comes last, the others are a path by then (`add_eq_ok_iff`).  An attempt that is refused
leaves the bindings as they were.

The order in which bindings are added is therefore no matter.  A list of them is accepted
exactly if it binds no variable twice and its graph has no cycle, and neither depends on the
order (`checked_binding_exact`).
-/

namespace Unification

open Relation

namespace Bindings

variable {b c : Bindings}

/-! ## The graph of a list in another order -/

theorem depends_iff_mem (hb : b.keys.Nodup) {v w : Variable} :
    b.Depends w v ↔ ∃ t, (v, t) ∈ b ∧ w ∈ t := by
  simp only [Depends, VariableMap.lookup?_eq_some_iff hb]

theorem nodup_keys_perm (h : b.Perm c) : b.keys.Nodup ↔ c.keys.Nodup :=
  (h.map Prod.fst).nodup_iff

theorem Acyclic.perm (hacyclic : b.Acyclic) (hb : b.keys.Nodup) (h : b.Perm c) : c.Acyclic := by
  have hedge (w v : Variable) (hdepends : c.Depends w v) : b.Depends w v := by
    rw [depends_iff_mem ((nodup_keys_perm h).1 hb)] at hdepends
    obtain ⟨t, ht, hw⟩ := hdepends
    exact (depends_iff_mem hb).2 ⟨t, h.mem_iff.2 ht, hw⟩
  intro v hv
  exact hacyclic v (TransGen.mono hedge v v hv)

/-! ## Binding in place -/

/-- Binds a variable in bindings that are a state, so that a refused attempt leaves them to
its caller as well. -/
def addInPlace? (depth : Nat) (v : Variable) (t : Term) :
    ExceptT Error (StateT Bindings Option) Unit := do
  let b ← get
  match b.lookup? v with
  | some existing => throw (.alreadyBound v existing)
  | none =>
    if ← b.reaches? v depth t then throw (.cyclicBinding v t)
    else set (b.insert v t)

/-- The answer to an attempt to bind, with what the bindings `b` are after it. -/
def leftWith (b : Bindings) : Except Error Bindings → Except Error Unit × Bindings
  | .ok b' => (.ok (), b')
  | .error cause => (.error cause, b)

theorem run_addInPlace? (depth : Nat) (b : Bindings) (v : Variable) (t : Term) :
    (addInPlace? depth v t).run.run b = (add? depth b v t).map b.leftWith := by
  -- The state is read once, before the case split.
  change StateT.run (ExceptT.run (match b.lookup? v with | some _ => _ | none => _)) b = _
  rw [add?]
  cases hv : b.lookup? v with
  | some existing => rfl
  | none =>
    cases b.reaches? v depth t with
    | none => rfl
    | some found =>
      cases found with
      | false => rfl
      | true => rfl

theorem ends_addInPlace? (σ : Substitution) (v : Variable) (t : Term) :
    Ends (fun depth => (addInPlace? depth v t).run.run σ.bindings)
      (σ.bindings.leftWith ((σ.add v t).map Substitution.bindings)) := by
  simp only [run_addInPlace?]
  exact (add?_bindings σ v t).map _

end Bindings

namespace Substitution

variable {σ τ : Substitution} {v : Variable} {t : Term}

/-! ## One binding -/

theorem add_eq_ok_iff :
    σ.add v t = .ok τ ↔ σ.lookup? v = none ∧ Bindings.Acyclic (σ.bindings ++ [(v, t)]) ∧
      τ.bindings = σ.bindings ++ [(v, t)] := by
  cases hv : σ.lookup? v with
  | some existing =>
    rw [add_of_bound hv]
    exact iff_of_false nofun nofun
  | none =>
    rw [← reaches_eq_false_iff hv]
    cases ht : σ.reaches v t with
    | true =>
      rw [add_of_reaches hv ht]
      exact iff_of_false nofun nofun
    | false =>
      rw [add_eq_ok hv ht, Except.ok.injEq]
      constructor
      · intro h
        exact ⟨rfl, rfl, h ▸ bindings_bind hv ht⟩
      · intro h
        exact ext_bindings (h.2.2 ▸ bindings_bind hv ht)

theorem exists_add_iff :
    (∃ τ, σ.add v t = .ok τ) ↔
      σ.lookup? v = none ∧ Bindings.Acyclic (σ.bindings ++ [(v, t)]) := by
  constructor
  · intro h
    obtain ⟨τ, hτ⟩ := h
    obtain ⟨hv, hacyclic, -⟩ := add_eq_ok_iff.1 hτ
    exact ⟨hv, hacyclic⟩
  · intro h
    obtain ⟨hv, hacyclic⟩ := h
    exact ⟨_, add_eq_ok hv ((reaches_eq_false_iff hv).2 hacyclic)⟩

theorem add_eq_error_iff {cause : Error} :
    σ.add v t = .error cause ↔
      (∃ existing, σ.lookup? v = some existing ∧ cause = .alreadyBound v existing) ∨
        σ.lookup? v = none ∧ ¬Bindings.Acyclic (σ.bindings ++ [(v, t)]) ∧
          cause = .cyclicBinding v t := by
  cases hv : σ.lookup? v with
  | some existing =>
    rw [add_of_bound hv, Except.error.injEq]
    simp [eq_comm]
  | none =>
    rw [← reaches_eq_false_iff hv]
    cases ht : σ.reaches v t with
    | true =>
      rw [add_of_reaches hv ht, Except.error.injEq]
      simp [eq_comm]
    | false =>
      rw [add_eq_ok hv ht]
      simp

/-! ## A list of bindings -/

theorem bindings_of_addAll {b : Bindings}
    (h : b.foldlM (fun σ p => σ.add p.1 p.2) σ = .ok τ) : τ.bindings = σ.bindings ++ b := by
  induction b generalizing σ with
  | nil =>
    cases h
    exact (List.append_nil _).symm
  | cons p b ih =>
    rw [List.foldlM_cons] at h
    cases hp : σ.add p.1 p.2 with
    | error cause =>
      rw [hp] at h
      cases h
    | ok κ =>
      rw [hp] at h
      rw [ih h, (add_eq_ok_iff.1 hp).2.2, List.append_assoc]
      rfl

theorem ofBindings_eq_ok_iff {b : Bindings} : ofBindings b = .ok σ ↔ σ.bindings = b := by
  constructor
  · intro h
    exact bindings_of_addAll h
  · rintro rfl
    exact σ.ofBindings_bindings

theorem exists_ofBindings_iff {b : Bindings} :
    (∃ σ, ofBindings b = .ok σ) ↔ b.keys.Nodup ∧ b.Acyclic := by
  constructor
  · intro h
    obtain ⟨σ, hσ⟩ := h
    rw [← ofBindings_eq_ok_iff.1 hσ]
    exact ⟨σ.nodup, σ.acyclic_bindings⟩
  · intro h
    obtain ⟨σ, hσ, -⟩ := ofBindings_of_acyclic h.1 h.2
    exact ⟨σ, hσ⟩

theorem exists_ofBindings_perm {b c : Bindings} (h : b.Perm c) (hσ : ofBindings b = .ok σ) :
    ∃ τ, ofBindings c = .ok τ ∧ σ ≈ τ := by
  obtain ⟨hkeys, hacyclic⟩ := exists_ofBindings_iff.1 ⟨σ, hσ⟩
  obtain ⟨τ, hτ⟩ :=
    exists_ofBindings_iff.2 ⟨(Bindings.nodup_keys_perm h).1 hkeys, hacyclic.perm hkeys h⟩
  refine ⟨τ, hτ, ?_⟩
  show σ.bindings.Perm τ.bindings
  rwa [ofBindings_eq_ok_iff.1 hσ, ofBindings_eq_ok_iff.1 hτ]

/-- A binding is accepted exactly if its variable is unbound and its edges close no cycle.  It
is appended then, and otherwise the bindings stay as they were and the refusal says which of
the two went wrong.  Lists of bindings are accepted exactly if they bind no variable twice and
have no cycle, in whatever order, and every order gives the same. -/
theorem checked_binding_exact :
    (∀ (σ : Substitution) (v : Variable) (t : Term),
      ((∃ τ, σ.add v t = .ok τ) ↔
        σ.lookup? v = none ∧ Bindings.Acyclic (σ.bindings ++ [(v, t)])) ∧
      (∀ τ, σ.add v t = .ok τ → τ.bindings = σ.bindings ++ [(v, t)] ∧
        Ends (fun depth => (Bindings.addInPlace? depth v t).run.run σ.bindings)
          (.ok (), σ.bindings ++ [(v, t)])) ∧
      ∀ cause, σ.add v t = .error cause →
        ((∃ existing, σ.lookup? v = some existing ∧ cause = .alreadyBound v existing) ∨
          σ.lookup? v = none ∧ cause = .cyclicBinding v t) ∧
        Ends (fun depth => (Bindings.addInPlace? depth v t).run.run σ.bindings)
          (.error cause, σ.bindings)) ∧
      (∀ b : Bindings, (∃ σ, ofBindings b = .ok σ) ↔ b.keys.Nodup ∧ b.Acyclic) ∧
        ∀ b c : Bindings, b.Perm c → ∀ σ, ofBindings b = .ok σ →
          ∃ τ, ofBindings c = .ok τ ∧ σ ≈ τ := by
  refine ⟨fun σ v t => ⟨exists_add_iff, fun τ hτ => ?_, fun cause hcause => ?_⟩,
    fun b => exists_ofBindings_iff, fun b c h σ hσ => exists_ofBindings_perm h hσ⟩
  · obtain ⟨-, -, hbindings⟩ := add_eq_ok_iff.1 hτ
    have hrun := Bindings.ends_addInPlace? σ v t
    rw [hτ] at hrun
    exact ⟨hbindings, hbindings ▸ hrun⟩
  · have hrun := Bindings.ends_addInPlace? σ v t
    rw [hcause] at hrun
    exact ⟨(add_eq_error_iff.1 hcause).imp_right fun h => ⟨h.1, h.2.2⟩, hrun⟩

/-- The path that `Y -> f(Z)` would close has two edges, and either may be made first. -/
theorem checked_binding_exact_chain :
    ∃ σ τ : Substitution,
      let left : Bindings := [(Sample.x, .app Sample.f [.var Sample.y]), (Sample.z, .var Sample.x)]
      let right : Bindings := [(Sample.z, .var Sample.x), (Sample.x, .app Sample.f [.var Sample.y])]
      let closing : Term := .app Sample.f [.var Sample.z]
      σ.bindings = [(Sample.x, .app Sample.f [.var Sample.y])] ∧
      σ.add Sample.z (.var Sample.x) = .ok τ ∧ τ.bindings = left ∧
      τ.add Sample.y closing = .error (.cyclicBinding Sample.y closing) ∧
      Ends (fun depth => (Bindings.addInPlace? depth Sample.y closing).run.run τ.bindings)
        (.error (.cyclicBinding Sample.y closing), τ.bindings) ∧
      left.Perm right ∧ ofBindings left = .ok τ ∧
      ∃ τ', ofBindings right = .ok τ' ∧ τ ≈ τ' := by
  let first : Bindings := [(Sample.x, .app Sample.f [.var Sample.y])]
  have hfirst : Ends (Bindings.addAll? · [] first) (.ok first) := .of_depth 6 fun _ => rfl
  obtain ⟨σ, hσ⟩ := (Bindings.Reachable.ofBindings hfirst).exists_substitution
  obtain ⟨τ, hτ, -⟩ := (Bindings.add?_bindings σ Sample.z (.var Sample.x)).exists_eq_ok
    (by rw [hσ]; exact .of_depth 6 fun _ => rfl)
  obtain ⟨hbindings, -⟩ := (checked_binding_exact.1 σ Sample.z (.var Sample.x)).2.1 τ hτ
  rw [hσ] at hbindings
  refine ⟨σ, τ, ?_⟩
  intro left right closing
  have hclosing : τ.add Sample.y closing = .error (.cyclicBinding Sample.y closing) :=
    (Bindings.add?_bindings τ Sample.y closing).eq_error
      (by rw [hbindings]; exact .of_depth 6 fun _ => rfl)
  obtain ⟨-, hkept⟩ := (checked_binding_exact.1 τ Sample.y closing).2.2 _ hclosing
  have hperm : left.Perm right := .swap _ _ []
  have hleft : ofBindings left = .ok τ := ofBindings_eq_ok_iff.2 hbindings
  exact ⟨hσ, hτ, hbindings, hclosing, hkept, hperm, hleft,
    checked_binding_exact.2.2 left right hperm τ hleft⟩

end Substitution
end Unification
