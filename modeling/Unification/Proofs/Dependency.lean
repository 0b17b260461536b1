import Mathlib.Data.List.Induction
import Mathlib.Logic.Relation
import Mathlib.Order.WellFounded
import Unification.Substitution.Lemmas

/-!
# Paths in the dependency graph

The test that `add` makes before it binds a variable asks for a path in the
dependency graph of the bindings made so far: `leadsTo_iff` and `reaches_iff`.
An edge that closes a cycle is therefore refused whichever of the cycle's edges
comes last, and no other binding of a new variable is.  So bindings of distinct
variables without a cycle can be added one after the other
(`ofBindings_of_acyclic`), and a substitution is what its own bindings add up to
(`ofBindings_bindings`).
-/

namespace Unification

open Relation

namespace Bindings

/-- No variable comes back to itself along the bindings. -/
def Acyclic (b : Bindings) : Prop := ∀ v, ¬TransGen b.Depends v v

theorem acyclic_of_wellFounded {b : Bindings} (h : WellFounded b.Depends) : b.Acyclic :=
  fun v hv => h.transGen.irrefl.irrefl v hv

theorem Depends.append {b : Bindings} {u v : Variable} (h : b.Depends u v) (c : Bindings) :
    (b ++ c : Bindings).Depends u v := by
  obtain ⟨t, ht, hu⟩ := h
  refine ⟨t, ?_, hu⟩
  rw [VariableMap.lookup?_append, ht, Option.some_or]

theorem Acyclic.of_append {b c : Bindings} (h : Acyclic (b ++ c)) : b.Acyclic :=
  fun v hv => h v (TransGen.mono (fun _ _ he => he.append c) v v hv)

end Bindings

namespace Substitution

variable {σ : Substitution}

theorem acyclic_bindings (σ : Substitution) : σ.bindings.Acyclic :=
  Bindings.acyclic_of_wellFounded σ.acyclic

theorem leadsTo_iff {v w : Variable} :
    σ.leadsTo v w = true ↔ ReflTransGen σ.bindings.Depends v w := by
  constructor
  · intro h
    induction w using σ.bound_induction with
    | unbound w hw =>
      rw [leadsTo_eq, hw, Bool.or_false, decide_eq_true_eq] at h
      rw [h]
    | bound w t ht ih =>
      rw [leadsTo_eq, ht, Bool.or_eq_true, decide_eq_true_eq] at h
      rcases h with h | h
      · rw [h]
      · obtain ⟨u, hu, hv⟩ := reaches_eq_true_iff.1 h
        exact (ih u hu hv).tail ⟨t, ht, hu⟩
  · intro h
    induction h with
    | refl => exact leadsTo_self σ v
    | tail _ hedge ih => exact leadsTo_of_depends hedge ih

theorem reaches_iff {v : Variable} {t : Term} :
    σ.reaches v t = true ↔ ∃ w ∈ t, ReflTransGen σ.bindings.Depends v w := by
  simp only [reaches_eq_true_iff, leadsTo_iff]

theorem add_of_bound {v : Variable} {t existing : Term} (hv : σ.lookup? v = some existing) :
    σ.add v t = .error (.alreadyBound v existing) := by
  unfold add
  split
  · next hs =>
    cases hs.symm.trans hv
    rfl
  · next hn => cases hn.symm.trans hv

theorem add_of_reaches {v : Variable} {t : Term} (hv : σ.lookup? v = none)
    (ht : σ.reaches v t = true) : σ.add v t = .error (.cyclicBinding v t) := by
  unfold add
  split
  · next hs => cases hv.symm.trans hs
  · rw [dif_pos ht]

theorem add_eq_ok {v : Variable} {t : Term} (hv : σ.lookup? v = none)
    (ht : σ.reaches v t = false) : σ.add v t = .ok (σ.bind v t hv ht) := by
  unfold add
  split
  · next hs => cases hv.symm.trans hs
  · rw [dif_neg (Bool.eq_false_iff.1 ht)]

@[simp] theorem bindings_bind {v : Variable} {t : Term} (hv : σ.lookup? v = none)
    (ht : σ.reaches v t = false) : (σ.bind v t hv ht).bindings = σ.bindings ++ [(v, t)] := rfl

/-- The test that `add` makes is exact: a new binding is refused only where it
closes a cycle. -/
theorem reaches_eq_false_iff {v : Variable} {t : Term} (hv : σ.lookup? v = none) :
    σ.reaches v t = false ↔ Bindings.Acyclic (σ.bindings ++ [(v, t)]) := by
  constructor
  · intro ht
    exact acyclic_bindings (σ.bind v t hv ht)
  · intro hc
    rw [Bool.eq_false_iff]
    intro hreaches
    obtain ⟨w, hw, hpath⟩ := reaches_iff.1 hreaches
    have hlookup : VariableMap.lookup? (σ.bindings ++ [(v, t)]) v = some t := by
      rw [VariableMap.lookup?_append, ← lookup?, hv, Option.none_or, VariableMap.lookup?_cons,
        if_pos rfl]
    have hkept : ReflTransGen (Bindings.Depends (σ.bindings ++ [(v, t)])) v w :=
      ReflTransGen.mono (fun _ _ he => he.append [(v, t)]) v w hpath
    exact hc v (.tail' hkept ⟨t, hlookup, hw⟩)

theorem ofBindings_of_acyclic {b : Bindings} (hb : b.keys.Nodup) (hc : b.Acyclic) :
    ∃ σ, ofBindings b = .ok σ ∧ σ.bindings = b := by
  -- From the end, so that what has been added before is a prefix without cycles.
  induction b using List.reverseRecOn with
  | nil => exact ⟨∅, rfl, rfl⟩
  | append_singleton b p ih =>
    obtain ⟨v, t⟩ := p
    rw [VariableMap.keys_append] at hb
    obtain ⟨hkeys, -, hdisjoint⟩ := List.nodup_append.1 hb
    obtain ⟨σ, hσ, rfl⟩ := ih hkeys hc.of_append
    have hv : σ.lookup? v = none :=
      VariableMap.lookup?_eq_none_iff.2 fun hmem =>
        hdisjoint v hmem v (List.mem_singleton.2 rfl) rfl
    have ht : σ.reaches v t = false := (reaches_eq_false_iff hv).2 hc
    refine ⟨σ.bind v t hv ht, ?_, bindings_bind hv ht⟩
    rw [ofBindings] at hσ ⊢
    rw [List.foldlM_append, hσ]
    show List.foldlM (fun σ p => σ.add p.1 p.2) σ [(v, t)] = .ok (σ.bind v t hv ht)
    rw [List.foldlM_cons, add_eq_ok hv ht]
    rfl

theorem ofBindings_bindings (σ : Substitution) : ofBindings σ.bindings = .ok σ := by
  obtain ⟨τ, hτ, hbindings⟩ := ofBindings_of_acyclic σ.nodup σ.acyclic_bindings
  rw [hτ, ext_bindings hbindings]

end Substitution
end Unification
