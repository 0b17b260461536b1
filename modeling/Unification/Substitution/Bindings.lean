import Unification.Term.Lemmas
import Unification.VariableMap

/-!
# Bindings and their dependency graph

Bindings give variables their terms.  They span a graph on the variables:
`Depends b w v` says that `w` occurs in the term bound to `v`, so that whoever
follows `v` comes to `w`.  Where the graph has no infinite path, following
bindings ends.

`wellFounded_append` extends such bindings by one more, and `wellFounded_of_disjoint`
covers bindings whose terms mention no bound variable.
-/

namespace Unification

abbrev Bindings := VariableMap Term

namespace Bindings

open VariableMap

/-- The variable `w` occurs in the term bound to `v`. -/
def Depends (b : Bindings) (w v : Variable) : Prop := ∃ t, lookup? b v = some t ∧ w ∈ t

/-- A variable that is not bound depends on nothing. -/
theorem acc_of_unbound {b : Bindings} {v : Variable} (h : lookup? b v = none) :
    Acc (Depends b) v :=
  ⟨v, fun _ ⟨_, ht, _⟩ => nomatch h.symm.trans ht⟩

theorem wellFounded_nil : WellFounded (Depends []) := ⟨fun _ => acc_of_unbound rfl⟩

/-- Bindings whose terms mention no bound variable have no path of two edges. -/
theorem wellFounded_of_disjoint {b : Bindings}
    (h : ∀ p ∈ b, ∀ v ∈ keys b, v ∉ p.2) : WellFounded (Depends b) := by
  refine ⟨fun v => ⟨v, fun w ⟨t, ht, hw⟩ => acc_of_unbound (lookup?_eq_none_iff.2 fun hk => ?_)⟩⟩
  exact h (v, t) (mem_of_lookup? ht) w hk hw

/-- Binding one more variable keeps the graph free of infinite paths when some
set of variables is closed under following the old bindings, holds the variables
of the new term, and leaves out the new variable. -/
theorem wellFounded_append {b : Bindings} (hb : WellFounded (Depends b)) {v : Variable} {t : Term}
    (hv : lookup? b v = none) (avoids : Variable → Prop) (hself : ¬avoids v)
    (ht : ∀ w ∈ t, avoids w) (hclosed : ∀ w u, avoids w → Depends b u w → avoids u) :
    WellFounded (Depends (b ++ [(v, t)])) := by
  have old {w u : Variable} (hw : w ≠ v) (h : Depends (b ++ [(v, t)]) u w) : Depends b u w := by
    obtain ⟨s, hs, hu⟩ := h
    rw [lookup?_append, lookup?_cons, if_neg hw, lookup?_nil, Option.or_none] at hs
    exact ⟨s, hs, hu⟩
  have acc_avoiding (w : Variable) (h : avoids w) : Acc (Depends (b ++ [(v, t)])) w := by
    induction w using hb.induction with
    | h w ih =>
      refine ⟨w, fun u hu => ?_⟩
      have hu' := old (fun e => hself (e ▸ h)) hu
      exact ih u hu' (hclosed w u h hu')
  have acc_new : Acc (Depends (b ++ [(v, t)])) v := by
    refine ⟨v, fun u ⟨s, hs, hu⟩ => ?_⟩
    rw [lookup?_append, hv, Option.none_or, lookup?_cons, if_pos rfl] at hs
    cases hs
    exact acc_avoiding u (ht u hu)
  refine ⟨fun w => ?_⟩
  induction w using hb.induction with
  | h w ih =>
    by_cases hw : w = v
    · exact hw ▸ acc_new
    · exact ⟨w, fun u hu => ih u (old hw hu)⟩

end Bindings
end Unification
