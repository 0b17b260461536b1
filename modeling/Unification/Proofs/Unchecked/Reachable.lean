import Unification.Proofs.Dependency
import Unification.Proofs.Unchecked.Unifying

/-!
# Reachable bindings

The bindings that unchecked work can arrive at are those of substitutions, no
more and no fewer (`reachable_iff`).  So they never run in a circle, although
unification and composition bind without a look at what they close.
-/

namespace Unification

open Filter

namespace VariableMap

theorem foldl_insert_of_nodup {α : Type} {m n : VariableMap α} (h : (keys (m ++ n)).Nodup) :
    n.foldl (fun d p => insert d p.1 p.2) m = m ++ n := by
  induction n generalizing m with
  | nil => exact (List.append_nil m).symm
  | cons p n ih =>
    have hassoc : m ++ p :: n = (m ++ [p]) ++ n := by simp
    rw [hassoc] at h ⊢
    have hnew : lookup? m p.1 = none := by
      rw [lookup?_eq_none_iff]
      intro hmem
      rw [keys_append, keys_append] at h
      have hm := (List.nodup_append.1 h).1
      exact (List.nodup_append.1 hm).2.2 p.1 hmem p.1 (List.mem_singleton.2 rfl) rfl
    rw [List.foldl_cons, insert_of_lookup?_eq_none hnew]
    exact ih h

end VariableMap

namespace Bindings

variable {σ τ : Substitution}

theorem add?_bindings (σ : Substitution) (v : Variable) (t : Term) :
    Ends (add? · σ.bindings v t) ((σ.add v t).map Substitution.bindings) := by
  filter_upwards [reaches?_bindings σ v t] with depth hreaches
  cases hv : σ.lookup? v with
  | some existing =>
    have hlookup : VariableMap.lookup? σ.bindings v = some existing := hv
    rw [add?, hlookup, Substitution.add_of_bound hv]
    rfl
  | none =>
    have hlookup : VariableMap.lookup? σ.bindings v = none := hv
    rw [add?, hlookup, hreaches]
    cases ht : σ.reaches v t with
    | true =>
      rw [Substitution.add_of_reaches hv ht]
      rfl
    | false =>
      rw [Substitution.add_eq_ok hv ht]
      show some (Except.ok (VariableMap.insert σ.bindings v t)) = _
      rw [VariableMap.insert_of_lookup?_eq_none hlookup]
      rfl

theorem addAll?_empty (ps : Bindings) :
    Ends (addAll? · [] ps) ((Substitution.ofBindings ps).map Substitution.bindings) :=
  ends_thread (fun depth b (p : Variable × Term) => add? depth b p.1 p.2)
    (fun σ p => σ.add p.1 p.2) (fun p _ σ => add?_bindings σ p.1 p.2) ∅

theorem composeAll?_cons {b c composed : Bindings} {depth : Nat} {v : Variable} {s t : Term}
    {vs : List Variable} (hs : b.replace? depth (.var v) = some s)
    (ht : c.replace? depth s = some t) :
    composeAll? depth b c composed (v :: vs) =
      composeAll? depth b c (if t = .var v then composed else composed.insert v t) vs := by
  rw [composeAll?, hs]
  show ((c.replace? depth s).bind fun t => _) = _
  rw [ht]
  rfl

/-- The recorded variables are those that do not come back to themselves. -/
theorem composeAll?_bindings (σ τ : Substitution) {composed : Bindings} {vs : List Variable}
    (h : (composed.keys ++ vs).Nodup) :
    Ends (composeAll? · σ.bindings τ.bindings composed vs)
      (composed ++ (vs.map fun v => (v, (σ.value v).replace τ)).filter
        (fun p => p.2 ≠ .var p.1)) := by
  induction vs generalizing composed with
  | nil =>
    rw [List.map_nil, List.filter_nil, List.append_nil]
    exact .const _
  | cons v vs ih =>
    have hfirst : Ends (σ.bindings.replace? · (.var v)) (σ.value v) :=
      replace?_bindings σ (.var v)
    rw [List.map_cons]
    by_cases hid : (σ.value v).replace τ = .var v
    · have hrest : (composed.keys ++ vs).Nodup :=
        h.sublist ((List.sublist_cons_self v vs).append_left composed.keys)
      rw [List.filter_cons_of_neg (by simp [hid])]
      filter_upwards [hfirst, replace?_bindings τ (σ.value v), ih hrest] with depth hl hr hdepth
      rw [composeAll?_cons hl hr, if_pos hid, hdepth]
    · have hnew : VariableMap.lookup? composed v = none := by
        rw [VariableMap.lookup?_eq_none_iff]
        exact fun hmem => (List.nodup_append.1 h).2.2 v hmem v List.mem_cons_self rfl
      have hrest : (VariableMap.keys (composed ++ [(v, (σ.value v).replace τ)]) ++ vs).Nodup := by
        rw [VariableMap.keys_append, List.append_assoc]
        exact h
      rw [List.filter_cons_of_pos (by simp [hid])]
      filter_upwards [hfirst, replace?_bindings τ (σ.value v), ih hrest] with depth hl hr hdepth
      rw [composeAll?_cons hl hr, if_neg hid, VariableMap.insert_of_lookup?_eq_none hnew, hdepth,
        List.append_assoc]
      rfl

theorem compose?_bindings (σ τ : Substitution) :
    Ends (compose? · σ.bindings τ.bindings) ((σ.compose τ).map Substitution.bindings) := by
  have hall : Ends (composeAll? · σ.bindings τ.bindings [] (σ.bindings.keys ++
      τ.bindings.keys.filter fun v => !(σ.bindings.lookup? v).isSome)) (σ.composedBindings τ) :=
    composeAll?_bindings σ τ (Substitution.nodup_domain_append σ τ)
  have hadded : (σ.composedBindings τ).foldl (fun (d : Bindings) p => d.insert p.1 p.2) [] =
      σ.composedBindings τ :=
    VariableMap.foldl_insert_of_nodup (m := []) (Substitution.nodup_composedBindings σ τ)
  filter_upwards [hall] with depth hdepth
  rw [compose?, hdepth]
  simp only [Option.bind_eq_bind, Option.bind_some]
  cases hfound : (σ.composedBindings τ).find? fun p =>
      (σ.composedBindings τ).keys.any (p.2.contains ·) with
  | some p =>
    rw [Substitution.compose_eq_error hfound]
    rfl
  | none =>
    obtain ⟨ρ, hρ, hbindings⟩ := Substitution.compose_eq_ok hfound
    rw [hρ, hadded, ← hbindings]
    rfl

theorem exists_compose_of_ends {b c d : Bindings} (hb : σ.bindings = b) (hc : τ.bindings = c)
    (h : Ends (compose? · b c) (.ok d)) : ∃ ρ, σ.compose τ = .ok ρ ∧ ρ.bindings = d := by
  rw [← hb, ← hc] at h
  exact (compose?_bindings σ τ).exists_eq_ok h

/-! ## What is reachable -/

theorem Reachable.exists_substitution {b : Bindings} (h : Reachable b) :
    ∃ σ : Substitution, σ.bindings = b := by
  induction h with
  | empty => exact ⟨∅, rfl⟩
  | ofBindings h =>
    obtain ⟨τ, -, hτ⟩ := (addAll?_empty _).exists_eq_ok h
    exact ⟨τ, hτ⟩
  | add _ h ih =>
    obtain ⟨σ, rfl⟩ := ih
    obtain ⟨τ, -, hτ⟩ := (add?_bindings σ _ _).exists_eq_ok h
    exact ⟨τ, hτ⟩
  | unify _ h ih =>
    obtain ⟨σ, rfl⟩ := ih
    obtain ⟨τ, -, hτ⟩ := exists_unify_of_ends h
    exact ⟨τ, hτ⟩
  | compose _ _ h ihb ihc =>
    obtain ⟨σ, rfl⟩ := ihb
    obtain ⟨τ, rfl⟩ := ihc
    obtain ⟨ρ, -, hρ⟩ := exists_compose_of_ends rfl rfl h
    exact ⟨ρ, hρ⟩

theorem addAll?_bindings (σ : Substitution) : Ends (addAll? · [] σ.bindings) (.ok σ.bindings) := by
  have hrun := addAll?_empty σ.bindings
  rw [σ.ofBindings_bindings] at hrun
  exact hrun

theorem reachable_iff {b : Bindings} : Reachable b ↔ ∃ σ : Substitution, σ.bindings = b := by
  constructor
  · exact Reachable.exists_substitution
  · rintro ⟨σ, rfl⟩
    exact .ofBindings (addAll?_bindings σ)

/-- Reachable bindings bind every variable at most once and have no cycle, and
adding them one after the other, with every check made, gives them back. -/
theorem Reachable.acyclic_and_rebuilt {b : Bindings} (h : Reachable b) :
    b.keys.Nodup ∧ b.Acyclic ∧ Ends (addAll? · [] b) (.ok b) ∧
      ∃ σ, Substitution.ofBindings b = .ok σ ∧ σ.bindings = b := by
  obtain ⟨σ, rfl⟩ := h.exists_substitution
  exact ⟨σ.nodup, σ.acyclic_bindings, addAll?_bindings σ, σ, σ.ofBindings_bindings, rfl⟩

theorem Reachable.acyclic_and_rebuilt_repeated :
    let b : Bindings := [(Sample.x, .var Sample.y), (Sample.y, .const Sample.a)]
    Ends (unify? · [] Sample.repeated) (.ok b) ∧
      b.keys.Nodup ∧ b.Acyclic ∧ Ends (addAll? · [] b) (.ok b) ∧
        ∃ σ, Substitution.ofBindings b = .ok σ ∧ σ.bindings = b := by
  intro b
  have hrun : Ends (unify? · [] Sample.repeated) (.ok b) := .of_depth 6 fun _ => rfl
  exact ⟨hrun, (Reachable.empty.unify hrun).acyclic_and_rebuilt⟩

end Bindings
end Unification
