import Unification.Term.Basic

/-!
# Finite maps on variables

Pairs of a variable and what belongs to it, in the order in which they were
added.  Looking a variable up finds the first pair.
-/

namespace Unification

abbrev VariableMap (α : Type) := List (Variable × α)

namespace VariableMap

variable {α : Type}

/-- The variables of a map, in order. -/
def keys (m : VariableMap α) : List Variable := m.map Prod.fst

/-- What belongs to a variable. -/
def lookup? : VariableMap α → Variable → Option α
  | [], _ => none
  | (w, a) :: m, v => if v = w then some a else lookup? m v

@[simp] theorem lookup?_nil (v : Variable) : lookup? ([] : VariableMap α) v = none := rfl

theorem lookup?_cons (w : Variable) (a : α) (m : VariableMap α) (v : Variable) :
    lookup? ((w, a) :: m) v = if v = w then some a else lookup? m v := rfl

theorem keys_append (m n : VariableMap α) : keys (m ++ n) = keys m ++ keys n :=
  List.map_append

theorem lookup?_eq_none_iff {m : VariableMap α} {v : Variable} :
    lookup? m v = none ↔ v ∉ keys m := by
  induction m with
  | nil => simp [keys]
  | cons p m ih =>
    simp only [keys] at ih
    simp only [lookup?, keys, List.map_cons, List.mem_cons, not_or]
    split
    · next h => simp [h]
    · next h => simp [h, ih]

theorem lookup?_append (m n : VariableMap α) (v : Variable) :
    lookup? (m ++ n) v = (lookup? m v).or (lookup? n v) := by
  induction m with
  | nil => simp
  | cons p m ih =>
    simp only [List.cons_append, lookup?]
    split
    · rfl
    · exact ih

theorem mem_of_lookup? {m : VariableMap α} {v : Variable} {a : α} (h : lookup? m v = some a) :
    (v, a) ∈ m := by
  induction m with
  | nil => cases h
  | cons p m ih =>
    simp only [lookup?] at h
    split at h
    · next hv => cases h; rw [hv]; exact List.mem_cons_self
    · exact List.mem_cons_of_mem p (ih h)

/-- In a map with one pair for each variable, looking a variable up finds its
pair. -/
theorem lookup?_eq_some_iff {m : VariableMap α} (hm : (keys m).Nodup) {v : Variable} {a : α} :
    lookup? m v = some a ↔ (v, a) ∈ m := by
  refine ⟨mem_of_lookup?, fun h => ?_⟩
  induction m with
  | nil => cases h
  | cons p m ih =>
    obtain ⟨w, b⟩ := p
    obtain ⟨hw, hm⟩ := List.nodup_cons.1 hm
    rcases List.mem_cons.1 h with h | h
    · cases h; exact if_pos rfl
    · rw [lookup?_cons, if_neg (fun e : v = w => hw (e ▸ List.mem_map.2 ⟨_, h, rfl⟩)), ih hm h]

/-- Adding a pair for a new variable keeps the variables distinct. -/
theorem nodup_keys_append {m : VariableMap α} (hm : (keys m).Nodup) {v : Variable} (a : α)
    (hv : lookup? m v = none) : (keys (m ++ [(v, a)])).Nodup := by
  rw [keys_append]
  refine List.nodup_append.2 ⟨hm, List.nodup_cons.2 ⟨List.not_mem_nil, List.nodup_nil⟩, ?_⟩
  rintro w hw _ hw' rfl
  rw [List.mem_singleton.1 hw'] at hw
  exact lookup?_eq_none_iff.1 hv hw

/-- Gives a variable something new, at its place if it has one and at the end
otherwise. -/
def insert : VariableMap α → Variable → α → VariableMap α
  | [], v, a => [(v, a)]
  | (w, b) :: m, v, a => if v = w then (w, a) :: m else (w, b) :: insert m v a

theorem insert_of_lookup?_eq_none {m : VariableMap α} {v : Variable} (h : lookup? m v = none)
    (a : α) : insert m v a = m ++ [(v, a)] := by
  induction m with
  | nil => rfl
  | cons p m ih =>
    simp only [lookup?] at h
    simp only [insert]
    split at h
    · cases h
    · next hv => rw [if_neg hv, ih h, List.cons_append]

theorem keys_insert (m : VariableMap α) (v : Variable) (a : α) :
    keys (insert m v a) = if v ∈ keys m then keys m else keys m ++ [v] := by
  induction m with
  | nil => rfl
  | cons p m ih =>
    obtain ⟨w, b⟩ := p
    simp only [insert]
    by_cases h : v = w
    · simp [h, keys]
    · rw [if_neg h]
      simp only [keys, List.map_cons, List.mem_cons, h, false_or] at ih ⊢
      rw [ih]
      exact apply_ite (w :: ·) _ _ _

theorem nodup_keys_insert {m : VariableMap α} (hm : (keys m).Nodup) (v : Variable) (a : α) :
    (keys (insert m v a)).Nodup := by
  rw [keys_insert]
  split
  · exact hm
  · next h =>
    rw [List.nodup_append]
    refine ⟨hm, List.nodup_cons.2 ⟨List.not_mem_nil, List.nodup_nil⟩, ?_⟩
    rintro w hw _ hw' rfl
    exact h (List.mem_singleton.1 hw' ▸ hw)

theorem mem_insert {m : VariableMap α} {v : Variable} {a : α} {p : Variable × α}
    (h : p ∈ insert m v a) : p ∈ m ∨ p.2 = a := by
  induction m with
  | nil =>
    rw [List.mem_singleton.1 h]
    exact .inr rfl
  | cons q m ih =>
    simp only [insert] at h
    split at h
    · obtain rfl | h := List.mem_cons.1 h
      · exact .inr rfl
      · exact .inl (List.mem_cons_of_mem q h)
    · obtain rfl | h := List.mem_cons.1 h
      · exact .inl List.mem_cons_self
      · exact (ih h).imp_left (List.mem_cons_of_mem q)

/-! ## Maps of what belongs to the variables -/

variable {β : Type}

theorem lookup?_map (g : α → β) (m : VariableMap α) (v : Variable) :
    lookup? (m.map (Prod.map id g)) v = (lookup? m v).map g := by
  induction m with
  | nil => rfl
  | cons p m ih =>
    simp only [List.map_cons, lookup?, Prod.map, ih, id]
    split <;> rfl

theorem map_insert (g : α → β) (m : VariableMap α) (v : Variable) (a : α) :
    (insert m v a).map (Prod.map id g) = insert (m.map (Prod.map id g)) v (g a) := by
  induction m with
  | nil => rfl
  | cons p m ih =>
    simp only [insert, List.map_cons, Prod.map, id]
    split
    · rfl
    · rw [List.map_cons, ih]
      rfl

end VariableMap
end Unification
