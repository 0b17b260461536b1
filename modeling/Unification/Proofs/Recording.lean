import Unification.Proofs.Unchecked.Renaming

/-!
# What a pass records

A pass of renaming apart may start with a record of any contents.  It records the
variables that the record lacks, in order of first occurrence, each with a new name made
from its own, and the registry gets these names and no other (`Renamer.RecordsOnly`).

The record and the registry grow together, occurrence by occurrence, while an expression
is renamed with the record as it is at each.  What comes out is the expression renamed
with the record as it is at the end (`Expression.standardizeApart_records`).
-/

namespace Unification

namespace Renamer

variable {s s' s'' : Renamer} {added added' : VariableMap Variable} {v : Variable}

/-- `s'` is `s` after it has recorded these pairs, each with a new variable named after the
old one, and its registry has made no other symbols. -/
structure RecordsOnly (s s' : Renamer) (added : VariableMap Variable) : Prop
    extends s.Records s' added where
  named : ∀ p ∈ added, ∃ k, p.2.symbol = .numbered (s.registry.stem p.1.stem?) k
  made : ∀ t ∈ s'.registry.symbols, t ∈ s.registry.symbols ∨ ∃ p ∈ added, p.2.symbol = t

theorem RecordsOnly.refl (s : Renamer) : s.RecordsOnly s [] where
  toRecords := .refl s
  named := fun _ hp => absurd hp List.not_mem_nil
  made := fun _ ht => .inl ht

theorem RecordsOnly.append (h : s.RecordsOnly s' added) (h' : s'.RecordsOnly s'' added') :
    s.RecordsOnly s'' (added ++ added') where
  toRecords := h.toRecords.append h'.toRecords
  named := by
    refine List.forall_mem_append.2 ⟨h.named, fun p hp => ?_⟩
    -- The stem depends on the configuration, and that stays.
    have hstem : s'.registry.stem p.1.stem? = s.registry.stem p.1.stem? := by
      rw [Registry.stem, Registry.stem, h.makes.grows.config]
    rw [← hstem]
    exact h'.named p hp
  made := by
    intro t ht
    simp only [List.mem_append, or_and_right, exists_or, ← or_assoc]
    exact (h'.made t ht).imp_left (h.made t)

theorem mem_symbols_iff (h : s.RecordsOnly s' added) (t : Symbol) :
    t ∈ s'.registry.symbols ↔ t ∈ s.registry.symbols ∨ ∃ p ∈ added, p.2.symbol = t := by
  refine ⟨h.made t, ?_⟩
  rintro (ht | ⟨p, hp, rfl⟩)
  · exact h.makes.grows.symbols ht
  · exact h.makes.kept p.2 (List.mem_map_of_mem hp)

theorem recordsOnly_rename_of_new (hv : s.record.lookup? v = none) :
    s.RecordsOnly (s.rename v).2 [(v, (v.fresh s.registry).1)] := by
  rw [rename_of_new hv]
  exact {
    pairs := pairs_insert hv _
    makes := s.registry.makes_fresh v
    named := List.forall_mem_singleton.2 ⟨_, rfl⟩
    made := fun t ht => (Registry.mem_insert.1 ht).symm.imp_right fun heq =>
      ⟨_, List.mem_singleton.2 rfl, heq.symm⟩ }

theorem exists_recordsOnly_renameAll (s : Renamer) (vs : List Variable) :
    ∃ added, s.RecordsOnly (s.renameAll vs) added := by
  induction vs generalizing s with
  | nil => exact ⟨[], .refl s⟩
  | cons v vs ih =>
    obtain ⟨added', h'⟩ := ih (s.rename v).2
    cases hv : s.record.lookup? v with
    | some w =>
      rw [rename_of_lookup? hv] at h'
      refine ⟨added', ?_⟩
      rwa [renameAll, List.foldl_cons, rename_of_lookup? hv]
    | none => exact ⟨_, (recordsOnly_rename_of_new hv).append h'⟩

/-- A variable is put at the end of the record, unless it is there. -/
theorem keys_rename (s : Renamer) (v : Variable) :
    (s.rename v).2.record.pairs.keys = Variable.note s.record.pairs.keys v := by
  cases hv : s.record.lookup? v with
  | some w =>
    have hmem : v ∈ s.record.pairs.keys :=
      List.mem_map_of_mem (VariableMap.mem_of_lookup? hv)
    rw [rename_of_lookup? hv, Variable.note_of_mem hmem]
  | none =>
    have hnew : v ∉ s.record.pairs.keys := VariableMap.lookup?_eq_none_iff.1 hv
    rw [rename_of_new hv, pairs_insert hv, VariableMap.keys_append, Variable.note_of_notMem hnew]
    rfl

theorem keys_renameAll (s : Renamer) (vs : List Variable) :
    (s.renameAll vs).record.pairs.keys = vs.foldl Variable.note s.record.pairs.keys := by
  induction vs generalizing s with
  | nil => rfl
  | cons v vs ih => rw [List.foldl_cons, ← keys_rename]; exact ih (s.rename v).2

theorem keys_eq_filter {vs : List Variable} (h : s.Records (s.renameAll vs) added) :
    added.keys = (Variable.distinct vs).filter (· ∉ s.record.pairs.keys) := by
  have hkeys := s.keys_renameAll vs
  rw [h.pairs, VariableMap.keys_append, Variable.foldl_note_eq] at hkeys
  exact List.append_cancel_left hkeys

end Renamer

/-- The stem of a made-up name is the old name without the digits at its end, or the
configured one where nothing remains. -/
theorem Registry.stem_stem? (r : Registry) (v : Variable) :
    r.stem v.stem? = if v.stem = "" then r.config.freshPrefix else v.stem := by
  rw [stem, Variable.stem?]
  split <;> rfl

namespace Expression

/-- To rename an expression apart is to record what the record lacks of its variables, in
order, under new names made from theirs, and to rename it with the record that this ends in.
The registry gets the new names and is otherwise as it was. -/
theorem standardizeApart_records {s : Renamer} {e : Expression}
    (hcounter : (e.standardizeApart s).2.registry.counter < UInt64.size - 1) :
    Ends (fun depth => (e.standardize? depth).run s) (e.standardizeApart s) ∧
      ∃ added : VariableMap Variable,
        let s' := (e.standardizeApart s).2
        s'.record.pairs = s.record.pairs ++ added ∧
        added.keys = e.vars.filter (· ∉ s.record.pairs.keys) ∧
        (∀ v w, (v, w) ∈ added → w.symbol ∉ s.registry.symbols ∧
          ∃ k : Nat, w.name =
            (if v.stem = "" then s.registry.config.freshPrefix else v.stem) ++ toString k) ∧
        (added.map fun p => p.2.name).Nodup ∧
        (∀ t, t ∈ s'.registry.symbols ↔ t ∈ s.registry.symbols ∨ ∃ p ∈ added, p.2.symbol = t) ∧
        s'.registry.config = s.registry.config ∧
        (∀ v ∈ e.vars, ∃ w, s'.record.lookup? v = some w) ∧
        (e.standardizeApart s).1 = e.rename s'.record.apply := by
  refine ⟨ends_standardize (Nat.lt_of_lt_of_le hcounter (Nat.sub_le _ _)), ?_⟩
  obtain ⟨added, h⟩ := s.exists_recordsOnly_renameAll e.occurrences
  rw [standardizeApart_eq]
  refine ⟨added, h.pairs, ?_, fun v w hvw => ⟨?_, ?_⟩, ?_, Renamer.mem_symbols_iff h,
    h.makes.grows.config, fun v hv => s.exists_lookup?_renameAll (mem_vars.1 hv), rfl⟩
  · rw [vars_eq]
    exact Renamer.keys_eq_filter h.toRecords
  · exact h.makes.unused w (List.mem_map_of_mem hvw)
  · obtain ⟨k, hk⟩ := h.named (v, w) hvw
    rw [← Registry.stem_stem?]
    exact ⟨k, congrArg Symbol.name hk⟩
  · have hnodup := h.makes.nodup.map (f := Variable.name) fun _ _ => Variable.ext_name
    rwa [List.map_map] at hnodup

/-- `X` keeps the replacement that it has, `Y1` loses its number before it gets another one,
with `Y0` and `Y1` taken, and nothing remains of `7`. -/
theorem standardizeApart_records_digits :
    let y₀ : Variable := ⟨⟨"Y0", by decide⟩⟩
    let y₁ : Variable := ⟨⟨"Y1", by decide⟩⟩
    let seven : Variable := ⟨⟨"7", by decide⟩⟩
    ∃ (s : Renamer) (e : Expression),
      s.record.pairs = [(Sample.x, y₀)] ∧
      (e.standardizeApart s).2.registry.counter < UInt64.size - 1 ∧
      (e.standardizeApart s).1.vars.map Variable.name = ["Y2", "Y0", "V3"] ∧
      Ends (fun depth => (e.standardize? depth).run s) (e.standardizeApart s) ∧
      ∃ added : VariableMap Variable,
        let s' := (e.standardizeApart s).2
        s'.record.pairs = s.record.pairs ++ added ∧
        added.keys = [y₁, seven] ∧
        (∀ v w, (v, w) ∈ added → w.symbol ∉ s.registry.symbols ∧
          ∃ k : Nat, w.name = (if v.stem = "" then "V" else v.stem) ++ toString k) ∧
        (added.map fun p => p.2.name).Nodup ∧
        (∀ t, t ∈ s'.registry.symbols ↔ t ∈ s.registry.symbols ∨ ∃ p ∈ added, p.2.symbol = t) ∧
        s'.registry.config = s.registry.config ∧
        (∀ v ∈ e.vars, ∃ w, s'.record.lookup? v = some w) ∧
        (e.standardizeApart s).1 = e.rename s'.record.apply := by
  intro y₀ y₁ seven
  let r : Registry := (Registry.ofConfig { freshPrefix := "V" }).insert y₀.symbol
  let s : Renamer := ⟨.ofList [(Sample.x, y₀)], r.insert y₁.symbol⟩
  let f : Formula := .atom Sample.p [.var y₁, .app Sample.f [.var Sample.x]]
  let e : Expression := .formula (.and [f, .not (.atom Sample.p [.var seven, .var y₁])])
  have hcounter : (e.standardizeApart s).2.registry.counter < UInt64.size - 1 := by decide +kernel
  have hkeys : e.vars.filter (· ∉ s.record.pairs.keys) = [y₁, seven] := by decide +kernel
  refine ⟨s, e, rfl, hcounter, by decide +kernel, ?_⟩
  obtain ⟨hends, added, hpairs, hadded, hrest⟩ := standardizeApart_records hcounter
  exact ⟨hends, added, hpairs, hadded.trans hkeys, hrest⟩

end Expression
end Unification
