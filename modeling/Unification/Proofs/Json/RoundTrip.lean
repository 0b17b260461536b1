import Unification.Proofs.Construction
import Unification.Proofs.Json.Draft

/-!
# Values read back

A term or a formula is written as a draft of itself: its symbols are the names and the
values of its operators the claims (`Term.toJson_draft`, `Formula.toJson_draft`).  A
formula that can be constructed is what its draft builds, so it is read back from its
text, unless the text is nested deeper than is read (`Formula.read_back`).
-/

namespace Unification

namespace Json

mutual
/-- How deep arrays and objects are nested. -/
def depth : Json → Nat
  | .array items => depthAll items + 1
  | .object fields => depthFields fields + 1
  | _ => 0

def depthAll : List Json → Nat
  | [] => 0
  | v :: vs => max (depth v) (depthAll vs)

def depthFields : List (Option String × Json) → Nat
  | [] => 0
  | (_, v) :: fields => max (depth v) (depthFields fields)
end

end Json

namespace Term

mutual
/-- The term as its text lays it out. -/
def draft : Term → Draft
  | .var v => .var v.name
  | .const c => .const c.name
  | .app f args => .app f.name (draftAll args)

def draftAll : List Term → List Draft
  | [] => []
  | t :: ts => draft t :: draftAll ts
end

mutual
theorem toJson_draft : (t : Term) → t.draft.toJson = t.toJson
  | .var _ => rfl
  | .const _ => rfl
  | .app f args => by
    rw [draft, Draft.toJson, toJsonAll_draftAll args, toJson]
    rfl

theorem toJsonAll_draftAll : (ts : List Term) → Draft.toJsonAll (draftAll ts) = toJsonAll ts
  | [] => rfl
  | t :: ts => by rw [draftAll, Draft.toJsonAll, toJson_draft t, toJsonAll_draftAll ts, toJsonAll]
end

mutual
theorem build_draft : (t : Term) → t.draft.build = .ok t
  | .var v => by
    rw [draft, Draft.build, Variable.name, Symbol.named_name]
    rfl
  | .const c => by
    rw [draft, Draft.build, Symbol.named_name]
    rfl
  | .app f args => by
    rw [draft, Draft.build, Symbol.named_name, buildAll_draftAll args]
    rfl

theorem buildAll_draftAll : (ts : List Term) → Draft.buildAll (draftAll ts) = .ok ts
  | [] => rfl
  | t :: ts => by
    rw [draftAll, Draft.buildAll, build_draft t, buildAll_draftAll ts]
    rfl
end

mutual
theorem Draft.depth_toJson : (d : Draft) → d.toJson.depth = d.depth
  | .var _ => rfl
  | .const _ => rfl
  | .app _ args => by
    have hargs := depthAll_toJsonAll args
    simp [toJson, depth, Json.ofFields, Json.ofString, Json.depth, Json.depthAll, Json.depthFields,
      hargs]

theorem Draft.depthAll_toJsonAll :
    (ds : List Draft) → Json.depthAll (Draft.toJsonAll ds) = Draft.depthAll ds
  | [] => rfl
  | d :: ds => by
    rw [Draft.toJsonAll, Json.depthAll, depth_toJson d, depthAll_toJsonAll ds, Draft.depthAll]
end

end Term

namespace Formula

mutual
/-- The formula as its text lays it out. -/
def draft : Formula → Draft
  | .predicate p args v => .predicate p.name (Term.draftAll args) (some v)
  | .operator k operands v => .operator k (draftAll operands) (some v.toJson)

def draftAll : List Formula → List Draft
  | [] => []
  | f :: fs => draft f :: draftAll fs
end

mutual
theorem toJson_draft : (f : Formula) → f.draft.toJson = f.toJson
  | .predicate p args v => by
    rw [draft, Draft.toJson, Term.toJsonAll_draftAll args, toJson, bodyToJson]
    rfl
  | .operator k operands v => by
    rw [draft, Draft.toJson, toJsonAll_draftAll operands, toJson, bodyToJson]
    rfl

theorem toJsonAll_draftAll : (fs : List Formula) → Draft.toJsonAll (draftAll fs) = toJsonAll fs
  | [] => rfl
  | f :: fs => by
    rw [draftAll, Draft.toJsonAll, toJson_draft f, toJsonAll_draftAll fs, toJsonAll, toJson]
end

mutual
theorem build_draft : (f : Formula) → f.WellFormed → f.draft.build = .ok f
  | .predicate p args v, _ => by
    rw [draft, Draft.build, Symbol.named_name, Term.buildAll_draftAll args]
    rfl
  | .operator k operands v, h => by
    obtain ⟨hk, rfl, hoperands⟩ := h
    rw [draft, Draft.build, buildAll_draftAll operands hoperands]
    exact connect?_eq_ok hk

theorem buildAll_draftAll :
    (fs : List Formula) → AllWellFormed fs → Draft.buildAll (draftAll fs) = .ok fs
  | [], _ => rfl
  | f :: fs, h => by
    rw [draftAll, Draft.buildAll, build_draft f h.1, buildAll_draftAll fs h.2]
    rfl
end

mutual
theorem depth_draft : (f : Formula) → f.draft.depth = f.toJson.depth
  | .predicate p args v => by
    have hargs := Term.Draft.depthAll_toJsonAll (Term.draftAll args)
    rw [Term.toJsonAll_draftAll] at hargs
    simp [draft, Draft.depth, toJson, tagged, bodyToJson, Json.ofFields, Json.ofString, Json.depth,
      Json.depthFields, Symbol.toJson, TruthValue.toJson, hargs]
  | .operator k operands v => by
    have hoperands := depthAll_draftAll operands
    simp [draft, Draft.depth, toJson, tagged, bodyToJson, Json.ofFields, Json.ofString, Json.depth,
      Json.depthFields, Connective.toJson, TruthValue.toJson, hoperands]

theorem depthAll_draftAll :
    (fs : List Formula) → Draft.depthAll (draftAll fs) = Json.depthAll (toJsonAll fs)
  | [] => rfl
  | f :: fs => by
    rw [draftAll, Draft.depthAll, depth_draft f, depthAll_draftAll fs, toJsonAll, Json.depthAll,
      toJson]
end

mutual
theorem isWritable_claims : (f : Formula) → ∀ claim ∈ f.draft.claims, claim.isWritable
  | .predicate p args v => nofun
  | .operator k operands v => by
    rw [draft, Draft.claims, List.forall_mem_append]
    exact ⟨isWritable_claimsAll operands, List.forall_mem_singleton.2 rfl⟩

theorem isWritable_claimsAll :
    (fs : List Formula) → ∀ claim ∈ Draft.claimsAll (draftAll fs), claim.isWritable
  | [] => nofun
  | f :: fs => by
    rw [draftAll, Draft.claimsAll, List.forall_mem_append]
    exact ⟨isWritable_claims f, isWritable_claimsAll fs⟩
end

end Formula

/-- Within its depth, a term is read back from its text. -/
theorem Term.outcome_readText_text (t u : Term) :
    (Json.readText ofJson t.toJson.text).outcome = .ok u ↔
      u = t ∧ t.toJson.depth ≤ Json.depthLimit := by
  have hwritable : t.toJson.isWritable := t.toJson_draft ▸ t.draft.isWritable_toJson
  have hdepth : t.draft.depth = t.toJson.depth := by rw [← t.draft.depth_toJson, t.toJson_draft]
  rw [Json.outcome_readText (Json.Document.ofText_text hwritable), ← hdepth, ← t.toJson_draft]
  constructor
  · intro h
    have hle := t.draft.depth_le_of_outcome h
    rw [t.draft.outcome_ofJson hle, t.build_draft] at h
    cases h
    exact ⟨rfl, hle⟩
  · rintro ⟨rfl, hle⟩
    rw [u.draft.outcome_ofJson hle, u.build_draft]
    rfl

/-- Within its depth, a well-formed formula is read back from its text. -/
theorem Formula.outcome_readText_text {f : Formula} (hf : f.WellFormed) (g : Formula) :
    (Json.readText ofJson f.toJson.text).outcome = .ok g ↔
      g = f ∧ f.toJson.depth ≤ Json.depthLimit := by
  have hwritable : f.toJson.isWritable :=
    f.toJson_draft ▸ f.draft.isWritable_toJson_iff.2 f.isWritable_claims
  have htext := Json.Document.ofText_text hwritable
  have hsound : f.draft.toJson.isSound :=
    f.toJson_draft.symm ▸ Json.Document.isSound_of_complete htext
  rw [Json.outcome_readText htext, ← f.depth_draft, ← f.toJson_draft]
  constructor
  · intro h
    have hle := f.draft.depth_le_of_outcome h
    rw [f.draft.outcome_ofJson hle hsound, f.build_draft hf] at h
    cases h
    exact ⟨rfl, hle⟩
  · rintro ⟨rfl, hle⟩
    rw [g.draft.outcome_ofJson hle hsound, g.build_draft hf]
    rfl

namespace Formula

/-- Terms, and formulas that can be constructed, are read from their texts exactly if
these are nested no deeper than is read.  What is read is what was written, with all its
values, and is written the same again. -/
theorem read_back :
    (∀ t : Term,
      ((∃ u, (Json.readText Term.ofJson t.toJson.text).outcome = .ok u) ↔
        t.toJson.depth ≤ Json.depthLimit) ∧
      ∀ u, (Json.readText Term.ofJson t.toJson.text).outcome = .ok u →
        u = t ∧ u.toJson.text = t.toJson.text) ∧
    ∀ f : Formula, Reachable f →
      ((∃ g, (Json.readText ofJson f.toJson.text).outcome = .ok g) ↔
        f.toJson.depth ≤ Json.depthLimit) ∧
      ∀ g, (Json.readText ofJson f.toJson.text).outcome = .ok g →
        g = f ∧ g.toJson.text = f.toJson.text := by
  constructor
  · intro t
    refine ⟨⟨fun ⟨u, h⟩ => ?_, fun h => ⟨t, (t.outcome_readText_text t).2 ⟨rfl, h⟩⟩⟩, fun u h => ?_⟩
    · exact ((t.outcome_readText_text u).1 h).2
    · obtain ⟨rfl, -⟩ := (t.outcome_readText_text u).1 h
      exact ⟨rfl, rfl⟩
  · intro f hf
    have hread := outcome_readText_text hf.wellFormed
    refine ⟨⟨fun ⟨g, h⟩ => ((hread g).1 h).2, fun h => ⟨f, (hread f).2 ⟨rfl, h⟩⟩⟩, fun g h => ?_⟩
    obtain ⟨rfl, -⟩ := (hread g).1 h
    exact ⟨rfl, rfl⟩

/-- Names that need escapes, empty lists, and all three values. -/
theorem read_back_escapes :
    let p : Symbol := ⟨"\"\\\x01\x08/\x7fé", by decide⟩
    let f : Formula := .implies (.and []) (.or [.predicate p [] .false, .atom p [.app p [], .const p],
      .not (.predicate p [.var ⟨p⟩] .true)])
    (Json.readText ofJson f.toJson.text).outcome = .ok f ∧ f.value = .unknown ∧
      (Json.readText Term.ofJson (Term.app p []).toJson.text).outcome = .ok (.app p []) := by
  intro p f
  have hf : Reachable f := reachable_of_wellFormed
    ⟨by decide, rfl, ⟨by decide, rfl, trivial⟩,
      ⟨by decide, rfl, trivial, trivial, ⟨by decide, rfl, trivial, trivial⟩, trivial⟩, trivial⟩
  obtain ⟨hread, hsame⟩ := read_back.2 f hf
  obtain ⟨g, hg⟩ := hread.2 (by decide +kernel)
  obtain ⟨hread', hsame'⟩ := read_back.1 (.app p [])
  obtain ⟨u, hu⟩ := hread'.2 (by decide +kernel)
  rw [(hsame g hg).1] at hg
  rw [(hsame' u hu).1] at hu
  exact ⟨hg, rfl, hu⟩

end Formula
end Unification
