import Unification.Formula.Lemmas
import Unification.Json.Formula

/-!
# What can be read

Whatever a text says, a formula that is read from it is well formed: an operator is
connected from the operands that were read, and a value that the text gives for it is
never looked at (`Formula.wellFormed_ofJson`).
-/

namespace Unification

namespace Reading

variable {α β : Type}

theorem outcome_bind_eq_ok_iff {m : Reading α} {f : α → Reading β} {b : β} :
    (m >>= f).outcome = .ok b ↔ ∃ a, m.outcome = .ok a ∧ (f a).outcome = .ok b := by
  rw [outcome_bind]
  cases m.outcome <;> simp [Except.bind]

theorem outcome_all_eq_ok {read : Json → Reading α} {vs : List Json} {as : List α}
    (h : (all read vs).outcome = .ok as) : ∀ a ∈ as, ∃ v, (read v).outcome = .ok a := by
  induction vs generalizing as with
  | nil =>
    cases h
    exact fun a ha => absurd ha List.not_mem_nil
  | cons v vs ih =>
    obtain ⟨a, ha, h⟩ := outcome_bind_eq_ok_iff.1 h
    obtain ⟨as, has, h⟩ := outcome_bind_eq_ok_iff.1 h
    cases h
    exact List.forall_mem_cons.2 ⟨⟨v, ha⟩, ih has⟩

/-- What every field keeps is kept by all of them. -/
theorem outcome_fields_keeps {known : String → Option (α → Json → Reading α)} {P : α → Prop}
    (hkeeps : ∀ key read, known key = some read → ∀ a v b, P a → (read a v).outcome = .ok b → P b)
    {a b : α} {fs : List (Option String × Json)} (ha : P a)
    (h : (fields known a fs).outcome = .ok b) : P b := by
  induction fs generalizing a with
  | nil =>
    cases h
    exact ha
  | cons field fs ih =>
    obtain ⟨key?, v⟩ := field
    cases key? with
    | none => cases h
    | some key =>
      rw [fields] at h
      split at h
      · next read hread =>
        obtain ⟨a', ha', h⟩ := outcome_bind_eq_ok_iff.1 h
        exact ih (hkeeps key read hread a v a' ha ha') h
      · split at h
        · exact ih ha h
        · cases h

theorem outcome_once_eq_ok {already : Option β} {read : Json → Reading β} {v : Json} {b : β}
    (h : (once already read v).outcome = .ok b) : (read v).outcome = .ok b := by
  rw [once] at h
  split at h
  · cases h
  · exact h

theorem outcome_last_eq_ok {γ : Type} {a b : α} {extra : List γ}
    (h : (last a extra).outcome = .ok b) : a = b := by
  rw [last] at h
  split at h
  · cases h; rfl
  · cases h

theorem outcome_ofExcept_eq_ok {e : Except Error α} {a : α} (h : (ofExcept e).outcome = .ok a) :
    e = .ok a := by
  cases e with
  | error cause => cases h
  | ok b => cases h; rfl

end Reading

namespace Formula

open Reading

variable {f : Formula} {j : Json} {depth : Nat} {k : Connective} {operands : List Formula}

theorem wellFormed_of_connect? (h : connect? k operands = .ok f)
    (hoperands : ∀ g ∈ operands, g.WellFormed) : f.WellFormed := by
  obtain ⟨hk, rfl⟩ := connect?_eq_ok_iff.1 h
  exact wellFormed_connect hk hoperands

theorem wellFormed_predicateOfJson (h : (predicateOfJson depth j).outcome = .ok f) :
    f.WellFormed := by
  unfold predicateOfJson at h
  split at h
  · obtain ⟨known, -, h⟩ := outcome_bind_eq_ok_iff.1 h
    split at h
    · cases h; trivial
    · cases h
  · obtain ⟨p, -, h⟩ := outcome_bind_eq_ok_iff.1 h
    split at h
    · cases h
    · obtain ⟨args, -, h⟩ := outcome_bind_eq_ok_iff.1 h
      split at h
      · cases h; trivial
      · obtain ⟨v, -, h⟩ := outcome_bind_eq_ok_iff.1 h
        rw [← outcome_last_eq_ok h]
        trivial
  · cases h

/-- An operator is connected from the operands that were read. -/
theorem wellFormed_readOperator {readOperands : Json → Reading (List Formula)}
    (hread : ∀ j fs, (readOperands j).outcome = .ok fs → ∀ g ∈ fs, g.WellFormed)
    (h : (readOperator readOperands depth j).outcome = .ok f) : f.WellFormed := by
  unfold readOperator at h
  split at h
  · obtain ⟨known, hknown, h⟩ := outcome_bind_eq_ok_iff.1 h
    have hoperands : ∀ fs ∈ known.operands?, ∀ g ∈ fs, g.WellFormed := by
      refine outcome_fields_keeps (P := fun r => ∀ fs ∈ r.operands?, ∀ g ∈ fs, g.WellFormed)
        (fun key read hkey r v r' hr h => ?_) nofun hknown
      unfold OperatorFields.read at hkey
      split at hkey
      · cases hkey
        obtain ⟨k, -, h⟩ := outcome_bind_eq_ok_iff.1 h
        cases h
        exact hr
      · cases hkey
        obtain ⟨fs, hfs, h⟩ := outcome_bind_eq_ok_iff.1 h
        cases h
        rintro _ ⟨⟩
        exact hread v fs (outcome_once_eq_ok hfs)
      · cases hkey
    split at h
    · next k fs _ hfs => exact wellFormed_of_connect? (outcome_ofExcept_eq_ok h) (hoperands fs hfs)
    · cases h
  · obtain ⟨k, -, h⟩ := outcome_bind_eq_ok_iff.1 h
    split at h
    · cases h
    · obtain ⟨fs, hfs, h⟩ := outcome_bind_eq_ok_iff.1 h
      obtain ⟨fs', hfs', h⟩ := outcome_bind_eq_ok_iff.1 h
      rw [← outcome_last_eq_ok hfs'] at h
      exact wellFormed_of_connect? (outcome_ofExcept_eq_ok h) (hread _ fs hfs)
  · cases h

mutual
theorem wellFormed_ofJson {f : Formula} :
    (depth : Nat) → (j : Json) → (ofJson depth j).outcome = .ok f → f.WellFormed
  | 0, j, h => by
    unfold ofJson at h
    cases h
  | depth + 1, j, h => by
    unfold ofJson at h
    split at h
    · next depth' key v extra hdepth =>
      cases hdepth
      dsimp only at h
      split at h
      · obtain ⟨g, hg, h⟩ := outcome_bind_eq_ok_iff.1 h
        rw [← outcome_last_eq_ok h]
        exact wellFormed_predicateOfJson hg
      · obtain ⟨g, hg, h⟩ := outcome_bind_eq_ok_iff.1 h
        rw [← outcome_last_eq_ok h]
        exact wellFormed_operatorOfJson depth v hg
      · cases h
    · cases h

theorem wellFormed_operatorOfJson {f : Formula} :
    (depth : Nat) → (j : Json) → (operatorOfJson depth j).outcome = .ok f → f.WellFormed
  | 0, j, h => by
    unfold operatorOfJson at h
    exact wellFormed_readOperator (fun j fs h => by cases h) h
  | 1, j, h => by
    unfold operatorOfJson at h
    exact wellFormed_readOperator (fun j fs h => by cases h) h
  | depth + 2, j, h => by
    unfold operatorOfJson at h
    refine wellFormed_readOperator (fun j fs h => ?_) h
    split at h
    · intro g hg
      obtain ⟨v, hv⟩ := outcome_all_eq_ok h g hg
      exact wellFormed_ofJson depth v hv
    · cases h
end

end Formula
end Unification
