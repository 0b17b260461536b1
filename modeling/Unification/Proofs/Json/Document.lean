import Unification.Json.Document
import Unification.Proofs.Json.Token

/-!
# Documents read back

A value that can be written is read back from its text (`Document.ofText_text`): its
tokens are spaced, and they take the machine from waiting for a value to having read
this one.

The other way round, a text that is complete has no fault anywhere
(`Document.isSound_of_complete`): a fault stops the machine, and what is kept while it
runs is sound.
-/

namespace Unification
namespace Json

mutual
/-- The value has a text: its numbers are numbers, its strings and keys have texts, and
no fault stands in it. -/
def isWritable : Json → Bool
  | .number lexeme => Number.scan? lexeme.toList = some (lexeme, [])
  | .string text? => text?.isSome
  | .array items => allWritable items
  | .object fields => allFieldsWritable fields
  | .defect => false
  | _ => true

def allWritable : List Json → Bool
  | [] => true
  | v :: vs => isWritable v && allWritable vs

def allFieldsWritable : List (Option String × Json) → Bool
  | [] => true
  | (key, v) :: fields => key.isSome && isWritable v && allFieldsWritable fields
end

/-! ## The tokens of a value -/

section

open Token

theorem spaced_cons {t : Token} {ts : List Token} (ht : t.IsWritable)
    (hnumber : ∀ lexeme, t ≠ .number lexeme) (hts : Spaced ts) : Spaced (t :: ts) :=
  ⟨ht, fun lexeme h => absurd h (hnumber lexeme), hts⟩

mutual
theorem spaced_tokens {ts : List Token} (hts : Spaced ts) (hnext : ∀ u ∈ ts.head?, u.Separates) :
    (j : Json) → j.isWritable → Spaced (j.tokens ts)
  | .null, _ => spaced_cons (t := .null) trivial nofun hts
  | .bool b, _ => spaced_cons (t := .bool b) trivial nofun hts
  | .number _, h => ⟨of_decide_eq_true (p := _ = _) h, fun _ _ => hnext, hts⟩
  | .string text?, h => spaced_cons (t := .string text?) h nofun hts
  | .array items, h => by
    have hclose : Spaced (.closeArray :: ts) := spaced_cons trivial nofun hts
    refine spaced_cons (t := .openArray) trivial nofun (spaced_itemsTokens hclose ?_ items h)
    rintro _ ⟨⟩
    exact .inr (.inl rfl)
  | .object fields, h => by
    have hclose : Spaced (.closeObject :: ts) := spaced_cons trivial nofun hts
    refine spaced_cons (t := .openObject) trivial nofun (spaced_fieldsTokens hclose ?_ fields h)
    rintro _ ⟨⟩
    exact .inr (.inr rfl)

theorem spaced_itemsTokens {ts : List Token} (hts : Spaced ts)
    (hnext : ∀ u ∈ ts.head?, u.Separates) :
    (vs : List Json) → allWritable vs → Spaced (itemsTokens vs ts)
  | [], _ => hts
  | [v], h => spaced_tokens hts hnext v (Bool.and_eq_true_iff.1 h).1
  | v :: w :: vs, h => by
    obtain ⟨hv, hvs⟩ := Bool.and_eq_true_iff.1 h
    have hrest := spaced_itemsTokens hts hnext (w :: vs) hvs
    refine spaced_tokens (spaced_cons (t := .comma) trivial nofun hrest) ?_ v hv
    rintro _ ⟨⟩
    exact .inl rfl

theorem spaced_fieldsTokens {ts : List Token} (hts : Spaced ts)
    (hnext : ∀ u ∈ ts.head?, u.Separates) :
    (fields : List (Option String × Json)) → allFieldsWritable fields →
      Spaced (fieldsTokens fields ts)
  | [], _ => hts
  | [(key, v)], h => by
    simp only [allFieldsWritable, Bool.and_eq_true, and_true] at h
    have hv := spaced_tokens hts hnext v h.2
    exact spaced_cons h.1 nofun (spaced_cons (t := .colon) trivial nofun hv)
  | (key, v) :: field :: fields, h => by
    rw [allFieldsWritable, Bool.and_eq_true, Bool.and_eq_true] at h
    obtain ⟨⟨hkey, hv⟩, hfields⟩ := h
    have hrest := spaced_fieldsTokens hts hnext (field :: fields) hfields
    refine spaced_cons hkey nofun (spaced_cons (t := .colon) trivial nofun ?_)
    refine spaced_tokens (spaced_cons (t := .comma) trivial nofun hrest) ?_ v hv
    rintro _ ⟨⟩
    exact .inl rfl
end

end

/-! ## The machine on the tokens of a value -/

namespace Document

variable {ts : List Token} {stack : List Frame}

/-- The first item of an array is a value like any other. -/
theorem foldl_firstItem (j : Json) :
    (j.tokens ts).foldl step (.firstItem stack) =
      (j.tokens ts).foldl step (.value (.items [] :: stack)) := by
  cases j <;> rfl

mutual
theorem foldl_tokens {ts : List Token} {stack : List Frame} :
    (j : Json) → j.isWritable →
      (j.tokens ts).foldl step (.value stack) = ts.foldl step (.after j stack)
  | .null, _ => rfl
  | .bool _, _ => rfl
  | .number _, _ => rfl
  | .string _, _ => rfl
  | .array [], _ => rfl
  | .array (v :: vs), h => by
    refine .trans ?_ (foldl_itemsTokens [] (v :: vs) nofun h)
    cases vs <;> exact foldl_firstItem v
  | .object [], _ => rfl
  | .object (field :: fields), h => by
    refine .trans ?_ (foldl_fieldsTokens [] (field :: fields) nofun h)
    cases fields <;> rfl

/-- The rest of an array, from some item on. -/
theorem foldl_itemsTokens {ts : List Token} {stack : List Frame} (before : List Json) :
    (vs : List Json) → vs ≠ [] → allWritable vs →
      (itemsTokens vs (.closeArray :: ts)).foldl step (.value (.items before :: stack)) =
        ts.foldl step (.after (.array (before.reverse ++ vs)) stack)
  | [v], _, h => by
    rw [itemsTokens, foldl_tokens v (Bool.and_eq_true_iff.1 h).1, List.foldl_cons, step,
      Frame.close, List.reverse_cons]
  | v :: w :: vs, _, h => by
    obtain ⟨hv, hvs⟩ := Bool.and_eq_true_iff.1 h
    rw [itemsTokens, foldl_tokens v hv, List.foldl_cons, step,
      foldl_itemsTokens (v :: before) (w :: vs) nofun hvs, List.reverse_cons, List.append_assoc,
      List.singleton_append]

/-- The rest of an object, from some field on. -/
theorem foldl_fieldsTokens {ts : List Token} {stack : List Frame}
    (before : List (Option String × Json)) :
    (fields : List (Option String × Json)) → fields ≠ [] → allFieldsWritable fields →
      (fieldsTokens fields (.closeObject :: ts)).foldl step (.key before stack) =
        ts.foldl step (.after (.object (before.reverse ++ fields)) stack)
  | [(key, v)], _, h => by
    rw [allFieldsWritable, Bool.and_eq_true, Bool.and_eq_true] at h
    rw [fieldsTokens, List.foldl_cons, step, List.foldl_cons, step, foldl_tokens v h.1.2,
      List.foldl_cons, step, Frame.close, List.reverse_cons]
  | (key, v) :: field :: fields, _, h => by
    rw [allFieldsWritable, Bool.and_eq_true, Bool.and_eq_true] at h
    obtain ⟨⟨-, hv⟩, hfields⟩ := h
    rw [fieldsTokens, List.foldl_cons, step, List.foldl_cons, step, foldl_tokens v hv,
      List.foldl_cons, step, foldl_fieldsTokens ((key, v) :: before) (field :: fields) nofun hfields,
      List.reverse_cons, List.append_assoc, List.singleton_append]
end

/-- A value that can be written is read back from its text, and nothing is left over. -/
theorem ofText_text {j : Json} (h : j.isWritable) : ofText j.text = ⟨j, true⟩ := by
  have hspell : j.text.toList = Token.spell (j.tokens []) := by
    simp [text, Token.spell, List.flatMap_map]
  have hnil : Token.Spaced [] := trivial
  have hspaced := spaced_tokens hnil (by simp) j h
  rw [ofText, hspell, Token.fold_spell hspaced, foldl_tokens j h]
  rfl

/-! ## A complete text has no fault -/

end Document

theorem allSound_iff {vs : List Json} : allSound vs ↔ ∀ v ∈ vs, v.isSound := by
  induction vs with
  | nil => exact ⟨nofun, fun _ => rfl⟩
  | cons v vs ih => rw [allSound, Bool.and_eq_true, ih, List.forall_mem_cons]

theorem allFieldsSound_iff {fields : List (Option String × Json)} :
    allFieldsSound fields ↔ ∀ field ∈ fields, field.2.isSound := by
  induction fields with
  | nil => exact ⟨nofun, fun _ => rfl⟩
  | cons field fields ih => rw [allFieldsSound, Bool.and_eq_true, ih, List.forall_mem_cons]

/-- What the frame holds so far is sound. -/
def Frame.IsSound : Frame → Prop
  | .items before => allSound before
  | .fields before _ => allFieldsSound before

theorem Frame.isSound_close {v : Json} {F : Frame} (hv : v.isSound) (hF : F.IsSound) :
    (F.close v).isSound := by
  cases F with
  | items before =>
    have hall : ∀ w ∈ v :: before, w.isSound := List.forall_mem_cons.2 ⟨hv, allSound_iff.1 hF⟩
    exact allSound_iff.2 fun w hw => hall w (List.mem_reverse.1 hw)
  | fields before key =>
    have hall : ∀ field ∈ (key, v) :: before, field.2.isSound :=
      List.forall_mem_cons.2 ⟨hv, allFieldsSound_iff.1 hF⟩
    exact allFieldsSound_iff.2 fun field hfield => hall field (List.mem_reverse.1 hfield)

namespace Document

/-- What the machine has read so far is sound, unless it has stopped. -/
def State.IsSound : State → Prop
  | .value stack | .firstItem stack | .firstKey stack => ∀ F ∈ stack, F.IsSound
  | .key before stack | .colon before _ stack =>
    allFieldsSound before ∧ ∀ F ∈ stack, F.IsSound
  | .after v stack => v.isSound ∧ ∀ F ∈ stack, F.IsSound
  | .stopped _ => True

theorem isSound_start {stack : List Frame} (h : ∀ F ∈ stack, F.IsSound) (t : Token) :
    (start stack t).IsSound := by
  cases t with
  | openArray => exact h
  | openObject => exact h
  | null => exact ⟨rfl, h⟩
  | bool b => exact ⟨rfl, h⟩
  | number lexeme => exact ⟨rfl, h⟩
  | string text? => exact ⟨rfl, h⟩
  | closeArray | closeObject | comma | colon | invalid => trivial

theorem isSound_step (s : State) (t : Token) (h : s.IsSound) : (step s t).IsSound := by
  unfold step
  split
  · exact isSound_start h t
  · exact ⟨rfl, h⟩
  · have hitems : (Frame.items []).IsSound := rfl
    exact isSound_start (List.forall_mem_cons.2 ⟨hitems, h⟩) t
  · exact ⟨rfl, h⟩
  · exact ⟨rfl, h⟩
  · trivial
  · exact h
  · trivial
  · exact List.forall_mem_cons.2 h
  · trivial
  · next v before stack =>
    obtain ⟨hv, h⟩ := h
    obtain ⟨hF, h⟩ := List.forall_mem_cons.1 h
    exact List.forall_mem_cons.2 ⟨Bool.and_eq_true_iff.2 ⟨hv, hF⟩, h⟩
  · next v before stack =>
    obtain ⟨hv, h⟩ := h
    obtain ⟨hF, h⟩ := List.forall_mem_cons.1 h
    exact ⟨Frame.isSound_close hv hF, h⟩
  · trivial
  · next v before key stack =>
    obtain ⟨hv, h⟩ := h
    obtain ⟨hF, h⟩ := List.forall_mem_cons.1 h
    exact ⟨Bool.and_eq_true_iff.2 ⟨hv, hF⟩, h⟩
  · next v before key stack =>
    obtain ⟨hv, h⟩ := h
    obtain ⟨hF, h⟩ := List.forall_mem_cons.1 h
    exact ⟨Frame.isSound_close hv hF, h⟩
  · trivial
  · trivial
  · trivial

/-- Where a text is one whole value, no fault stands in the value. -/
theorem isSound_of_complete {text : String} {j : Json} (h : ofText text = ⟨j, true⟩) :
    j.isSound := by
  have hstart : (State.value []).IsSound := List.forall_mem_nil _
  have hsound : (Token.fold step (.value []) text.toList).IsSound :=
    Token.fold_keeps isSound_step hstart text.toList
  unfold ofText finish at h
  split at h
  · next v heq =>
    cases h
    rw [heq] at hsound
    exact hsound.1
  · split at h <;> cases h

end Document
end Json
end Unification
