import Unification.Substitution.Lemmas

/-!
# Equations between terms

An equation is a pair of terms.  Two terms that are no variables have a common
form only if they agree at the head, and then the equation says the same as
those between their arguments: `Equation.decompose`.

Work on a list of equations descends in `Equation.Smaller`: the fully replaced
sides have fewer distinct variables, or no more of them and fewer symbols.
-/

namespace Unification

abbrev Equation := Term × Term

namespace Equation

/-- The equations between the parts of two terms that are no variables. -/
def decompose : Term → Term → Except UnificationError (List Equation)
  | .const c, .const d => if c = d then .ok [] else .error (.symbolClash c d)
  | .app f ss, .app g ts =>
    if f ≠ g then .error (.symbolClash f g)
    else if ss.length ≠ ts.length then .error (.arityMismatch ss.length ts.length)
    else .ok (ss.zip ts)
  | s, t => .error (.variantMismatch s.display t.display)

/-- The variables of the fully replaced sides, in order of first occurrence. -/
def unknowns (σ : Substitution) (es : List Equation) : List Variable :=
  es.foldl (fun seen e => (e.2.replace σ).collect ((e.1.replace σ).collect seen)) []

/-- The number of symbols in the fully replaced sides. -/
def weight (σ : Substitution) (es : List Equation) : Nat :=
  es.foldr (fun e n => (e.1.replace σ).size + (e.2.replace σ).size + n) 0

theorem weight_cons (σ : Substitution) (e : Equation) (es : List Equation) :
    weight σ (e :: es) = (e.1.replace σ).size + (e.2.replace σ).size + weight σ es := rfl

theorem weight_append (σ : Substitution) (es fs : List Equation) :
    weight σ (es ++ fs) = weight σ es + weight σ fs := by
  induction es with
  | nil => exact (Nat.zero_add _).symm
  | cons e es ih =>
    rw [List.cons_append, weight_cons, weight_cons, ih]
    omega

theorem weight_zip_le (σ : Substitution) (ss ts : List Term) :
    weight σ (ss.zip ts) ≤
      Term.sizeAll (ss.map (·.replace σ)) + Term.sizeAll (ts.map (·.replace σ)) := by
  induction ss generalizing ts with
  | nil => exact Nat.zero_le _
  | cons s ss ih =>
    cases ts with
    | nil => exact Nat.zero_le _
    | cons t ts =>
      have := ih ts
      simp only [List.zip_cons_cons, weight_cons, List.map_cons, Term.sizeAll]
      omega

theorem size_replace_app (σ : Substitution) (f : Symbol) (args : List Term) :
    ((Term.app f args).replace σ).size = Term.sizeAll (args.map (·.replace σ)) + 1 := by
  rw [Term.replace_app, Term.size]

theorem foldl_unknowns {σ : Substitution} {es : List Equation} {seen : List Variable}
    (h : seen.Nodup) :
    let vs := es.foldl (fun seen e => (e.2.replace σ).collect ((e.1.replace σ).collect seen)) seen
    vs.Nodup ∧ ∀ v, v ∈ vs ↔ v ∈ seen ∨ ∃ e ∈ es, v ∈ e.1.replace σ ∨ v ∈ e.2.replace σ := by
  induction es generalizing seen with
  | nil => simpa using h
  | cons e es ih =>
    obtain ⟨hnodup, hmem⟩ := ih (Term.nodup_collect (Term.nodup_collect h (e.1.replace σ))
      (e.2.replace σ))
    refine ⟨hnodup, fun v => (hmem v).trans ?_⟩
    simp only [Term.mem_collect, List.mem_cons, or_and_right, exists_or, exists_eq_left, or_assoc]

theorem nodup_unknowns (σ : Substitution) (es : List Equation) : (unknowns σ es).Nodup :=
  (foldl_unknowns List.nodup_nil).1

theorem mem_unknowns {σ : Substitution} {es : List Equation} {v : Variable} :
    v ∈ unknowns σ es ↔ ∃ e ∈ es, v ∈ e.1.replace σ ∨ v ∈ e.2.replace σ := by
  rw [unknowns, (foldl_unknowns List.nodup_nil).2 v]
  simp

section

variable {f g : Symbol} {ss ts : List Term}

theorem decompose_app_of_ne (h : f ≠ g) :
    decompose (.app f ss) (.app g ts) = .error (.symbolClash f g) := if_pos h

theorem decompose_app_of_length_ne (h : ss.length ≠ ts.length) :
    decompose (.app f ss) (.app f ts) = .error (.arityMismatch ss.length ts.length) := by
  rw [decompose, if_neg (not_not_intro rfl), if_pos h]

theorem decompose_app_of_length_eq (h : ss.length = ts.length) :
    decompose (.app f ss) (.app f ts) = .ok (ss.zip ts) := by
  rw [decompose, if_neg (not_not_intro rfl), if_neg (not_not_intro h)]

end

/-- What it takes for two terms that are no variables to have equations between
their parts. -/
theorem decompose_eq_ok {s t : Term} {es : List Equation} (h : decompose s t = .ok es) :
    (∃ c, s = .const c ∧ t = .const c ∧ es = []) ∨
      ∃ f ss ts, s = .app f ss ∧ t = .app f ts ∧ ss.length = ts.length ∧ es = ss.zip ts := by
  unfold decompose at h
  split at h
  · next c d =>
    split at h
    · next hc => cases h; exact .inl ⟨c, rfl, hc ▸ rfl, rfl⟩
    · cases h
  · next f ss g ts =>
    split at h
    · cases h
    · next hf =>
      split at h
      · cases h
      · next hlen =>
        cases h
        exact .inr ⟨f, ss, ts, rfl, Classical.not_not.1 hf ▸ rfl, Classical.not_not.1 hlen, rfl⟩
  · cases h

theorem weight_decompose_lt {s t : Term} {es : List Equation} (h : decompose s t = .ok es)
    (σ : Substitution) : weight σ es < (s.replace σ).size + (t.replace σ).size := by
  rcases decompose_eq_ok h with ⟨c, rfl, rfl, rfl⟩ | ⟨f, ss, ts, rfl, rfl, _, rfl⟩
  · simp [weight, Term.size]
  · have := weight_zip_le σ ss ts
    simp only [size_replace_app]
    omega

theorem mem_of_mem_decompose {s t : Term} {es : List Equation} (h : decompose s t = .ok es)
    (σ : Substitution) {e : Equation} (he : e ∈ es) (v : Variable) :
    (v ∈ e.1.replace σ → v ∈ s.replace σ) ∧ (v ∈ e.2.replace σ → v ∈ t.replace σ) := by
  rcases decompose_eq_ok h with ⟨c, rfl, rfl, rfl⟩ | ⟨f, ss, ts, rfl, rfl, _, rfl⟩
  · cases he
  · obtain ⟨h₁, h₂⟩ := List.of_mem_zip he
    rw [Term.replace_app, Term.replace_app, Term.mem_app, Term.mem_app]
    exact ⟨fun hv => ⟨_, List.mem_map.2 ⟨e.1, h₁, rfl⟩, hv⟩,
      fun hv => ⟨_, List.mem_map.2 ⟨e.2, h₂, rfl⟩, hv⟩⟩

/-- The order that work on equations descends in. -/
def Smaller (σ' : Substitution) (es' : List Equation) (σ : Substitution) (es : List Equation) :
    Prop :=
  Prod.Lex (· < ·) (· < ·) ((unknowns σ' es').length, weight σ' es')
    ((unknowns σ es).length, weight σ es)

theorem smaller_of_subset {σ' σ : Substitution} {es' es : List Equation}
    (hsub : unknowns σ' es' ⊆ unknowns σ es) (hweight : weight σ' es' < weight σ es) :
    Smaller σ' es' σ es :=
  Prod.Lex.right' _ ((nodup_unknowns σ' es').length_le_of_subset hsub) hweight

theorem smaller_of_ssubset {σ' σ : Substitution} {es' es : List Equation} {v : Variable}
    (hsub : unknowns σ' es' ⊆ unknowns σ es) (hv : v ∈ unknowns σ es) (hv' : v ∉ unknowns σ' es') :
    Smaller σ' es' σ es :=
  .left _ _ ((List.nodup_cons.2 ⟨hv', nodup_unknowns σ' es'⟩).length_le_of_subset
    (List.cons_subset.2 ⟨hv, hsub⟩))

theorem smaller_tail (σ : Substitution) (e : Equation) (rest : List Equation) :
    Smaller σ rest σ (e :: rest) := by
  refine smaller_of_subset (fun v hv => ?_) ?_
  · obtain ⟨e', he', hv⟩ := mem_unknowns.1 hv
    exact mem_unknowns.2 ⟨e', List.mem_cons_of_mem e he', hv⟩
  · have := Term.size_pos (e.1.replace σ)
    rw [weight_cons]
    omega

end Equation

end Unification
