import Unification.Proofs.Problem
import Unification.Proofs.Unchecked.Renaming

/-!
# Unifying with a renamed copy

Two expressions that can be unified can still be unified once the right one has been
renamed apart, and what comes out has the old result as an instance
(`exists_unify_standardizeRight`).  The converse fails, which is why clauses are
renamed before they are resolved.

A renaming that starts with an empty record can be read backwards: every variable of
the copy has one origin, and a variable that the registry knew before is its own
(`exists_origin`).  Reading the copy through the origins and then through the old
unifier solves the new pair, since the left expression knows nothing of the copy.
-/

namespace Unification

namespace Renaming

variable {m : Renaming} {v w : Variable}

/-- The variable that this one replaces.  One that replaces none stays. -/
def origin (m : Renaming) (w : Variable) : Variable :=
  (VariableMap.lookup? (m.pairs.map Prod.swap) w).getD w

theorem keys_map_swap (pairs : VariableMap Variable) :
    VariableMap.keys (pairs.map Prod.swap) = pairs.map Prod.snd :=
  List.map_map

theorem origin_of_lookup? (hm : (m.pairs.map Prod.snd).Nodup) (h : m.lookup? v = some w) :
    m.origin w = v := by
  rw [← keys_map_swap] at hm
  have hmem : (w, v) ∈ m.pairs.map Prod.swap :=
    List.mem_map_of_mem (VariableMap.mem_of_lookup? h)
  rw [origin, (VariableMap.lookup?_eq_some_iff hm).2 hmem, Option.getD_some]

theorem origin_of_notMem (h : w ∉ m.pairs.map Prod.snd) : m.origin w = w := by
  rw [← keys_map_swap] at h
  rw [origin, VariableMap.lookup?_eq_none_iff.2 h, Option.getD_none]

end Renaming

namespace Expression

variable {e : Expression} {τ : Substitution} {θ : Variable → Term}

/-- The expression with the truth values of a formula forgotten. -/
def forget : Expression → Expression
  | term t => term t
  | formula f => formula f.forget

/-- Terms are equivalent when they are equal, formulas when they are equal but for
their truth values. -/
instance : Setoid Expression where
  r e e' := e.forget = e'.forget
  iseqv := ⟨fun _ => rfl, Eq.symm, Eq.trans⟩

/-- Replaces every bound variable, following bindings to the end. -/
def replace (e : Expression) (σ : Substitution) : Expression :=
  match e with
  | term t => term (t.replace σ)
  | formula f => formula (f.replace σ)

theorem replace_eq_subst (e : Expression) (σ : Substitution) : e.replace σ = e.subst σ.value := by
  cases e <;> rfl

/-- A solution does not see whether bindings have been followed. -/
theorem subst_replace (h : τ.SolvedBy θ) (e : Expression) : (e.replace τ).subst θ = e.subst θ := by
  rw [replace_eq_subst, subst_subst]
  exact subst_congr fun v _ => h.subst_value v

theorem subst_rename (g : Variable → Variable) (θ : Variable → Term) (e : Expression) :
    (e.rename g).subst θ = e.subst fun v => θ (g v) :=
  subst_subst (fun v => .var (g v)) θ e

/-! ## The copy -/

/-- A copy that shares no variables with anything the registry knows. -/
def standardized (e : Expression) (r : Registry) : Expression × Registry :=
  let (e, s) := e.standardizeApart ⟨∅, r⟩
  (e, s.registry)

/-- The same in machine words. -/
def standardized? (depth : Nat) (e : Expression) (r : Registry) : Option (Expression × Registry) :=
  ((e.standardize? depth).run ⟨∅, r⟩).map fun (e, s) => (e, s.registry)

theorem ends_standardized {r : Registry} (h : (e.standardized r).2.counter < UInt64.size) :
    Ends (e.standardized? · r) (e.standardized r) :=
  .map _ (ends_standardize h)

/-- Every variable of the copy has an origin, and what was known before is its own. -/
theorem exists_origin (e : Expression) (r : Registry) :
    ∃ origin : Variable → Variable,
      (∀ v : Variable, v.symbol ∈ r.symbols → origin v = v) ∧
      ∀ θ, (e.standardized r).1.subst (fun w => θ (origin w)) = e.subst θ := by
  let s : Renamer := ⟨∅, r⟩
  have hmakes := Renamer.makes_renameAll_empty r e.occurrences
  refine ⟨(s.renameAll e.occurrences).record.origin, fun v hv => ?_, fun θ => ?_⟩
  · exact Renaming.origin_of_notMem fun hmem => hmakes.unused v hmem hv
  · rw [standardized, standardizeApart_eq, subst_rename]
    refine subst_congr fun v hv => congrArg θ ?_
    obtain ⟨w, hw⟩ := s.exists_lookup?_renameAll hv
    rw [Renamer.apply_of_lookup? hw]
    exact Renaming.origin_of_lookup? hmakes.nodup hw

end Expression

namespace Pair

variable {p : Pair} {r : Registry} {σ : Substitution}

def left : Pair → Expression
  | terms s _ => .term s
  | formulas f _ => .formula f

def right : Pair → Expression
  | terms _ t => .term t
  | formulas _ g => .formula g

/-- The pair with its right expression renamed apart. -/
def standardizeRight (r : Registry) : Pair → Pair
  | terms s t => terms s (t.standardizeApart ⟨∅, r⟩).1
  | formulas f g => formulas f (g.standardizeApart ⟨∅, r⟩).1

theorem agree_iff (p : Pair) : p.Agree ↔ p.left ≈ p.right := by
  cases p with
  | terms s t => exact ⟨congrArg Expression.term, Expression.term.inj⟩
  | formulas f g => exact ⟨congrArg Expression.formula, Expression.formula.inj⟩

theorem agree_subst_iff (p : Pair) (θ : Variable → Term) :
    (p.subst θ).Agree ↔ p.left.subst θ ≈ p.right.subst θ := by
  rw [agree_iff]
  cases p <;> rfl

theorem left_standardizeRight (r : Registry) (p : Pair) : (p.standardizeRight r).left = p.left := by
  cases p <;> rfl

theorem right_standardizeRight (r : Registry) (p : Pair) :
    (p.standardizeRight r).right = (p.right.standardized r).1 := by
  cases p <;> rfl

/-- Where two expressions can be unified, the left one and a renamed copy of the right
one can be as well, and one map turns both of them, as the new unifier replaces them,
into what the old unifier makes of the left one.  Only the variables of the left
expression have to be known to the registry. -/
theorem exists_unify_standardizeRight (hleft : ∀ v ∈ p.left.vars, v.symbol ∈ r.symbols)
    (hcounter : (p.right.standardized r).2.counter < UInt64.size - 1) (h : p.unify ∅ = .ok σ) :
    Ends (p.right.standardized? · r) (p.right.standardized r) ∧
      ∃ τ, (p.standardizeRight r).unify ∅ = .ok τ ∧
        ∃ δ : Variable → Term,
          (p.left.replace τ).subst δ = p.left.replace σ ∧
          ((p.standardizeRight r).right.replace τ).subst δ ≈ p.left.replace σ := by
  refine ⟨Expression.ends_standardized (Nat.lt_of_lt_of_le hcounter (Nat.sub_le _ _)), ?_⟩
  obtain ⟨origin, hknown, hcopy⟩ := p.right.exists_origin r
  let δ (w : Variable) : Term := σ.value (origin w)
  have hleft' : p.left.subst δ = p.left.replace σ := by
    rw [Expression.replace_eq_subst]
    exact Expression.subst_congr fun v hv =>
      congrArg σ.value (hknown v (hleft v (Expression.mem_vars.2 hv)))
  have hright' : (p.right.standardized r).1.subst δ = p.right.replace σ := by
    rw [Expression.replace_eq_subst]
    exact hcopy σ.value
  have hsame : p.left.replace σ ≈ p.right.replace σ := by
    rw [Expression.replace_eq_subst, Expression.replace_eq_subst]
    exact (p.agree_subst_iff σ.value).1 ((unify_solvedBy h σ.value).1 σ.solvedBy_value).2
  have hagree : ((p.standardizeRight r).subst δ).Agree := by
    rw [agree_subst_iff, left_standardizeRight, right_standardizeRight, hleft', hright']
    exact hsame
  obtain ⟨τ, hτ⟩ := exists_unify_eq_ok (Substitution.solvedBy_empty δ) hagree
  have hsolved : τ.SolvedBy δ := (unify_solvedBy hτ δ).2 ⟨Substitution.solvedBy_empty δ, hagree⟩
  refine ⟨τ, hτ, δ, ?_, ?_⟩
  · rw [Expression.subst_replace hsolved, hleft']
  · rw [Expression.subst_replace hsolved, right_standardizeRight, hright']
    exact Setoid.symm hsame

/-- A goal and a fact that share `X` at different places. -/
theorem exists_unify_standardizeRight_fact :
    ∃ (r : Registry) (p : Pair) (σ : Substitution),
      p = .formulas (.atom Sample.p [.var Sample.x, .var Sample.x])
        (.atom Sample.p [.const Sample.a, .var Sample.x]) ∧
      (p.standardizeRight r).right.vars.map Variable.name = ["X0"] ∧
      (∀ v ∈ p.left.vars, v.symbol ∈ r.symbols) ∧
      (p.right.standardized r).2.counter < UInt64.size - 1 ∧ p.unify ∅ = .ok σ ∧
      Ends (p.right.standardized? · r) (p.right.standardized r) ∧
      ∃ τ, (p.standardizeRight r).unify ∅ = .ok τ ∧
        ∃ δ : Variable → Term,
          (p.left.replace τ).subst δ = p.left.replace σ ∧
          ((p.standardizeRight r).right.replace τ).subst δ ≈ p.left.replace σ := by
  let r : Registry := (((Registry.ofConfig {}).insert Sample.x.symbol).insert Sample.a).insert
    Sample.p
  let p : Pair := .formulas (.atom Sample.p [.var Sample.x, .var Sample.x])
    (.atom Sample.p [.const Sample.a, .var Sample.x])
  have hagree : (p.subst fun _ => .const Sample.a).Agree := Setoid.refl _
  obtain ⟨σ, hσ⟩ := exists_unify_eq_ok (Substitution.solvedBy_empty _) hagree
  have hleft : ∀ v ∈ p.left.vars, v.symbol ∈ r.symbols := by decide +kernel
  have hcounter : (p.right.standardized r).2.counter < UInt64.size - 1 := by decide +kernel
  exact ⟨r, p, σ, rfl, by decide +kernel, hleft, hcounter, hσ,
    exists_unify_standardizeRight hleft hcounter hσ⟩

end Pair
end Unification
