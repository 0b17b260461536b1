import Unification.Proofs.Equivariance

/-!
# Both sides renamed apart with one record

The sides of a pair may be renamed apart one after the other with one record, so that the
variables that they share get one replacement.  No two variables get the same, and nothing
changes but the names: the renamed pair is unified as the old one, to the old result with its
variables renamed (`Pair.unify_standardizeApart`).
-/

namespace Unification

namespace Pair

variable {p : Pair} {r : Registry}

/-- Renames the variables of the left expression and then those of the right one, with one
record. -/
def standardizeApart (s : Renamer) : Pair → Pair × Renamer
  | terms t u =>
    let (t, s) := t.standardizeApart s
    let (u, s) := u.standardizeApart s
    (terms t u, s)
  | formulas f g =>
    let (f, s) := f.standardizeApart s
    let (g, s) := g.standardizeApart s
    (formulas f g, s)

/-- The same in machine words. -/
def standardize? (depth : Nat) : Pair → StateT Renamer Option Pair
  | terms t u => terms <$> t.standardize? depth <*> u.standardize? depth
  | formulas f g => formulas <$> f.standardize? depth <*> g.standardize? depth

/-- The left side is renamed with the record as it is before the right side has been met. -/
theorem standardizeApart_eq (s : Renamer) (p : Pair) :
    p.standardizeApart s =
      (p.rename (s.renameAll (p.left.occurrences ++ p.right.occurrences)).record.apply,
        s.renameAll (p.left.occurrences ++ p.right.occurrences)) := by
  cases p with
  | terms t u =>
    have hleft := t.rename_congr _ _ fun v hv => s.apply_renameAll_append hv u.occurrences
    simp only [standardizeApart, t.standardizeApart_eq, u.standardizeApart_eq, hleft,
      ← Renamer.renameAll_append]
    rfl
  | formulas f g =>
    have hleft := f.rename_congr _ _ fun v hv => s.apply_renameAll_append hv g.occurrences
    simp only [standardizeApart, f.standardizeApart_eq, g.standardizeApart_eq, hleft,
      ← Renamer.renameAll_append]
    rfl

theorem ends_standardize {s : Renamer}
    (h : (p.standardizeApart s).2.registry.counter < UInt64.size) :
    Ends (fun depth => (p.standardize? depth).run s) (p.standardizeApart s) := by
  cases p with
  | terms t u =>
    have hleft : (t.standardizeApart s).2.registry.counter < UInt64.size :=
      (u.counter_le_standardizeApart _).trans_lt h
    exact .seq_run terms (t.ends_standardize s hleft) (u.ends_standardize _ h)
  | formulas f g =>
    have hleft : (f.standardizeApart s).2.registry.counter < UInt64.size :=
      (g.counter_le_standardizeApart _).trans_lt h
    exact .seq_run formulas (f.ends_standardize s hleft) (g.ends_standardize _ h)

/-- A pair that has been renamed apart with one record is unified where the old pair is, to
the bindings of the old result in their order with the variables renamed, and else it fails
as the old pair does. -/
theorem unify_standardizeApart
    (hcounter : (p.standardizeApart ⟨∅, r⟩).2.registry.counter < UInt64.size - 1) :
    Ends (fun depth => (p.standardize? depth).run ⟨∅, r⟩) (p.standardizeApart ⟨∅, r⟩) ∧
      let p' := (p.standardizeApart ⟨∅, r⟩).1
      let renames := (p.standardizeApart ⟨∅, r⟩).2.record
      (∀ v ∈ p.vars, ∃ w, renames.lookup? v = some w) ∧
        ((∃ σ, p.unify ∅ = .ok σ) ↔ ∃ τ, p'.unify ∅ = .ok τ) ∧
        (∀ σ τ, p.unify ∅ = .ok σ → p'.unify ∅ = .ok τ →
          τ.bindings = σ.bindings.map (Prod.map renames.apply (Term.rename renames.apply))) ∧
        ∀ cause cause', p.unify ∅ = .error cause → p'.unify ∅ = .error cause' →
          cause.Renamed renames.apply cause' := by
  refine ⟨ends_standardize (Nat.lt_of_lt_of_le hcounter (Nat.sub_le _ _)), ?_⟩
  rw [standardizeApart_eq]
  have hmem (v : Variable) (hv : v ∈ p.vars) : v ∈ p.left.occurrences ++ p.right.occurrences :=
    List.mem_append.2 (mem_vars.1 hv)
  have hinj : Set.InjOn
      (Renamer.renameAll ⟨∅, r⟩ (p.left.occurrences ++ p.right.occurrences)).record.apply
      {v | v ∈ p.vars} :=
    fun v hv w hw heq => Renamer.apply_renameAll_inj (hmem v hv) (hmem w hw) heq
  have hruns := unify_rename (.empty _ _) hinj fun _ hv => hv
  exact ⟨fun v hv => Renamer.exists_lookup?_renameAll _ (hmem v hv), hruns.exists_ok_iff,
    fun σ τ hσ hτ => (hruns.of_ok hσ hτ).bindings, fun _ _ hc hd => hruns.of_error hc hd⟩

/-- With `X0` taken, `X` becomes `X1` on both sides, and `X0` becomes `X3`.  The first pair
binds `X` to `f(Y)` and `Y` to `X0`; the second one binds `X` to `Y` and is left with `Y` and
`f(Y)`. -/
theorem unify_standardizeApart_numbered :
    let f : List Term → Term := .app Sample.f
    let x₀ : Variable := ⟨⟨"X0", by decide⟩⟩
    let p : Pair := .terms (f [.var Sample.x, .var Sample.y]) (f [f [.var Sample.y], .var x₀])
    let q : Pair := .terms (f [.var Sample.x, .var Sample.y])
      (f [.var Sample.y, f [.var Sample.x]])
    ∃ r : Registry,
      let p' := (p.standardizeApart ⟨∅, r⟩).1
      let q' := (q.standardizeApart ⟨∅, r⟩).1
      p'.vars.map Variable.name = ["X1", "Y2", "X3"] ∧
        (p.standardizeApart ⟨∅, r⟩).2.registry.counter < UInt64.size - 1 ∧
        (q.standardizeApart ⟨∅, r⟩).2.registry.counter < UInt64.size - 1 ∧
        (∃ σ τ, p.unify ∅ = .ok σ ∧ p'.unify ∅ = .ok τ ∧
          σ.bindings = [(Sample.x, f [.var Sample.y]), (Sample.y, .var x₀)] ∧
          τ.bindings =
            let x₁ : Variable := ⟨⟨"X1", by decide⟩⟩
            let y₂ : Variable := ⟨⟨"Y2", by decide⟩⟩
            [(x₁, f [.var y₂]), (y₂, .var ⟨⟨"X3", by decide⟩⟩)]) ∧
        ∃ cause', q.unify ∅ = .error (.occursCheck Sample.y (f [.var Sample.y])) ∧
          q'.unify ∅ = .error cause' ∧
          (UnificationError.occursCheck Sample.y (f [.var Sample.y])).Renamed
            (q.standardizeApart ⟨∅, r⟩).2.record.apply cause' := by
  intro f x₀ p q
  let r : Registry := ((((Registry.ofConfig {}).insert Sample.f).insert Sample.x.symbol).insert
    Sample.y.symbol).insert x₀.symbol
  have hp : (p.standardizeApart ⟨∅, r⟩).2.registry.counter < UInt64.size - 1 := by decide +kernel
  have hq : (q.standardizeApart ⟨∅, r⟩).2.registry.counter < UInt64.size - 1 := by decide +kernel
  obtain ⟨-, -, hok, hbindings, -⟩ := unify_standardizeApart hp
  obtain ⟨-, -, hok', -, hcause⟩ := unify_standardizeApart hq
  obtain ⟨σ, hσ, hσbindings⟩ : ∃ σ, p.unify ∅ = .ok σ ∧
      σ.bindings = [(Sample.x, f [.var Sample.y]), (Sample.y, .var x₀)] :=
    Bindings.exists_unify_of_ends (.of_depth 8 fun _ => rfl)
  obtain ⟨τ, hτ⟩ := hok.1 ⟨σ, hσ⟩
  have hqrun : q.unify ∅ = .error (.occursCheck Sample.y (f [.var Sample.y])) :=
    Bindings.unify_eq_error_of_ends (.of_depth 8 fun _ => rfl)
  refine ⟨r, by decide +kernel, hp, hq, ⟨σ, τ, hσ, hτ, hσbindings, ?_⟩, ?_⟩
  · rw [hbindings σ τ hσ hτ, hσbindings]
    decide +kernel
  · cases hqrun' : (q.standardizeApart ⟨∅, r⟩).1.unify ∅ with
    | ok τ' =>
      obtain ⟨σ', hσ'⟩ := hok'.2 ⟨τ', hqrun'⟩
      cases hqrun.symm.trans hσ'
    | error cause' => exact ⟨cause', hqrun, rfl, hcause _ _ hqrun hqrun'⟩

end Pair
end Unification
