import Unification.Proofs.Session

/-!
# Passes never overlap

What one pass of renaming apart leaves behind never meets what another one does, nor
anything that was known when the pass began, however the passes and other requests are
mixed, and also where a pass renames what an earlier one has made.  Stems are shared
then, since a variable loses its number before it is renamed, but numbers are not.

Every variable that is left is a replacement in the record of its pass at the end of
the run (`exists_lookup?_last`), and there each replacement has one pass and one origin.
-/

namespace Unification
namespace Session

variable {s : Session} {os : List Operation} {c : Step} {i : Nat} {e e' : Expression}

theorem exists_lookup?_last (hc : c ∈ s.run os) (h : c.Standardizes i e e') :
    ∀ w ∈ e'.vars, ∃ v, ((s.last os).records i).lookup? v = some w := by
  intro w hw
  obtain ⟨hperform, log, hlog⟩ := exists_logs_of_mem_run hc
  rw [hperform] at h hlog
  obtain ⟨rfl, hrecord⟩ := standardizes_perform h
  obtain ⟨v, hv⟩ := Expression.exists_lookup?_of_mem_vars hw
  rw [← hrecord] at hv
  exact ⟨v, hlog.lookup? hv⟩

theorem length_vars_of_standardizes (hc : c ∈ s.run os) (h : c.Standardizes i e e')
    (hunique : ∀ v v' w, ((s.last os).records i).lookup? v = some w →
      ((s.last os).records i).lookup? v' = some w → v = v') :
    e'.vars.length = e.vars.length := by
  obtain ⟨hperform, log, hlog⟩ := exists_logs_of_mem_run hc
  rw [hperform] at h hlog
  obtain ⟨rfl, hrecord⟩ := standardizes_perform h
  apply Expression.length_vars_standardizeApart
  intro v v' w hv hv'
  rw [← hrecord] at hv hv'
  exact hunique v v' w (hlog.lookup? hv) (hlog.lookup? hv')

/-- Whatever is renamed apart in a run keeps its number of variables, and these are new
since before the pass began and foreign to all other passes. -/
theorem passes_never_overlap (r : Registry) (os : List Operation)
    (h : ∀ c ∈ (start r).run os, c.after.registry.counter < UInt64.size - 1) :
    Ends ((start r).run? · os) ((start r).run os) ∧
      ∀ c ∈ (start r).run os, ∀ i e e', c.Standardizes i e e' →
        e'.vars.length = e.vars.length ∧
        (∀ d ∈ (start r).run os, d.before.records i = ∅ →
          ∀ v ∈ e'.vars, v.symbol ∉ d.before.registry.symbols) ∧
        ∀ d ∈ (start r).run os, ∀ j f f', d.Standardizes j f f' → j ≠ i →
          e'.vars.Disjoint f'.vars := by
  obtain ⟨log, hlog⟩ := (start r).exists_logs_last os
  have hentry {i : Nat} {v w : Variable}
      (hv : (((start r).last os).records i).lookup? v = some w) : (i, v, w) ∈ log :=
    hlog.mem_of_lookup? rfl hv
  refine ⟨ends_run fun c hc => Nat.lt_of_lt_of_le (h c hc) (Nat.sub_le _ _),
    fun c hc i e e' hstd => ⟨?_, fun d hd hempty w hw => ?_,
      fun d hd j f f' hstd' hne w hw hw' => ?_⟩⟩
  · apply length_vars_of_standardizes hc hstd
    exact fun v v' w hv hv' => (hlog.unique (hentry hv) (hentry hv')).2
  · -- From `d` on the whole record of the pass is made.
    obtain ⟨v, hv⟩ := exists_lookup?_last hc hstd w hw
    obtain ⟨log', hlog'⟩ := exists_logs_before_of_mem_run hd
    exact hlog'.unused (hlog'.mem_of_lookup? hempty hv)
  · obtain ⟨v, hv⟩ := exists_lookup?_last hc hstd w hw
    obtain ⟨v', hv'⟩ := exists_lookup?_last hd hstd' w hw'
    exact hne (hlog.unique (hentry hv') (hentry hv)).1

/-- Two passes under way at once, the second of which renames what the first has made,
with a name asked for in between. -/
theorem passes_never_overlap_nested :
    ∃ (r : Registry) (os : List Operation),
      (((start r).run os).map fun c =>
        match c.outcome with
        | .answer a => a.toOption.toList.map Symbol.name
        | .renamed e => e.vars.map Variable.name) = [["X0", "Y1"], ["X2"], ["X3", "Y4"], ["Y1"]] ∧
      (∀ c ∈ (start r).run os, c.after.registry.counter < UInt64.size - 1) ∧
      Ends ((start r).run? · os) ((start r).run os) ∧
      ∀ c ∈ (start r).run os, ∀ i e e', c.Standardizes i e e' →
        e'.vars.length = e.vars.length ∧
        (∀ d ∈ (start r).run os, d.before.records i = ∅ →
          ∀ v ∈ e'.vars, v.symbol ∉ d.before.registry.symbols) ∧
        ∀ d ∈ (start r).run os, ∀ j f f', d.Standardizes j f f' → j ≠ i →
          e'.vars.Disjoint f'.vars := by
  let r : Registry := .ofConfig {}
  let x₀ : Variable := ⟨⟨"X0", by decide⟩⟩
  let y₁ : Variable := ⟨⟨"Y1", by decide⟩⟩
  let os : List Operation := [
    .standardize 0 (.term (.app Sample.f [.var Sample.x, .var Sample.y, .var Sample.x])),
    .request (.get "X2"),
    .standardize 1 (.formula (.atom Sample.p [.var x₀, .app Sample.f [.var y₁]])),
    .standardize 0 (.term (.var Sample.y))]
  have hcounter : ∀ c ∈ (start r).run os, c.after.registry.counter < UInt64.size - 1 := by
    decide +kernel
  refine ⟨r, os, ?_, hcounter, passes_never_overlap r os hcounter⟩
  decide +kernel

end Session
end Unification
