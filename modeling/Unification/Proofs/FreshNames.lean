import Mathlib.Order.Bounds.Defs
import Unification.Proofs.Unchecked.Counting

/-!
# Made-up symbols are new

All stems share one counter, and two stems may lead to one symbol: `A1` followed by 2
is `A` followed by 12.  Callers may also have got such a symbol by its name.  Still
every made-up symbol is new, both to the registry and to whoever was answered before:
its number is the least one from the counter on whose symbol is unused, and the counter
then moves past it, so later numbers are greater whatever their stems.
-/

namespace Unification
namespace Registry

/-- The call makes up a symbol from the stem and the number. -/
structure Call.MakesUp (c : Call) (stem : String) (k : Nat) : Prop where
  asked : c.request.stem? c.before = some stem
  answer : c.answer = .ok (.numbered stem k)
  unused : .numbered stem k ∉ c.before.symbols
  kept : .numbered stem k ∈ c.after.symbols
  size : c.after.size = c.before.size + 1
  least : IsLeast {m | c.before.counter ≤ m ∧ .numbered stem m ∉ c.before.symbols} k
  counter : c.after.counter = k + 1

variable {r : Registry} {q : Request} {stem stem' : String} {j k : Nat} {c d : Call}

theorem exists_call_makesUp (h : q.stem? r = some stem) : ∃ k, (r.call q).MakesUp stem k := by
  have hunused := Symbol.leastUnused_notMem stem r.symbols r.counter
  refine ⟨Symbol.leastUnused stem r.symbols r.counter, ?_⟩
  rw [call_of_stem h]
  exact {
    asked := h
    answer := rfl
    unused := hunused
    kept := mem_insert.2 (.inl rfl)
    size := size_insert_of_notMem hunused
    least := by
      refine ⟨⟨Symbol.le_leastUnused stem r.symbols r.counter, hunused⟩, ?_⟩
      intro m hm
      -- A smaller number would have been taken.
      by_contra hlt
      exact hm.2 (Symbol.mem_of_lt_leastUnused hm.1 (Nat.lt_of_not_le hlt))
    counter := rfl }

theorem Call.MakesUp.lt_of_extends (hc : c.MakesUp stem' j) (hd : d.MakesUp stem k)
    (h : c.after.Extends d.before) : j < k := by
  have hcounter : j + 1 ≤ d.before.counter := hc.counter ▸ h.counter
  exact hcounter.trans hd.least.1.1

/-- Over any run, every made-up symbol is new and its number is greater than all before. -/
theorem calls_make_up_new_symbols (r : Registry) (qs : List Request)
    (h : ∀ c ∈ r.calls qs, c.after.counter < UInt64.size - 1) :
    Ends (r.callsOnWords? · qs) (r.calls qs) ∧
      (∀ c ∈ r.calls qs, ∀ stem, c.request.stem? r = some stem →
        ∃ k, c.MakesUp stem k ∧ .numbered stem k ∉ r.symbols) ∧
      (r.calls qs).Pairwise fun c d => ∀ stem k, d.MakesUp stem k →
        .numbered stem k ∉ c.after.symbols ∧ c.answer ≠ .ok (.numbered stem k) ∧
          ∀ stem' j, c.MakesUp stem' j → j < k := by
  refine ⟨ends_callsOnWords fun c hc => ?_, fun c hc stem hstem => ?_, ?_⟩
  · have hlt := h c hc
    omega
  · obtain ⟨r', hr', hcall⟩ := exists_call_of_mem_calls hc
    have hstem' : c.request.stem? r' = some stem := (hr'.stem?_eq c.request).trans hstem
    obtain ⟨k, hk⟩ := exists_call_makesUp hstem'
    rw [← hcall] at hk
    have hbefore : c.before = r' := by rw [hcall, before_call]
    exact ⟨k, hk, fun hmem => hk.unused (hbefore ▸ hr'.symbols hmem)⟩
  · refine (pairwise_calls r qs).imp_of_mem fun {c d} hc _ hextends stem k hd => ?_
    have hnew : Symbol.numbered stem k ∉ c.after.symbols := mt (hextends.symbols ·) hd.unused
    refine ⟨hnew, fun hanswer => ?_, fun stem' j hc => hc.lt_of_extends hd hextends⟩
    obtain ⟨r', -, hcall⟩ := exists_call_of_mem_calls hc
    rw [hcall] at hanswer hnew
    exact hnew (mem_of_call_eq_ok hanswer)

/-- With `A12` handed out before, the stem `A1` skips the number 2. -/
theorem calls_make_up_new_symbols_shared :
    ∃ (r : Registry) (qs : List Request),
      r = ofConfig { freshPrefix := "A1" } ∧
      (r.calls qs).map (fun c => c.answer.toOption.map Symbol.name) =
        [some "A12", some "A0", none, some "A11", some "A13", some "A4"] ∧
      (∀ c ∈ r.calls qs, c.after.counter < UInt64.size - 1) ∧
      Ends (r.callsOnWords? · qs) (r.calls qs) ∧
      (∀ c ∈ r.calls qs, ∀ stem, c.request.stem? r = some stem →
        ∃ k, c.MakesUp stem k ∧ .numbered stem k ∉ r.symbols) ∧
      (r.calls qs).Pairwise fun c d => ∀ stem k, d.MakesUp stem k →
        .numbered stem k ∉ c.after.symbols ∧ c.answer ≠ .ok (.numbered stem k) ∧
          ∀ stem' j, c.MakesUp stem' j → j < k := by
  let r : Registry := ofConfig { freshPrefix := "A1" }
  let qs : List Request := [.get "A12", .generate (some "A"), .getOptional none, .generate none,
    .generate none, .fresh ⟨⟨"A7", by decide⟩⟩]
  have hcounter : ∀ c ∈ r.calls qs, c.after.counter < UInt64.size - 1 := by decide +kernel
  refine ⟨r, qs, rfl, ?_, hcounter, calls_make_up_new_symbols r qs hcounter⟩
  decide +kernel

end Registry
end Unification
