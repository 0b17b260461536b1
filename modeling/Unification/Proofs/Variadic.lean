import Mathlib.Order.Bounds.Defs
import Unification.Proofs.Construction

/-!
# Conjunctions and disjunctions of any length

In the order of truth, where unknown stands between false and true, a conjunction has the
least value among its operands and a disjunction the greatest.  The loops that find them go
from left to right and mix known values with unknown ones on the way.  All the same, neither
the order of the operands nor their grouping nor a repetition has an influence, and
negation exchanges the two connectives.

Both connectives combine two values at a time by an operation with the laws in
`Connective.Combines`, and everything but the order of truth follows from these.  Taking
tails drops operands from the front, one at a time, until there are none
(`Formula.variadic_laws`).
-/

namespace Unification

namespace TruthValue

/-- The height of a value in the order of truth. -/
def rank : TruthValue → Nat
  | .false => 0
  | .unknown => 1
  | .true => 2

/-- The order of truth. -/
instance : LE TruthValue := ⟨fun a b => a.rank ≤ b.rank⟩

instance (a b : TruthValue) : Decidable (a ≤ b) := inferInstanceAs (Decidable (a.rank ≤ b.rank))

variable {a b : TruthValue}

theorem le_of_and_eq_left (h : a.and b = a) : a ≤ b := by
  revert h
  cases a <;> cases b <;> decide

theorem le_of_or_eq_left (h : a.or b = a) : b ≤ a := by
  revert h
  cases a <;> cases b <;> decide

theorem not_and (a b : TruthValue) : (a.and b).not = a.not.or b.not := by
  cases a <;> cases b <;> rfl

theorem not_or (a b : TruthValue) : (a.or b).not = a.not.and b.not := by
  cases a <;> cases b <;> rfl

end TruthValue

namespace Connective

/-- The connective combines the values of its operands one after the other, by an operation
that gives back one of the two values it is given. -/
structure Combines (k : Connective) (op : TruthValue → TruthValue → TruthValue)
    (unit : TruthValue) : Prop where
  evaluate_eq : ∀ values, k.evaluate values = values.foldl op unit
  assoc : ∀ a b c, op (op a b) c = op a (op b c)
  comm : ∀ a b, op a b = op b a
  unit_op : ∀ a, op unit a = a
  choice : ∀ a b, op a b = a ∨ op a b = b

theorem combines_and : Combines .and .and .true where
  evaluate_eq _ := rfl
  assoc a b c := by cases a <;> cases b <;> cases c <;> rfl
  comm a b := by cases a <;> cases b <;> rfl
  unit_op a := by cases a <;> rfl
  choice a b := by cases a <;> cases b <;> decide

theorem combines_or : Combines .or .or .false where
  evaluate_eq _ := rfl
  assoc a b c := by cases a <;> cases b <;> cases c <;> rfl
  comm a b := by cases a <;> cases b <;> rfl
  unit_op a := by cases a <;> rfl
  choice a b := by cases a <;> cases b <;> decide

theorem exists_combines {k : Connective} (hk : k.isVariadic = true) :
    ∃ op unit, k.Combines op unit := by
  cases k with
  | and => exact ⟨_, _, combines_and⟩
  | or => exact ⟨_, _, combines_or⟩
  | not => cases hk
  | implies => cases hk
  | iff => cases hk

namespace Combines

variable {k : Connective} {op : TruthValue → TruthValue → TruthValue} {unit : TruthValue}
  {values values' : List TruthValue}

theorem self_op (h : k.Combines op unit) (a : TruthValue) : op a a = a := (h.choice a a).elim id id

theorem foldl_eq (h : k.Combines op unit) (a : TruthValue) (values : List TruthValue) :
    values.foldl op a = op a (k.evaluate values) := by
  rw [h.evaluate_eq]
  induction values generalizing a with
  | nil => rw [List.foldl_nil, List.foldl_nil, h.comm, h.unit_op]
  | cons v values ih => rw [List.foldl_cons, List.foldl_cons, ih, ih (op unit v), h.unit_op, h.assoc]

theorem evaluate_cons (h : k.Combines op unit) (v : TruthValue) (values : List TruthValue) :
    k.evaluate (v :: values) = op v (k.evaluate values) := by
  rw [h.evaluate_eq, List.foldl_cons, h.unit_op, h.foldl_eq]

theorem evaluate_nil (h : k.Combines op unit) : k.evaluate [] = unit := h.evaluate_eq []

theorem evaluate_pair (h : k.Combines op unit) (a b : TruthValue) : k.evaluate [a, b] = op a b := by
  rw [h.evaluate_cons, h.evaluate_cons, h.evaluate_nil, h.comm b, h.unit_op]

theorem evaluate_append (h : k.Combines op unit) (values values' : List TruthValue) :
    k.evaluate (values ++ values') = op (k.evaluate values) (k.evaluate values') := by
  induction values with
  | nil => rw [List.nil_append, h.evaluate_nil, h.unit_op]
  | cons v values ih => rw [List.cons_append, h.evaluate_cons, h.evaluate_cons, ih, h.assoc]

/-- No operand can change the value once more. -/
theorem evaluate_op_of_mem (h : k.Combines op unit) {v : TruthValue} (hv : v ∈ values) :
    op (k.evaluate values) v = k.evaluate values := by
  obtain ⟨before, after, rfl⟩ := List.append_of_mem hv
  rw [h.evaluate_append, h.evaluate_cons, h.assoc, h.comm _ v, ← h.assoc v, h.self_op]

/-- The value is that of an operand, if there is one. -/
theorem evaluate_mem (h : k.Combines op unit) (hvalues : values ≠ []) :
    k.evaluate values ∈ values := by
  induction values with
  | nil => exact absurd rfl hvalues
  | cons v values ih =>
    rw [h.evaluate_cons]
    by_cases hrest : values = []
    · rw [hrest, h.evaluate_nil, h.comm, h.unit_op]
      exact List.mem_cons_self
    · rcases h.choice v (k.evaluate values) with heq | heq
      · rw [heq]
        exact List.mem_cons_self
      · rw [heq]
        exact List.mem_cons_of_mem v (ih hrest)

/-- Nothing but the set of the operands' values has an influence. -/
theorem evaluate_congr (h : k.Combines op unit) (hmem : ∀ v, v ∈ values ↔ v ∈ values') :
    k.evaluate values = k.evaluate values' := by
  by_cases hempty : values = []
  · have hempty' : values' = [] := by
      rw [List.eq_nil_iff_forall_not_mem]
      exact fun v hv => List.not_mem_nil (hempty ▸ (hmem v).2 hv)
    rw [hempty, hempty']
  · have hvalue := (hmem _).1 (h.evaluate_mem hempty)
    have hempty' : values' ≠ [] := List.ne_nil_of_mem hvalue
    have hvalue' := (hmem _).2 (h.evaluate_mem hempty')
    rw [← h.evaluate_op_of_mem hvalue', h.comm, h.evaluate_op_of_mem hvalue]

/-- Negation exchanges two connectives if it exchanges what they do with two values. -/
theorem evaluate_map_not (h : k.Combines op unit) {k' : Connective}
    {op' : TruthValue → TruthValue → TruthValue} (h' : k'.Combines op' unit.not)
    (hnot : ∀ a b, (op a b).not = op' a.not b.not) (values : List TruthValue) :
    k'.evaluate (values.map .not) = (k.evaluate values).not := by
  induction values with
  | nil => rw [List.map_nil, h.evaluate_nil, h'.evaluate_nil]
  | cons v values ih => rw [List.map_cons, h.evaluate_cons, h'.evaluate_cons, ih, hnot]

end Combines

end Connective

namespace Formula

variable {k : Connective} {op : TruthValue → TruthValue → TruthValue} {unit : TruthValue}
  {f : Formula} {fs gs : List Formula}

theorem value_connect (k : Connective) (fs : List Formula) :
    (connect k fs).value = k.evaluate (fs.map value) := rfl

theorem exists_value_eq_connect (h : k.Combines op unit) (hfs : fs ≠ []) :
    ∃ f ∈ fs, f.value = (connect k fs).value :=
  List.mem_map.1 (h.evaluate_mem (mt List.map_eq_nil_iff.1 hfs))

theorem value_connect_op_of_mem (h : k.Combines op unit) (hf : f ∈ fs) :
    op (connect k fs).value f.value = (connect k fs).value :=
  h.evaluate_op_of_mem (List.mem_map_of_mem hf)

theorem isLeast_value_and (hfs : fs ≠ []) :
    IsLeast {a | ∃ f ∈ fs, f.value = a} (Formula.and fs).value := by
  refine ⟨exists_value_eq_connect Connective.combines_and hfs, ?_⟩
  rintro _ ⟨f, hf, rfl⟩
  exact TruthValue.le_of_and_eq_left (value_connect_op_of_mem Connective.combines_and hf)

theorem isGreatest_value_or (hfs : fs ≠ []) :
    IsGreatest {a | ∃ f ∈ fs, f.value = a} (Formula.or fs).value := by
  refine ⟨exists_value_eq_connect Connective.combines_or hfs, ?_⟩
  rintro _ ⟨f, hf, rfl⟩
  exact TruthValue.le_of_or_eq_left (value_connect_op_of_mem Connective.combines_or hf)

/-- Operands may be exchanged, repeated, and left out where they are repeated. -/
theorem value_connect_congr (hk : k.isVariadic = true) (h : ∀ f, f ∈ fs ↔ f ∈ gs) :
    (connect k fs).value = (connect k gs).value := by
  obtain ⟨op, unit, hcombines⟩ := Connective.exists_combines hk
  refine hcombines.evaluate_congr fun v => ?_
  simp only [List.mem_map, h]

theorem value_connect_append (hk : k.isVariadic = true) (fs gs : List Formula) :
    (connect k (fs ++ gs)).value = (connect k [connect k fs, connect k gs]).value := by
  obtain ⟨op, unit, hcombines⟩ := Connective.exists_combines hk
  rw [value_connect, List.map_append, hcombines.evaluate_append]
  exact (hcombines.evaluate_pair _ _).symm

theorem value_connect_cons (hk : k.isVariadic = true) (f : Formula) (fs : List Formula) :
    (connect k (f :: fs)).value = k.evaluate [f.value, (connect k fs).value] := by
  obtain ⟨op, unit, hcombines⟩ := Connective.exists_combines hk
  rw [hcombines.evaluate_pair]
  exact hcombines.evaluate_cons f.value (fs.map value)

theorem value_not_connect {k' : Connective}
    (h : ∀ values : List TruthValue, k'.evaluate (values.map .not) = (k.evaluate values).not)
    (fs : List Formula) : (Formula.not (connect k fs)).value = (connect k' (fs.map .not)).value := by
  have hvalues : (fs.map Formula.not).map value = (fs.map value).map .not := by
    rw [List.map_map, List.map_map]
    rfl
  rw [value_connect k', hvalues, h]
  rfl

/-! ## Tails -/

/-- Takes the tail, of that the tail again, and so on. -/
def tailTimes : Nat → Formula → Except Error Formula
  | 0, f => .ok f
  | n + 1, f => do tailTimes n (← f.tail)

theorem tail_connect_nil (hk : k.isVariadic = true) :
    (connect k []).tail = .error (.invalidArgument (.emptyTail k)) := by
  rw [connect, tail, if_pos hk]

theorem tail_connect_cons (hk : k.isVariadic = true) (f : Formula) (fs : List Formula) :
    (connect k (f :: fs)).tail = .ok (connect k fs) := by
  rw [connect, tail, if_pos hk]

theorem tailTimes_connect (hk : k.isVariadic = true) {n : Nat} (hn : n ≤ fs.length) :
    (connect k fs).tailTimes n = .ok (connect k (fs.drop n)) := by
  induction n generalizing fs with
  | zero => rfl
  | succ n ih =>
    cases fs with
    | nil => exact absurd hn (Nat.not_succ_le_zero n)
    | cons f fs =>
      rw [tailTimes, tail_connect_cons hk, List.drop_succ_cons]
      exact ih (Nat.le_of_succ_le_succ hn)

theorem tailTimes_connect_past (hk : k.isVariadic = true) {n : Nat} (hn : fs.length < n) :
    (connect k fs).tailTimes n = .error (.invalidArgument (.emptyTail k)) := by
  induction n generalizing fs with
  | zero => exact absurd hn (Nat.not_lt_zero _)
  | succ n ih =>
    cases fs with
    | nil =>
      rw [tailTimes, tail_connect_nil hk]
      rfl
    | cons f fs =>
      rw [tailTimes, tail_connect_cons hk]
      exact ih (Nat.lt_of_succ_lt_succ hn)

/-- What has operands after some tails has another tail, and its value is that of the first
operand and the tail together. -/
theorem exists_tail_of_tailTimes (hk : k.isVariadic = true) {n : Nat} {first : Formula}
    {rest : List Formula} {g : Formula} (hg : (connect k fs).tailTimes n = .ok g)
    (hoperands : g.operands = first :: rest) :
    ∃ g', g.tail = .ok g' ∧ g.value = k.evaluate [first.value, g'.value] := by
  rcases Nat.lt_or_ge fs.length n with hn | hn
  · rw [tailTimes_connect_past hk hn] at hg
    cases hg
  · rw [tailTimes_connect hk hn] at hg
    cases hg
    have hdrop : fs.drop n = first :: rest := hoperands
    rw [hdrop]
    exact ⟨connect k rest, tail_connect_cons hk first rest, value_connect_cons hk first rest⟩

/-- A conjunction has the least of its operands' values and a disjunction the greatest, and
the loops that combine two values at a time find it.  So no order, repetition or grouping
of operands makes a difference, and negation exchanges the two.  One tail after the other
leaves out an operand until there is none, and each has the value of its own operands. -/
theorem variadic_laws (fs gs : List Formula) :
    (∀ k : Connective, k.isVariadic = true → derive? k fs = some (connect k fs)) ∧
    ((Formula.and []).value = .true ∧ (Formula.or []).value = .false) ∧
    (fs ≠ [] → IsLeast {a | ∃ f ∈ fs, f.value = a} (Formula.and fs).value ∧
      IsGreatest {a | ∃ f ∈ fs, f.value = a} (Formula.or fs).value) ∧
    ((∀ f, f ∈ fs ↔ f ∈ gs) → (Formula.and fs).value = (Formula.and gs).value ∧
      (Formula.or fs).value = (Formula.or gs).value) ∧
    ((Formula.and (fs ++ gs)).value = (Formula.and [.and fs, .and gs]).value ∧
      (Formula.or (fs ++ gs)).value = (Formula.or [.or fs, .or gs]).value) ∧
    ((Formula.not (.and fs)).value = (Formula.or (fs.map .not)).value ∧
      (Formula.not (.or fs)).value = (Formula.and (fs.map .not)).value) ∧
    ((∀ a b, Connective.evaluate .and [a, b] = a.and b) ∧
      ∀ a b, Connective.evaluate .or [a, b] = a.or b) ∧
    ∀ k operands v, k.isVariadic = true → (operator k operands v).Reachable →
      (∀ n ≤ operands.length,
        (operator k operands v).tailTimes n = .ok (connect k (operands.drop n))) ∧
      (∀ n g first rest,
        (operator k operands v).tailTimes n = .ok g → g.operands = first :: rest →
          ∃ g', g.tail = .ok g' ∧ g.value = k.evaluate [first.value, g'.value]) ∧
      ∀ n > operands.length,
        (operator k operands v).tailTimes n = .error (.invalidArgument (.emptyTail k)) := by
  refine ⟨fun k hk => derive?_eq (Connective.accepts_of_arity?_eq_none ?_ _), ⟨rfl, rfl⟩,
    fun hfs => ⟨isLeast_value_and hfs, isGreatest_value_or hfs⟩,
    fun h => ⟨value_connect_congr rfl h, value_connect_congr rfl h⟩,
    ⟨value_connect_append rfl fs gs, value_connect_append rfl fs gs⟩, ⟨?_, ?_⟩,
    ⟨Connective.combines_and.evaluate_pair, Connective.combines_or.evaluate_pair⟩, ?_⟩
  · exact Option.isNone_iff_eq_none.1 hk
  · exact value_not_connect
      (Connective.combines_and.evaluate_map_not Connective.combines_or TruthValue.not_and) fs
  · exact value_not_connect
      (Connective.combines_or.evaluate_map_not Connective.combines_and TruthValue.not_or) fs
  · intro k operands v hk hreachable
    obtain ⟨-, rfl, -⟩ := hreachable.wellFormed
    exact ⟨fun n hn => tailTimes_connect hk hn, fun n g first rest => exists_tail_of_tailTimes hk,
      fun n hn => tailTimes_connect_past hk hn⟩

/-- Operands of all three values, and the same ones backwards with the first one twice. -/
theorem variadic_laws_three :
    let p (v : TruthValue) : Formula := .predicate ⟨"p", by decide⟩ [] v
    let fs := [p .true, p .unknown, p .false]
    let gs := [p .false, p .unknown, p .true, p .true]
    (Formula.and fs).Reachable ∧
      (Formula.and fs).value = .false ∧ (Formula.and fs).value = (Formula.and gs).value ∧
      (Formula.or fs).value = .true ∧ (Formula.or fs).value = (Formula.or gs).value ∧
      IsLeast {a | ∃ f ∈ fs, f.value = a} (Formula.and fs).value ∧
      (Formula.and fs).tailTimes 2 = .ok (.and [p .false]) ∧
      (Formula.and fs).tailTimes 4 = .error (.invalidArgument (.emptyTail .and)) := by
  intro p fs gs
  have hfs : ∀ f ∈ fs, f.WellFormed :=
    List.forall_mem_cons.2 ⟨trivial, List.forall_mem_cons.2 ⟨trivial,
      List.forall_mem_singleton.2 trivial⟩⟩
  have hreachable : (Formula.and fs).Reachable :=
    reachable_of_wellFormed (wellFormed_and hfs)
  obtain ⟨-, -, hbounds, hcongr, -, -, -, htails⟩ := variadic_laws fs gs
  obtain ⟨hand, hor⟩ := hcongr fun f => by simp only [fs, gs, List.mem_cons]; tauto
  obtain ⟨htail, -, hpast⟩ := htails .and fs _ rfl hreachable
  exact ⟨hreachable, rfl, hand, rfl, hor, (hbounds (List.cons_ne_nil _ _)).1, htail 2 (by decide),
    hpast 4 (by decide)⟩

end Formula
end Unification
