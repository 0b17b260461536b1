import Mathlib.Data.List.Forall2
import Unification.Connective

/-!
# Connectives on partly known operands

An operand whose value is unknown may turn out to be true or to be false.  The value of
a connective is known exactly when it does not matter which: every way to settle the
unknown operands gives the same classical value (`Connective.settled_evaluate`).  No
other value has this property (`Connective.Settled.unique`).
-/

namespace Unification

namespace TruthValue

/-- The Boolean is what the value is, or what it may turn out to be. -/
def Admits (a : TruthValue) (b : Bool) : Prop := ∀ c ∈ a.toBool?, b = c

/-- What the value turns out to be if an unknown one turns out to be `b`. -/
def settle (b : Bool) (a : TruthValue) : Bool := a.toBool?.getD b

variable {a : TruthValue} {b : Bool}

theorem admits_settle (b : Bool) (a : TruthValue) : a.Admits (a.settle b) := by
  cases a <;> simp [Admits, settle, toBool?]

@[simp] theorem admits_ofBool {c : Bool} : (ofBool c).Admits b ↔ b = c := by
  cases c <;> simp [Admits, ofBool, toBool?]

/-- A value that turns out to be `b` although an unknown one would not is known. -/
theorem settle_eq_iff {c : Bool} (h : c ≠ b) : a.settle c = b ↔ a = ofBool b := by
  revert h
  cases a <;> cases b <;> cases c <;> decide

end TruthValue

namespace Connective

open TruthValue

/-- The classical value on Booleans. -/
def holds : Connective → List Bool → Bool
  | .and, bs => bs.all id
  | .or, bs => bs.any id
  | .not, [a] => !a
  | .implies, [a, b] => !a || b
  | .iff, [a, b] => a == b
  | _, _ => false

/-- The value is known to be `b` exactly when the operands have to give `b`, whatever
the unknown ones turn out to be. -/
def Settled (k : Connective) (values : List TruthValue) (a : TruthValue) : Prop :=
  ∀ b, a = ofBool b ↔ ∀ bs, List.Forall₂ Admits values bs → k.holds bs = b

variable {k : Connective} {values : List TruthValue} {a a' : TruthValue} {bs : List Bool}

theorem Settled.unique (h : k.Settled values a) (h' : k.Settled values a') : a = a' := by
  have hiff (b : Bool) : a = ofBool b ↔ a' = ofBool b := (h b).trans (h' b).symm
  have htrue : a = .true ↔ a' = .true := hiff true
  have hfalse : a = .false ↔ a' = .false := hiff false
  cases a <;> cases a' <;> simp_all

/-! ## Any number of operands -/

theorem exists_admits_of_mem (h : List.Forall₂ Admits values bs) {v : TruthValue}
    (hv : v ∈ values) : ∃ b ∈ bs, v.Admits b := by
  induction h with
  | nil => exact absurd hv List.not_mem_nil
  | cons hfirst _ ih =>
    rcases List.mem_cons.1 hv with rfl | hv
    · exact ⟨_, List.mem_cons_self, hfirst⟩
    · obtain ⟨b, hb, hadmits⟩ := ih hv
      exact ⟨b, List.mem_cons_of_mem _ hb, hadmits⟩

theorem eq_of_forall_known {b : Bool} (h : List.Forall₂ Admits values bs)
    (hvalues : ∀ v ∈ values, v = ofBool b) : ∀ c ∈ bs, c = b := by
  induction h with
  | nil => exact fun c hc => absurd hc List.not_mem_nil
  | cons hfirst _ ih =>
    obtain ⟨rfl, hrest⟩ := List.forall_mem_cons.1 hvalues
    exact List.forall_mem_cons.2 ⟨admits_ofBool.1 hfirst, ih hrest⟩

/-- Where one operand of value `d` decides, the value is settled if it is `d` in that
case only, and the opposite only if all operands are. -/
theorem settled_of_decisive {d : Bool} (hholds : ∀ bs, k.holds bs = d ↔ d ∈ bs)
    (hsome : a = ofBool d ↔ ofBool d ∈ values)
    (hall : a = ofBool (!d) ↔ ∀ v ∈ values, v = ofBool (!d)) : k.Settled values a := by
  have hopposite (bs : List Bool) : k.holds bs = !d ↔ ∀ b ∈ bs, b = !d := by
    rw [Bool.eq_not, ne_eq, hholds]
    exact ⟨fun h b hb => Bool.eq_not.2 fun e => h (e ▸ hb), fun h hd => Bool.eq_not.1 (h d hd) rfl⟩
  -- Of all ways to settle the values, those that go one way everywhere are enough.
  have hsettle (b : Bool) : List.Forall₂ Admits values (values.map (settle b)) :=
    List.forall₂_map_right_iff.2 (List.forall₂_same.2 fun v _ => admits_settle b v)
  have hdecisive : a = ofBool d ↔ ∀ bs, List.Forall₂ Admits values bs → k.holds bs = d := by
    refine hsome.trans ⟨fun hmem bs hbs => ?_, fun h => ?_⟩
    · obtain ⟨b, hb, hadmits⟩ := exists_admits_of_mem hbs hmem
      exact (hholds bs).2 (admits_ofBool.1 hadmits ▸ hb)
    · obtain ⟨v, hv, hd⟩ := List.mem_map.1 ((hholds _).1 (h _ (hsettle !d)))
      exact (settle_eq_iff (by simp)).1 hd ▸ hv
  have hunanimous : a = ofBool (!d) ↔ ∀ bs, List.Forall₂ Admits values bs → k.holds bs = !d := by
    refine hall.trans ⟨fun hvalues bs hbs => ?_, fun h v hv => ?_⟩
    · exact (hopposite bs).2 (eq_of_forall_known hbs hvalues)
    · have hd := (hopposite _).1 (h _ (hsettle d)) (v.settle d) (List.mem_map_of_mem hv)
      exact (settle_eq_iff (by simp)).1 hd
  intro b
  obtain rfl | rfl : b = d ∨ b = !d := by cases b <;> cases d <;> decide
  · exact hdecisive
  · exact hunanimous

theorem foldl_eq_decisive_iff {op : TruthValue → TruthValue → TruthValue} {d : Bool}
    (hop : ∀ a v, op a v = ofBool d ↔ a = ofBool d ∨ v = ofBool d) (a : TruthValue) :
    values.foldl op a = ofBool d ↔ a = ofBool d ∨ ofBool d ∈ values := by
  induction values generalizing a with
  | nil => simp
  | cons v values ih => rw [List.foldl_cons, ih, hop, List.mem_cons, or_assoc, eq_comm (a := v)]

theorem foldl_eq_unanimous_iff {op : TruthValue → TruthValue → TruthValue} {d : Bool}
    (hop : ∀ a v, op a v = ofBool d ↔ a = ofBool d ∧ v = ofBool d) (a : TruthValue) :
    values.foldl op a = ofBool d ↔ a = ofBool d ∧ ∀ v ∈ values, v = ofBool d := by
  induction values generalizing a with
  | nil => simp
  | cons v values ih => rw [List.foldl_cons, ih, hop, List.forall_mem_cons, and_assoc]

theorem settled_and (values : List TruthValue) : Settled .and values (evaluate .and values) := by
  have hholds (bs : List Bool) : holds .and bs = false ↔ false ∈ bs := by simp [holds]
  refine settled_of_decisive hholds ?_ ?_
  · rw [evaluate, foldl_eq_decisive_iff fun a v => by cases a <;> cases v <;> decide]
    simp [ofBool]
  · rw [evaluate, foldl_eq_unanimous_iff fun a v => by cases a <;> cases v <;> decide]
    simp [ofBool]

theorem settled_or (values : List TruthValue) : Settled .or values (evaluate .or values) := by
  have hholds (bs : List Bool) : holds .or bs = true ↔ true ∈ bs := by simp [holds]
  refine settled_of_decisive hholds ?_ ?_
  · rw [evaluate, foldl_eq_decisive_iff fun a v => by cases a <;> cases v <;> decide]
    simp [ofBool]
  · rw [evaluate, foldl_eq_unanimous_iff fun a v => by cases a <;> cases v <;> decide]
    simp [ofBool]

/-! ## One or two operands -/

instance (a : TruthValue) (b : Bool) : Decidable (a.Admits b) :=
  inferInstanceAs (Decidable (∀ c ∈ a.toBool?, b = c))

theorem forall_admits_one {a : TruthValue} {P : List Bool → Prop} :
    (∀ bs, List.Forall₂ Admits [a] bs → P bs) ↔ ∀ x, a.Admits x → P [x] := by
  constructor
  · exact fun h x hx => h [x] (.cons hx .nil)
  · rintro h _ (_ | ⟨hx, _ | _⟩)
    exact h _ hx

theorem forall_admits_two {a b : TruthValue} {P : List Bool → Prop} :
    (∀ bs, List.Forall₂ Admits [a, b] bs → P bs) ↔
      ∀ x y, a.Admits x → b.Admits y → P [x, y] := by
  constructor
  · exact fun h x y hx hy => h [x, y] (.cons hx (.cons hy .nil))
  · rintro h _ (_ | ⟨hx, _ | ⟨hy, _ | _⟩⟩)
    exact h _ _ hx hy

theorem settled_not (a : TruthValue) : Settled .not [a] (evaluate .not [a]) := by
  intro b
  rw [forall_admits_one]
  cases a <;> cases b <;> decide

theorem settled_implies (a b : TruthValue) :
    Settled .implies [a, b] (evaluate .implies [a, b]) := by
  intro c
  rw [forall_admits_two]
  cases a <;> cases b <;> cases c <;> decide

theorem settled_iff (a b : TruthValue) : Settled .iff [a, b] (evaluate .iff [a, b]) := by
  intro c
  rw [forall_admits_two]
  cases a <;> cases b <;> cases c <;> decide

/-- The value of a connective is known as far as the operands settle it. -/
theorem settled_evaluate (h : k.Accepts values.length) : k.Settled values (k.evaluate values) := by
  cases k with
  | and => exact settled_and values
  | or => exact settled_or values
  | not =>
    obtain ⟨a, rfl⟩ := List.length_eq_one_iff.1 (h 1 rfl)
    exact settled_not a
  | implies =>
    obtain ⟨a, b, rfl⟩ := List.length_eq_two.1 (h 2 rfl)
    exact settled_implies a b
  | iff =>
    obtain ⟨a, b, rfl⟩ := List.length_eq_two.1 (h 2 rfl)
    exact settled_iff a b

end Connective
end Unification
