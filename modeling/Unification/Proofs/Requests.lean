import Unification.Renaming

/-!
# Requests to a registry

A registry is used by asking it for symbols, of a given name or made up.
`Registry.calls` is what happens when it is asked for several, one after the other,
with the registry before and after each call.  A registry only grows: whatever is
asked of it, what it has handed out stays and its counter does not go back.
-/

namespace Unification
namespace Registry

/-- What can be asked of a registry. -/
inductive Request where
  | get (name : String)
  | getOptional (name? : Option String)
  | generate (stem? : Option String)
  /-- A fresh variable, named after this one. -/
  | fresh (v : Variable)

namespace Request

/-- The stem of the symbol that the registry has to make up for the request, if any. -/
def stem? (r : Registry) : Request → Option String
  | get _ | getOptional _ => none
  | generate stem? => some (r.stem stem?)
  | fresh v => some (r.stem v.stem?)

def answer (r : Registry) : Request → Except Error (Symbol × Registry)
  | get name => r.get name
  | getOptional name? => r.getOptional name?
  | generate stem? => .ok (r.generate stem?)
  | fresh v =>
    let (w, r) := v.fresh r
    .ok (w.symbol, r)

end Request

/-- A request and how it went. -/
structure Call where
  before : Registry
  request : Request
  answer : Except Error Symbol
  after : Registry

/-- Makes a request.  One that fails leaves the registry as it was. -/
def call (r : Registry) (q : Request) : Call :=
  match q.answer r with
  | .ok (s, after) => ⟨r, q, .ok s, after⟩
  | .error cause => ⟨r, q, .error cause, r⟩

/-- Makes requests from left to right. -/
def calls (r : Registry) : List Request → List Call
  | [] => []
  | q :: qs => r.call q :: (r.call q).after.calls qs

/-- `r'` is `r` after any use. -/
structure Extends (r r' : Registry) : Prop where
  config : r'.config = r.config
  symbols : r.symbols ⊆ r'.symbols
  counter : r.counter ≤ r'.counter

variable {r r' r'' : Registry} {q : Request} {qs : List Request} {c : Call} {s : Symbol}
  {stem : String}

theorem Extends.refl (r : Registry) : r.Extends r := ⟨rfl, fun _ h => h, Nat.le_refl _⟩

theorem Extends.trans (h : r.Extends r') (h' : r'.Extends r'') : r.Extends r'' :=
  ⟨h'.config.trans h.config, fun _ hs => h'.symbols (h.symbols hs),
    Nat.le_trans h.counter h'.counter⟩

theorem extends_insert (r : Registry) (s : Symbol) : r.Extends (r.insert s) :=
  ⟨config_insert r s, fun _ h => mem_insert.2 (.inr h), Nat.le_of_eq (counter_insert r s).symm⟩

/-- Which stem is meant depends on the configuration only. -/
theorem Extends.stem?_eq (h : r.Extends r') (q : Request) : q.stem? r' = q.stem? r := by
  cases q with
  | get name => rfl
  | getOptional name? => rfl
  | generate stem? => simp only [Request.stem?, stem, h.config]
  | fresh v => simp only [Request.stem?, stem, h.config]

/-! ## One call -/

@[simp] theorem before_call (r : Registry) (q : Request) : (r.call q).before = r := by
  unfold call
  split <;> rfl

@[simp] theorem request_call (r : Registry) (q : Request) : (r.call q).request = q := by
  unfold call
  split <;> rfl

/-- A call that makes up a symbol takes the least unused number from the counter on,
and puts the counter behind it. -/
theorem call_of_stem (h : q.stem? r = some stem) :
    r.call q =
      let k := Symbol.leastUnused stem r.symbols r.counter
      let s := Symbol.numbered stem k
      ⟨r, q, .ok s, { r.insert s with counter := k + 1 }⟩ := by
  cases q with
  | get name => cases h
  | getOptional name? => cases h
  | generate stem? => cases h; rfl
  | fresh v => cases h; rfl

theorem get_cases (r : Registry) (name : String) :
    (∃ cause, r.get name = .error cause) ∨ ∃ s, r.get name = .ok (s, r.insert s) := by
  unfold Registry.get
  cases Symbol.ofName? name with
  | none => exact .inl ⟨_, rfl⟩
  | some s => exact .inr ⟨s, rfl⟩

theorem answer_of_no_stem (h : q.stem? r = none) :
    (∃ cause, q.answer r = .error cause) ∨ ∃ s, q.answer r = .ok (s, r.insert s) := by
  cases q with
  | get name => exact get_cases r name
  | getOptional name? =>
    cases name? with
    | none => exact .inl ⟨_, rfl⟩
    | some name => exact get_cases r name
  | generate stem? => cases h
  | fresh v => cases h

/-- Any other call leaves the registry as it was or has it remember the answer. -/
theorem call_of_no_stem (h : q.stem? r = none) :
    (∃ cause, r.call q = ⟨r, q, .error cause, r⟩) ∨ ∃ s, r.call q = ⟨r, q, .ok s, r.insert s⟩ := by
  unfold call
  obtain ⟨cause, hanswer⟩ | ⟨s, hanswer⟩ := answer_of_no_stem h
  · rw [hanswer]
    exact .inl ⟨cause, rfl⟩
  · rw [hanswer]
    exact .inr ⟨s, rfl⟩

theorem extends_call (r : Registry) (q : Request) : r.Extends (r.call q).after := by
  cases hq : q.stem? r with
  | none =>
    obtain ⟨cause, h⟩ | ⟨s, h⟩ := call_of_no_stem hq
    · rw [h]
      exact .refl r
    · rw [h]
      exact extends_insert r s
  | some stem =>
    rw [call_of_stem hq]
    have hle := Symbol.le_leastUnused stem r.symbols r.counter
    exact (extends_insert r _).trans ⟨rfl, fun _ h => h, by
      rw [counter_insert]
      exact Nat.le_succ_of_le hle⟩

theorem mem_of_call_eq_ok (h : (r.call q).answer = .ok s) : s ∈ (r.call q).after.symbols := by
  cases hq : q.stem? r with
  | none =>
    obtain ⟨cause, hcall⟩ | ⟨s', hcall⟩ := call_of_no_stem hq
    · rw [hcall] at h
      cases h
    · rw [hcall] at h ⊢
      cases h
      exact mem_insert.2 (.inl rfl)
  | some stem =>
    rw [call_of_stem hq] at h ⊢
    cases h
    exact mem_insert.2 (.inl rfl)

/-! ## Several calls -/

/-- Every call of a run is made on a registry that extends the one at the start. -/
theorem exists_call_of_mem_calls (h : c ∈ r.calls qs) :
    ∃ r', r.Extends r' ∧ c = r'.call c.request := by
  induction qs generalizing r with
  | nil => cases h
  | cons q qs ih =>
    obtain rfl | hmem := List.mem_cons.1 h
    · exact ⟨r, .refl r, by rw [request_call]⟩
    · obtain ⟨r', hr', hc⟩ := ih hmem
      exact ⟨r', (extends_call r q).trans hr', hc⟩

/-- Later calls of a run find all that earlier ones have left. -/
theorem pairwise_calls (r : Registry) (qs : List Request) :
    (r.calls qs).Pairwise fun c d => c.after.Extends d.before := by
  induction qs generalizing r with
  | nil => exact .nil
  | cons q qs ih =>
    refine List.pairwise_cons.2 ⟨fun d hd => ?_, ih _⟩
    obtain ⟨r', hr', hd⟩ := exists_call_of_mem_calls hd
    rw [hd, before_call]
    exact hr'

end Registry
end Unification
