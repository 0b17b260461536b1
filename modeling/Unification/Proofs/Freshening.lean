import Mathlib.Data.List.DropRight
import Mathlib.Logic.Function.Iterate
import Unification.Proofs.FreshNames
import Unification.Proofs.Recording
import Unification.Proofs.Session

/-!
# Freshening again and again

A fresh variable is named after the old one, and the old one may have been fresh itself.  Its
number is taken off before another one is put on, so names do not grow.  Taking digits off the
end undoes putting a number on (`Text.trimDigits_append_toString`), whatever digits stand
elsewhere, so what matters of a made-up name is its stem, and stems follow one another by
`Registry.Config.stemOf` alone (`Session.exists_numbers_freshenings`).

A stem without digits at its end comes back for good.  A configured prefix may have some, and
then it is used once and gives way to what remains of it.  The numbers come from the one counter
of the registry and increase, whatever else is asked of it meanwhile.
-/

namespace Unification

namespace Text

/-- The text without the ASCII digits that it ends in. -/
def trimDigits (text : String) : String := .ofList (text.toList.rdropWhile Char.isDigit)

theorem trimDigits_append {digits : String} (h : ∀ c ∈ digits.toList, c.isDigit = true)
    (text : String) : trimDigits (text ++ digits) = trimDigits text := by
  have hdigits : ∀ c ∈ digits.toList.reverse, c.isDigit = true := by simpa using h
  rw [trimDigits, trimDigits, String.toList_append, List.rdropWhile, List.rdropWhile,
    List.reverse_append, List.dropWhile_append_of_pos hdigits]

theorem trimDigits_append_toString (text : String) (k : Nat) :
    trimDigits (text ++ toString k) = trimDigits text := by
  refine trimDigits_append (fun c hc => ?_) text
  rw [Nat.toString_eq_repr, Nat.toList_repr] at hc
  exact Nat.isDigit_of_mem_toDigits (by decide) (by decide) hc

theorem trimDigits_trimDigits (text : String) : trimDigits (trimDigits text) = trimDigits text := by
  rw [trimDigits, trimDigits, String.toList_ofList, List.rdropWhile_idempotent]

theorem trimDigits_eq_empty_iff {text : String} :
    trimDigits text = "" ↔ ∀ c ∈ text.toList, c.isDigit = true := by
  rw [trimDigits, String.ofList_eq_empty_iff, List.rdropWhile_eq_nil_iff]

end Text

open Text

theorem Variable.stem_eq (v : Variable) : v.stem = trimDigits v.name := rfl

namespace Registry

/-- The stem of the fresh names made from a name. -/
def Config.stemOf (config : Config) (name : String) : String :=
  if trimDigits name = "" then config.freshPrefix else trimDigits name

variable {config : Config}

/-- Numbers put on a name do not change what is made from it. -/
theorem Config.stemOf_append_toString (name : String) (k : Nat) :
    config.stemOf (name ++ toString k) = config.stemOf name := by
  rw [stemOf, stemOf, trimDigits_append_toString]

theorem Config.stemOf_of_ne_empty {name : String} (h : trimDigits name ≠ "") :
    config.stemOf name = trimDigits name := if_neg h

theorem Config.stemOf_of_eq_empty {name : String} (h : trimDigits name = "") :
    config.stemOf name = config.freshPrefix := if_pos h

/-- What remains of a name is kept. -/
theorem Config.iterate_stemOf_of_ne_empty {name : String} (h : trimDigits name ≠ "") (i : Nat) :
    config.stemOf^[i + 1] name = trimDigits name := by
  have hkept : config.stemOf (trimDigits name) = trimDigits name := by
    rw [stemOf, trimDigits_trimDigits, if_neg h]
  rw [Function.iterate_succ_apply, stemOf_of_ne_empty h, Function.iterate_fixed hkept]

/-- Where nothing remains, the prefix steps in, and gives way to what remains of itself. -/
theorem Config.iterate_stemOf_of_eq_empty {name : String} (h : trimDigits name = "") (i : Nat) :
    config.stemOf^[i + 1] name =
      if i = 0 ∨ trimDigits config.freshPrefix = "" then config.freshPrefix
      else trimDigits config.freshPrefix := by
  rw [Function.iterate_succ_apply, stemOf_of_eq_empty h]
  by_cases hempty : trimDigits config.freshPrefix = ""
  · rw [if_pos (.inr hempty), Function.iterate_fixed (stemOf_of_eq_empty hempty)]
  · cases i with
    | zero => simp
    | succ i => rw [iterate_stemOf_of_ne_empty hempty, if_neg (by simp [hempty])]

end Registry

namespace Session

/-- A fresh variable of the registry in use. -/
def freshen (s : Session) (x : Variable) : Variable × Session :=
  let (w, r) := x.fresh s.registry
  (w, { s with registry := r })

/-- Freshens a variable, then what has come of it, and so on, each time after the operations
of one list. -/
def freshenings (s : Session) (x : Variable) : List (List Operation) → List Variable × Session
  | [] => ([], s)
  | os :: oss =>
    let (w, s) := (s.last os).freshen x
    let (ws, s) := freshenings s w oss
    (w :: ws, s)

/-! ## In machine words -/

def last? (depth : Nat) (s : Session) (os : List Operation) : Option Session :=
  os.foldlM (fun s o => (s.perform? depth o).map Step.after) s

def freshen? (depth : Nat) (s : Session) (x : Variable) : Option (Variable × Session) :=
  (s.registry.makeUp? depth (s.registry.stem x.stem?)).map fun (symbol, r) =>
    (⟨symbol⟩, { s with registry := r })

def freshenings? (depth : Nat) (s : Session) (x : Variable) :
    List (List Operation) → Option (List Variable × Session)
  | [] => some ([], s)
  | os :: oss => do
    let (w, s) ← (← s.last? depth os).freshen? depth x
    let (ws, s) ← freshenings? depth s w oss
    return (w :: ws, s)

variable {s : Session} {x : Variable} {os : List Operation} {oss : List (List Operation)}

theorem freshenings_cons (s : Session) (x : Variable) (os : List Operation)
    (oss : List (List Operation)) :
    s.freshenings x (os :: oss) =
      let fresh := (s.last os).freshen x
      (fresh.1 :: (fresh.2.freshenings fresh.1 oss).1, (fresh.2.freshenings fresh.1 oss).2) := rfl

theorem extends_last (s : Session) (os : List Operation) :
    s.registry.Extends (s.last os).registry := by
  obtain ⟨log, hlog⟩ := s.exists_logs_last os
  exact hlog.makes.grows

theorem extends_freshen (s : Session) (x : Variable) :
    s.registry.Extends (s.freshen x).2.registry :=
  Registry.extends_call s.registry (.fresh x)

theorem extends_freshenings (s : Session) (x : Variable) (oss : List (List Operation)) :
    s.registry.Extends (s.freshenings x oss).2.registry := by
  induction oss generalizing s x with
  | nil => exact .refl s.registry
  | cons os oss ih =>
    exact ((s.extends_last os).trans ((s.last os).extends_freshen x)).trans (ih _ _)

theorem ends_last (h : (s.last os).registry.counter < UInt64.size) :
    Ends (s.last? · os) (s.last os) := by
  induction os generalizing s with
  | nil => exact .const _
  | cons o os ih =>
    have hfirst : (s.perform o).after.registry.counter < UInt64.size :=
      ((s.perform o).after.extends_last os).counter.trans_lt h
    filter_upwards [ends_perform hfirst, ih h] with depth hdepth hdepths
    rw [last?, List.foldlM_cons, hdepth]
    exact hdepths

theorem ends_freshen (h : (s.freshen x).2.registry.counter < UInt64.size) :
    Ends (s.freshen? · x) (s.freshen x) :=
  (Registry.ends_makeUp h).map _

theorem ends_freshenings (h : (s.freshenings x oss).2.registry.counter < UInt64.size) :
    Ends (s.freshenings? · x oss) (s.freshenings x oss) := by
  induction oss generalizing s x with
  | nil => exact .const _
  | cons os oss ih =>
    -- The counter only grows, so it is a word all along.
    have hfresh : ((s.last os).freshen x).2.registry.counter < UInt64.size :=
      (extends_freshenings _ _ oss).counter.trans_lt h
    have hlast : (s.last os).registry.counter < UInt64.size :=
      ((s.last os).extends_freshen x).counter.trans_lt hfresh
    have hrest : Ends (((s.last os).freshen x).2.freshenings? · ((s.last os).freshen x).1 oss)
        (((s.last os).freshen x).2.freshenings ((s.last os).freshen x).1 oss) := ih h
    filter_upwards [ends_last hlast, ends_freshen hfresh, hrest] with depth hos hx hoss
    simp only [freshenings?, hos, hx, hoss, Option.bind_eq_bind, Option.bind_some, Option.pure_def]
    rfl

/-! ## Names and numbers -/

theorem exists_number_freshen (s : Session) (x : Variable) :
    ∃ k, (s.freshen x).1.name = s.registry.config.stemOf x.name ++ toString k ∧
      s.registry.counter ≤ k ∧ (s.freshen x).2.registry.counter = k + 1 := by
  obtain ⟨k, hk⟩ := Registry.exists_call_makesUp (r := s.registry) (q := .fresh x) rfl
  have hsymbol : (s.freshen x).1.symbol = .numbered (s.registry.stem x.stem?) k :=
    Except.ok.inj hk.answer
  refine ⟨k, ?_, hk.least.1.1, hk.counter⟩
  rw [Variable.name, hsymbol, Registry.stem_stem?, Variable.stem_eq]
  rfl

theorem exists_number_freshen_last (s : Session) (x : Variable) (os : List Operation) :
    ∃ k, ((s.last os).freshen x).1.name = s.registry.config.stemOf x.name ++ toString k ∧
      s.registry.counter ≤ k ∧ ((s.last os).freshen x).2.registry.counter = k + 1 := by
  obtain ⟨k, hname, hle, hcounter⟩ := (s.last os).exists_number_freshen x
  rw [(s.extends_last os).config] at hname
  exact ⟨k, hname, (s.extends_last os).counter.trans hle, hcounter⟩

/-- The numbers come from the counter, one after the other, and each name has the stem of
the one before. -/
theorem exists_numbers_freshenings (s : Session) (x : Variable) (oss : List (List Operation)) :
    ∃ ks : List Nat, ks.length = oss.length ∧ ks.Pairwise (· < ·) ∧
      (∀ k ∈ ks, s.registry.counter ≤ k) ∧
      (s.freshenings x oss).1.map Variable.name =
        ks.mapIdx fun i k => s.registry.config.stemOf^[i + 1] x.name ++ toString k := by
  induction oss generalizing s x with
  | nil => exact ⟨[], rfl, .nil, by simp, rfl⟩
  | cons os oss ih =>
    obtain ⟨k, hname, hle, hcounter⟩ := s.exists_number_freshen_last x os
    obtain ⟨ks, hlength, hincrease, hfrom, hnames⟩ :=
      ih ((s.last os).freshen x).2 ((s.last os).freshen x).1
    have hconfig := ((s.extends_last os).trans ((s.last os).extends_freshen x)).config
    rw [hcounter] at hfrom
    refine ⟨k :: ks, by simp [hlength], List.pairwise_cons.2 ⟨hfrom, hincrease⟩,
      List.forall_mem_cons.2 ⟨hle, fun m hm => ?_⟩, ?_⟩
    · have := hfrom m hm
      omega
    · have hstem (i : Nat) : s.registry.config.stemOf^[i + 1] ((s.last os).freshen x).1.name =
          s.registry.config.stemOf^[i + 1 + 1] x.name := by
        rw [hname, Function.iterate_succ_apply, Registry.Config.stemOf_append_toString,
          Function.iterate_succ_apply, Function.iterate_succ_apply]
      rw [freshenings_cons, List.mapIdx_cons, List.map_cons, hnames, hconfig]
      simp only [hstem]
      rw [hname]
      rfl

/-- However often a variable is freshened, its name is one stem and one number, and the numbers
increase.  The stem is what remains of the name that there was at first.  Where nothing does, the
configured prefix steps in; after the first time what remains of the prefix is the stem, or the
whole prefix if nothing does. -/
theorem freshened_names_keep_stem (s : Session) (x : Variable) (oss : List (List Operation))
    (h : (s.freshenings x oss).2.registry.counter < UInt64.size - 1) :
    Ends (s.freshenings? · x oss) (s.freshenings x oss) ∧
      ∃ ks : List Nat, ks.length = oss.length ∧ ks.Pairwise (· < ·) ∧
        ((¬∀ c ∈ x.name.toList, c.isDigit = true) →
          (s.freshenings x oss).1.map Variable.name =
            ks.map fun k => trimDigits x.name ++ toString k) ∧
        ((∀ c ∈ x.name.toList, c.isDigit = true) →
          (s.freshenings x oss).1.map Variable.name =
            ks.mapIdx fun i k =>
              (if i = 0 ∨ trimDigits s.registry.config.freshPrefix = "" then
                s.registry.config.freshPrefix
              else trimDigits s.registry.config.freshPrefix) ++ toString k) := by
  refine ⟨ends_freshenings (Nat.lt_of_lt_of_le h (Nat.sub_le _ _)), ?_⟩
  obtain ⟨ks, hlength, hincrease, -, hnames⟩ := s.exists_numbers_freshenings x oss
  refine ⟨ks, hlength, hincrease, fun hname => ?_, fun hname => ?_⟩
  · rw [← trimDigits_eq_empty_iff] at hname
    simp only [hnames, Registry.Config.iterate_stemOf_of_ne_empty hname]
    exact List.ext_getElem (by simp) (by simp)
  · rw [← trimDigits_eq_empty_iff] at hname
    simp only [hnames, Registry.Config.iterate_stemOf_of_eq_empty hname]

/-- With `A1` configured, `7` becomes `A10` and goes on as `A`, past the `A1` that is asked for;
`B2C9` keeps the digit inside. -/
theorem freshened_names_keep_stem_mixed :
    ∃ (s : Session) (seven mixed : Variable) (oss : List (List Operation)),
      s.registry.config.freshPrefix = "A1" ∧
      seven.name = "7" ∧ mixed.name = "B2C9" ∧
      (s.freshenings seven oss).1.map Variable.name = ["A10", "A2", "A5"] ∧
      (s.freshenings mixed oss).1.map Variable.name = ["B2C0", "B2C1", "B2C4"] ∧
      ∀ x ∈ [seven, mixed],
        (s.freshenings x oss).2.registry.counter < UInt64.size - 1 ∧
        Ends (s.freshenings? · x oss) (s.freshenings x oss) ∧
        ∃ ks : List Nat, ks.length = oss.length ∧ ks.Pairwise (· < ·) ∧
          ((¬∀ c ∈ x.name.toList, c.isDigit = true) →
            (s.freshenings x oss).1.map Variable.name =
              ks.map fun k => trimDigits x.name ++ toString k) ∧
          ((∀ c ∈ x.name.toList, c.isDigit = true) →
            (s.freshenings x oss).1.map Variable.name =
              ks.mapIdx fun i k =>
                (if i = 0 ∨ trimDigits s.registry.config.freshPrefix = "" then
                  s.registry.config.freshPrefix
                else trimDigits s.registry.config.freshPrefix) ++ toString k) := by
  let s : Session := start (.ofConfig { freshPrefix := "A1" })
  let seven : Variable := ⟨⟨"7", by decide⟩⟩
  let mixed : Variable := ⟨⟨"B2C9", by decide⟩⟩
  let oss : List (List Operation) := [[], [.request (.get "A1")],
    [.request (.generate none), .standardize 0 (.term (.var Sample.x))]]
  have hcounter : ∀ x ∈ [seven, mixed],
      (s.freshenings x oss).2.registry.counter < UInt64.size - 1 := by decide +kernel
  exact ⟨s, seven, mixed, oss, rfl, rfl, rfl, by decide +kernel, by decide +kernel,
    fun x hx => ⟨hcounter x hx, freshened_names_keep_stem s x oss (hcounter x hx)⟩⟩

end Session
end Unification
