import Unification.Formula.Lemmas
import Unification.Proofs.Json.Draft

/-!
# What is admitted

`faults` lists everything that is wrong with a draft in the order in which it is read:
the empty names, and the connectives that do not accept their operands.  Building a draft
ends at the first of its faults and has a result if there is none
(`Formula.Draft.build_endsAt`), and so does reading its text
(`Formula.Draft.read_iff_faultless`).
-/

namespace Unification

/-! ## What building can fail at -/

/-- Work that comes to these faults in this order ends at the first, and otherwise has a
result. -/
def EndsAt {α : Type} (r : Except Error α) : List ArgumentFault → Prop
  | [] => ∃ a, r = .ok a
  | fault :: _ => r = .error (.invalidArgument fault)

namespace EndsAt

variable {α β : Type} {r : Except Error α} {faults : List ArgumentFault}

theorem pure (a : α) : EndsAt (.ok a) [] := ⟨a, rfl⟩

/-- Work that goes on after other work comes to its faults later. -/
theorem bind {g : α → Except Error β} {later : List ArgumentFault} (hr : EndsAt r faults)
    (hg : ∀ a, r = .ok a → EndsAt (g a) later) : EndsAt (r >>= g) (faults ++ later) := by
  cases faults with
  | nil =>
    obtain ⟨a, rfl⟩ := hr
    exact hg a rfl
  | cons fault faults =>
    cases hr
    rfl

theorem map (hr : EndsAt r faults) (g : α → β) : EndsAt (g <$> r) faults := by
  cases faults with
  | nil =>
    obtain ⟨a, rfl⟩ := hr
    exact ⟨g a, rfl⟩
  | cons fault faults =>
    cases hr
    rfl

theorem exists_ok_iff (h : EndsAt r faults) : (∃ a, r = .ok a) ↔ faults = [] := by
  cases faults with
  | nil => exact iff_of_true h rfl
  | cons fault faults =>
    cases h
    exact iff_of_false nofun nofun

theorem eq_error_iff (h : EndsAt r faults) {e : Error} :
    r = .error e ↔ ∃ fault ∈ faults.head?, e = .invalidArgument fault := by
  cases faults with
  | nil =>
    obtain ⟨a, rfl⟩ := h
    exact iff_of_false nofun nofun
  | cons fault faults =>
    cases h
    constructor
    · rintro ⟨⟩
      exact ⟨fault, rfl, rfl⟩
    · rintro ⟨_, ⟨⟩, rfl⟩
      rfl

end EndsAt

/-- An empty name is no name. -/
def Symbol.faults (name : String) : List ArgumentFault :=
  if name = "" then [.missingName] else []

theorem Symbol.faults_eq_nil_iff {name : String} : Symbol.faults name = [] ↔ name ≠ "" := by
  unfold faults
  split <;> simp [*]

theorem Symbol.endsAt_named (name : String) : EndsAt (Symbol.named name) (Symbol.faults name) := by
  unfold faults
  split
  · next h =>
    subst h
    rfl
  · next h =>
    refine ⟨⟨name, h⟩, ?_⟩
    simp [named, Registry.get, ofName?, h, Except.map]

/-- A connective that fixes the number of its operands is at fault under any other. -/
def Connective.faults (k : Connective) (count : Nat) : List ArgumentFault :=
  match k.arity? with
  | some n => if count = n then [] else [.operandCount k n count]
  | none => []

theorem Connective.faults_eq_nil_iff {k : Connective} {count : Nat} :
    k.faults count = [] ↔ k.Accepts count := by
  unfold faults
  split
  · next n hn =>
    rw [accepts_iff_of_arity?_eq_some hn]
    split <;> simp [*]
  · next hn => exact iff_of_true rfl (accepts_of_arity?_eq_none hn count)

theorem Formula.endsAt_connect? (k : Connective) (operands : List Formula) :
    EndsAt (connect? k operands) (k.faults operands.length) := by
  unfold connect? Connective.faults
  cases k.arity? with
  | none => exact .pure _
  | some n =>
    by_cases h : operands.length = n
    · simp only [if_pos h]
      exact .pure _
    · simp only [if_neg h]
      rfl

namespace Term.Draft

mutual
/-- The faults of a term in the order in which they are read. -/
def faults : Draft → List ArgumentFault
  | var name | const name => Symbol.faults name
  | app name args => Symbol.faults name ++ faultsAll args

def faultsAll : List Draft → List ArgumentFault
  | [] => []
  | d :: ds => faults d ++ faultsAll ds
end

mutual
def names : Draft → List String
  | var name | const name => [name]
  | app name args => name :: namesAll args

def namesAll : List Draft → List String
  | [] => []
  | d :: ds => names d ++ namesAll ds
end

mutual
theorem build_endsAt : (d : Draft) → EndsAt d.build d.faults
  | var name => (Symbol.endsAt_named name).map _
  | const name => (Symbol.endsAt_named name).map _
  | app name args => (Symbol.endsAt_named name).bind fun _ _ => (buildAll_endsAt args).map _

theorem buildAll_endsAt : (ds : List Draft) → EndsAt (buildAll ds) (faultsAll ds)
  | [] => .pure []
  | d :: ds => (build_endsAt d).bind fun _ _ => (buildAll_endsAt ds).map _
end

mutual
theorem faults_eq_nil_iff : (d : Draft) → (d.faults = [] ↔ ∀ name ∈ d.names, name ≠ "")
  | var name => by rw [faults, names, List.forall_mem_singleton, Symbol.faults_eq_nil_iff]
  | const name => by rw [faults, names, List.forall_mem_singleton, Symbol.faults_eq_nil_iff]
  | app name args => by
    rw [faults, names, List.forall_mem_cons, List.append_eq_nil_iff, Symbol.faults_eq_nil_iff,
      faultsAll_eq_nil_iff args]

theorem faultsAll_eq_nil_iff :
    (ds : List Draft) → (faultsAll ds = [] ↔ ∀ name ∈ namesAll ds, name ≠ "")
  | [] => iff_of_true rfl nofun
  | d :: ds => by
    rw [faultsAll, namesAll, List.forall_mem_append, List.append_eq_nil_iff, faults_eq_nil_iff d,
      faultsAll_eq_nil_iff ds]
end

end Term.Draft

namespace Formula.Draft

mutual
/-- The faults of a formula in the order in which they are read: an operator comes after
everything in it. -/
def faults : Draft → List ArgumentFault
  | predicate name args _ => Symbol.faults name ++ Term.Draft.faultsAll args
  | operator k operands _ => faultsAll operands ++ k.faults operands.length

def faultsAll : List Draft → List ArgumentFault
  | [] => []
  | d :: ds => faults d ++ faultsAll ds
end

mutual
def names : Draft → List String
  | predicate name args _ => name :: Term.Draft.namesAll args
  | operator _ operands _ => namesAll operands

def namesAll : List Draft → List String
  | [] => []
  | d :: ds => names d ++ namesAll ds
end

mutual
/-- The connectives of a formula, each with the number of its operands. -/
def connectives : Draft → List (Connective × Nat)
  | predicate _ _ _ => []
  | operator k operands _ => (k, operands.length) :: connectivesAll operands

def connectivesAll : List Draft → List (Connective × Nat)
  | [] => []
  | d :: ds => connectives d ++ connectivesAll ds
end

theorem length_buildAll {ds : List Draft} {fs : List Formula} (h : buildAll ds = .ok fs) :
    fs.length = ds.length := by
  induction ds generalizing fs with
  | nil =>
    cases h
    rfl
  | cons d ds ih =>
    rw [buildAll] at h
    cases hd : build d with
    | error e =>
      rw [hd] at h
      cases h
    | ok f =>
      cases hds : buildAll ds with
      | error e =>
        rw [hd, hds] at h
        cases h
      | ok gs =>
        rw [hd, hds] at h
        cases h
        rw [List.length_cons, ih hds, List.length_cons]

mutual
theorem build_endsAt : (d : Draft) → EndsAt d.build d.faults
  | predicate name args _ =>
    (Symbol.endsAt_named name).bind fun _ _ => (Term.Draft.buildAll_endsAt args).map _
  | operator k operands _ =>
    (buildAll_endsAt operands).bind fun fs hfs =>
      length_buildAll hfs ▸ endsAt_connect? k fs

theorem buildAll_endsAt : (ds : List Draft) → EndsAt (buildAll ds) (faultsAll ds)
  | [] => .pure []
  | d :: ds => (build_endsAt d).bind fun _ _ => (buildAll_endsAt ds).map _
end

mutual
theorem faults_eq_nil_iff :
    (d : Draft) → (d.faults = [] ↔
      (∀ name ∈ d.names, name ≠ "") ∧ ∀ k ∈ d.connectives, k.1.Accepts k.2)
  | predicate name args value? => by
    rw [faults, names, connectives, List.forall_mem_cons, List.append_eq_nil_iff,
      Symbol.faults_eq_nil_iff, Term.Draft.faultsAll_eq_nil_iff args]
    exact (and_iff_left (List.forall_mem_nil _)).symm
  | operator k operands claim? => by
    rw [faults, names, connectives, List.forall_mem_cons, List.append_eq_nil_iff,
      Connective.faults_eq_nil_iff, faultsAll_eq_nil_iff operands, and_assoc]
    exact and_congr_right fun _ => and_comm

theorem faultsAll_eq_nil_iff :
    (ds : List Draft) → (faultsAll ds = [] ↔
      (∀ name ∈ namesAll ds, name ≠ "") ∧ ∀ k ∈ connectivesAll ds, k.1.Accepts k.2)
  | [] => iff_of_true rfl ⟨nofun, nofun⟩
  | d :: ds => by
    rw [faultsAll, namesAll, connectivesAll, List.forall_mem_append, List.forall_mem_append,
      List.append_eq_nil_iff, faults_eq_nil_iff d, faultsAll_eq_nil_iff ds]
    exact and_and_and_comm
end

/-- Writing a draft gives a text of it.  Every text of a draft within the depth limit is
read as the formula that the draft builds, whatever it claims the values of operators to
be: if no name is empty and every connective accepts its operands.  Otherwise the reading
ends at the first fault. -/
theorem read_iff_faultless (d : Draft) (hdepth : d.depth ≤ Json.depthLimit) :
    ((∀ claim ∈ d.claims, claim.isWritable) →
      Json.Document.ofText d.toJson.text = ⟨d.toJson, true⟩) ∧
    ∀ text, Json.Document.ofText text = ⟨d.toJson, true⟩ →
      ((∃ f, (Json.readText ofJson text).outcome = .ok f) ↔
        (∀ name ∈ d.names, name ≠ "") ∧ ∀ k ∈ d.connectives, k.1.Accepts k.2) ∧
      (∀ f, (Json.readText ofJson text).outcome = .ok f ↔ d.build = .ok f) ∧
      ∀ e, (Json.readText ofJson text).outcome = .error e ↔
        ∃ fault ∈ d.faults.head?, e = .rejected (.invalidArgument fault) := by
  refine ⟨fun hclaims => Json.Document.ofText_text ((isWritable_toJson_iff d).2 hclaims),
    fun text htext => ?_⟩
  have hread : (Json.readText ofJson text).outcome = d.build.mapError .rejected := by
    rw [Json.outcome_readText htext]
    exact outcome_ofJson d hdepth (Json.Document.isSound_of_complete htext)
  have hends := build_endsAt d
  have hok (f : Formula) : (Json.readText ofJson text).outcome = .ok f ↔ d.build = .ok f := by
    rw [hread]
    cases d.build <;> simp
  refine ⟨?_, hok, fun e => ?_⟩
  · rw [← faults_eq_nil_iff, ← hends.exists_ok_iff]
    exact exists_congr hok
  · rw [hread]
    constructor
    · intro h
      cases hbuild : d.build with
      | error cause =>
        obtain ⟨fault, hfault, rfl⟩ := hends.eq_error_iff.1 hbuild
        rw [hbuild] at h
        cases h
        exact ⟨fault, hfault, rfl⟩
      | ok f =>
        rw [hbuild] at h
        cases h
    · rintro ⟨fault, hfault, rfl⟩
      rw [hends.eq_error_iff.2 ⟨fault, hfault, rfl⟩]
      rfl

/-- One text claims values that the parts do not give.  In the other a negation of nothing
comes before an empty name, inside a negation of two operands. -/
theorem read_iff_faultless_claims :
    let p : Symbol := ⟨"p\"\n", by decide⟩
    let x : Symbol := ⟨"x", by decide⟩
    let good : Draft := .operator .or
      [.operator .not [.predicate p.name [.app p.name [], .var x.name] (some .true)]
        (some (.bool true)), .predicate p.name [] none]
      (some (.array [.number "-1e2", .ofFields [("value", .null)]]))
    let bad : Draft := .operator .not
      [.operator .not [] (some (.ofString "true")), .predicate "" [] none] none
    (Json.readText ofJson good.toJson.text).outcome =
      .ok (.operator .or
        [.operator .not [.predicate p [.app p [], .var ⟨x⟩] .true] .false,
          .predicate p [] .unknown] .unknown) ∧
    (Json.readText ofJson bad.toJson.text).outcome =
      .error (.rejected (.invalidArgument (.operandCount .not 1 0))) ∧
    bad.faults = [.operandCount .not 1 0, .missingName, .operandCount .not 1 2] := by
  intro p x good bad
  obtain ⟨htext, hread⟩ := read_iff_faultless good (by decide +kernel)
  obtain ⟨-, hok, -⟩ := hread _ (htext (by decide +kernel))
  obtain ⟨htext', hread'⟩ := read_iff_faultless bad (by decide +kernel)
  obtain ⟨-, -, herror⟩ := hread' _ (htext' (by decide +kernel))
  refine ⟨(hok _).2 rfl, (herror _).2 ?_, by decide +kernel⟩
  exact ⟨.operandCount .not 1 0, by decide +kernel, rfl⟩

end Formula.Draft
end Unification
