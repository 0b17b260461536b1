import Unification.Proofs.Occurrences
import Unification.Proofs.Requests

/-!
# Renaming apart

To rename an expression apart is to ask the record for a replacement of each of its
occurrences, from left to right, and then to rename with the record that this ends in
(`Expression.standardizeApart_eq`).  A replacement, once recorded, stays, so it does
not matter that the occurrences on the left are renamed before the record is complete.

What is recorded on the way is new: `Registry.Makes` says of variables that no two of
them are the same and that none has a symbol handed out before, and it composes along
any use of the registry.  Where nothing was recorded before, the replacements are these new
variables and no others, so none of them was known and no two variables share one.
-/

namespace Unification

namespace Registry

variable {r r' r'' : Registry} {vs ws : List Variable}

/-- `r'` is `r` after any use in which these variables, and perhaps others, were made. -/
structure Makes (r r' : Registry) (vs : List Variable) : Prop where
  grows : r.Extends r'
  nodup : vs.Nodup
  unused : ∀ v ∈ vs, v.symbol ∉ r.symbols
  kept : ∀ v ∈ vs, v.symbol ∈ r'.symbols

theorem Extends.makes (h : r.Extends r') : r.Makes r' [] :=
  ⟨h, .nil, fun _ hv => absurd hv List.not_mem_nil, fun _ hv => absurd hv List.not_mem_nil⟩

theorem Makes.append (h : r.Makes r' vs) (h' : r'.Makes r'' ws) : r.Makes r'' (vs ++ ws) where
  grows := h.grows.trans h'.grows
  nodup := by
    refine List.nodup_append.2 ⟨h.nodup, h'.nodup, ?_⟩
    rintro v hv w hw rfl
    exact h'.unused v hw (h.kept v hv)
  unused := List.forall_mem_append.2
    ⟨h.unused, fun w hw hmem => h'.unused w hw (h.grows.symbols hmem)⟩
  kept := List.forall_mem_append.2 ⟨fun v hv => h'.grows.symbols (h.kept v hv), h'.kept⟩

theorem makes_fresh (r : Registry) (v : Variable) : r.Makes (v.fresh r).2 [(v.fresh r).1] where
  grows := extends_call r (.fresh v)
  nodup := List.nodup_singleton _
  unused := List.forall_mem_singleton.2 (generate_notMem r v.stem?)
  kept := List.forall_mem_singleton.2 (@mem_of_call_eq_ok r (.fresh v) _ rfl)

end Registry

/-- A recorded replacement stays. -/
theorem Renaming.lookup?_of_pairs_eq_append {m m' : Renaming} {added : VariableMap Variable}
    {v w : Variable} (h : m'.pairs = m.pairs ++ added) (hv : m.lookup? v = some w) :
    m'.lookup? v = some w := by
  rw [lookup?] at hv ⊢
  rw [h, VariableMap.lookup?_append, hv, Option.some_or]

namespace Renamer

variable {s s' s'' : Renamer} {added added' : VariableMap Variable} {v w : Variable}
  {vs ws : List Variable}

/-- `s'` is `s` after it has recorded these pairs, each with a new variable. -/
structure Records (s s' : Renamer) (added : VariableMap Variable) : Prop where
  pairs : s'.record.pairs = s.record.pairs ++ added
  makes : s.registry.Makes s'.registry (added.map Prod.snd)

theorem Records.refl (s : Renamer) : s.Records s [] :=
  ⟨(List.append_nil _).symm, (Registry.Extends.refl s.registry).makes⟩

theorem Records.append (h : s.Records s' added) (h' : s'.Records s'' added') :
    s.Records s'' (added ++ added') := by
  refine ⟨?_, ?_⟩
  · rw [h'.pairs, h.pairs, List.append_assoc]
  · rw [List.map_append]
    exact h.makes.append h'.makes

theorem Records.lookup? (h : s.Records s' added) (hv : s.record.lookup? v = some w) :
    s'.record.lookup? v = some w :=
  Renaming.lookup?_of_pairs_eq_append h.pairs hv

/-! ## One variable -/

theorem rename_of_lookup? (hv : s.record.lookup? v = some w) : s.rename v = (w, s) := by
  rw [rename, hv]

theorem rename_of_new (hv : s.record.lookup? v = none) :
    s.rename v =
      ((v.fresh s.registry).1,
        ⟨s.record.insert v (v.fresh s.registry).1, (v.fresh s.registry).2⟩) := by
  rw [rename, hv]

theorem pairs_insert {m : Renaming} (hv : m.lookup? v = none) (w : Variable) :
    (m.insert v w).pairs = m.pairs ++ [(v, w)] :=
  VariableMap.insert_of_lookup?_eq_none hv w

theorem exists_records_rename (s : Renamer) (v : Variable) :
    ∃ added, s.Records (s.rename v).2 added := by
  cases hv : s.record.lookup? v with
  | some w =>
    rw [rename_of_lookup? hv]
    exact ⟨[], .refl s⟩
  | none =>
    rw [rename_of_new hv]
    exact ⟨_, pairs_insert hv _, s.registry.makes_fresh v⟩

theorem lookup?_rename (s : Renamer) (v : Variable) :
    (s.rename v).2.record.lookup? v = some (s.rename v).1 := by
  cases hv : s.record.lookup? v with
  | some w => rw [rename_of_lookup? hv, hv]
  | none =>
    rw [rename_of_new hv, Renaming.lookup?, pairs_insert hv, VariableMap.lookup?_append]
    rw [Renaming.lookup?] at hv
    rw [hv, Option.none_or, VariableMap.lookup?_cons, if_pos rfl]

/-! ## Several variables -/

/-- Has every variable of a list recorded, from left to right. -/
def renameAll (s : Renamer) (vs : List Variable) : Renamer :=
  vs.foldl (fun s v => (s.rename v).2) s

theorem renameAll_append (s : Renamer) (vs ws : List Variable) :
    s.renameAll (vs ++ ws) = (s.renameAll vs).renameAll ws :=
  List.foldl_append

theorem exists_records_renameAll (s : Renamer) (vs : List Variable) :
    ∃ added, s.Records (s.renameAll vs) added := by
  induction vs generalizing s with
  | nil => exact ⟨[], .refl s⟩
  | cons v vs ih =>
    obtain ⟨added, h⟩ := s.exists_records_rename v
    obtain ⟨added', h'⟩ := ih (s.rename v).2
    exact ⟨_, h.append h'⟩

theorem exists_lookup?_renameAll (s : Renamer) (hv : v ∈ vs) :
    ∃ w, (s.renameAll vs).record.lookup? v = some w := by
  induction vs generalizing s with
  | nil => exact absurd hv List.not_mem_nil
  | cons u vs ih =>
    rcases List.mem_cons.1 hv with rfl | hv
    · obtain ⟨added, h⟩ := (s.rename v).2.exists_records_renameAll vs
      exact ⟨_, h.lookup? (s.lookup?_rename v)⟩
    · exact ih (s.rename u).2 hv

theorem apply_of_lookup? {m : Renaming} (hv : m.lookup? v = some w) : m.apply v = w := by
  rw [Renaming.apply, hv, Option.getD_some]

/-- Later variables do not change what earlier ones are replaced by. -/
theorem apply_renameAll_append (s : Renamer) (hv : v ∈ vs) (ws : List Variable) :
    (s.renameAll vs).record.apply v = (s.renameAll (vs ++ ws)).record.apply v := by
  obtain ⟨w, hw⟩ := s.exists_lookup?_renameAll hv
  obtain ⟨added, h⟩ := (s.renameAll vs).exists_records_renameAll ws
  rw [renameAll_append, apply_of_lookup? hw, apply_of_lookup? (h.lookup? hw)]

/-! ## With nothing recorded before -/

variable {r : Registry}

theorem makes_renameAll_empty (r : Registry) (vs : List Variable) :
    r.Makes (renameAll ⟨∅, r⟩ vs).registry
      ((renameAll ⟨∅, r⟩ vs).record.pairs.map Prod.snd) := by
  obtain ⟨added, h⟩ := exists_records_renameAll ⟨∅, r⟩ vs
  have hpairs : (renameAll ⟨∅, r⟩ vs).record.pairs = added := h.pairs
  rw [hpairs]
  exact h.makes

theorem mem_pairs_renameAll (s : Renamer) (hv : v ∈ vs) :
    (v, (s.renameAll vs).record.apply v) ∈ (s.renameAll vs).record.pairs := by
  obtain ⟨w, hw⟩ := s.exists_lookup?_renameAll hv
  rw [apply_of_lookup? hw]
  exact VariableMap.mem_of_lookup? hw

/-- A replacement is not among what was known. -/
theorem apply_renameAll_notMem (hv : v ∈ vs) :
    ((renameAll ⟨∅, r⟩ vs).record.apply v).symbol ∉ r.symbols :=
  (makes_renameAll_empty r vs).unused _ (List.mem_map_of_mem (mem_pairs_renameAll _ hv))

/-- No two variables have the same replacement. -/
theorem apply_renameAll_inj (hv : v ∈ vs) (hw : w ∈ vs)
    (h : (renameAll ⟨∅, r⟩ vs).record.apply v = (renameAll ⟨∅, r⟩ vs).record.apply w) : v = w :=
  congrArg Prod.fst (List.inj_on_of_nodup_map (makes_renameAll_empty r vs).nodup
    (mem_pairs_renameAll _ hv) (mem_pairs_renameAll _ hw) h)

/-! ## Lists of items -/

/-- Renames the items of a list, from left to right. -/
def eachApart {α : Type} (step : Renamer → α → α × Renamer) (s : Renamer) :
    List α → List α × Renamer
  | [] => ([], s)
  | x :: xs =>
    let (x, s) := step s x
    let (xs, s) := eachApart step s xs
    (x :: xs, s)

theorem length_eachApart {α : Type} (step : Renamer → α → α × Renamer) (s : Renamer)
    (xs : List α) : (eachApart step s xs).1.length = xs.length := by
  induction xs generalizing s with
  | nil => rfl
  | cons x xs ih => rw [eachApart, List.length_cons, List.length_cons, ih]

/-- If every item is renamed with the record that its own occurrences end in, then all
of them are with the record at the end of the list. -/
theorem eachApart_eq {α : Type} {step : Renamer → α → α × Renamer}
    {occurrences : α → List Variable} {rename : (Variable → Variable) → α → α} {xs : List α}
    (hrename : ∀ x g g', (∀ v ∈ occurrences x, g v = g' v) → rename g x = rename g' x)
    (hstep : ∀ x ∈ xs, ∀ s, step s x =
      (rename (s.renameAll (occurrences x)).record.apply x, s.renameAll (occurrences x)))
    (s : Renamer) :
    eachApart step s xs =
      (xs.map (rename (s.renameAll (xs.flatMap occurrences)).record.apply),
        s.renameAll (xs.flatMap occurrences)) := by
  induction xs generalizing s with
  | nil => rfl
  | cons x xs ih =>
    obtain ⟨hx, hxs⟩ := List.forall_mem_cons.1 hstep
    have hfirst : rename (s.renameAll (occurrences x)).record.apply x =
        rename (s.renameAll (occurrences x ++ xs.flatMap occurrences)).record.apply x :=
      hrename x _ _ fun v hv => s.apply_renameAll_append hv _
    rw [eachApart, hx]
    simp only [ih hxs, List.map_cons, List.flatMap_cons, hfirst, renameAll_append]

end Renamer

/-! ## Expressions -/

namespace Term

@[simp] theorem standardizeAllApart_eq (s : Renamer) (ts : List Term) :
    standardizeAllApart s ts = Renamer.eachApart standardizeApart s ts := by
  induction ts generalizing s with
  | nil => rfl
  | cons t ts ih => simp only [standardizeAllApart, Renamer.eachApart, ih]

theorem rename_congr (t : Term) (g g' : Variable → Variable)
    (h : ∀ v ∈ t.occurrences, g v = g' v) : t.rename g = t.rename g' :=
  subst_congr fun v hv => congrArg var (h v (mem_occurrences.2 hv))

theorem standardizeApart_eq (s : Renamer) (t : Term) :
    t.standardizeApart s =
      (t.rename (s.renameAll t.occurrences).record.apply, s.renameAll t.occurrences) := by
  induction t generalizing s with
  | var v =>
    have hv : (s.rename v).2.record.apply v = (s.rename v).1 :=
      Renamer.apply_of_lookup? (s.lookup?_rename v)
    show (Term.var (s.rename v).1, (s.rename v).2) = (Term.var _, (s.rename v).2)
    rw [← hv]
    rfl
  | const c => rfl
  | app f args ih =>
    rw [standardizeApart, standardizeAllApart_eq, Renamer.eachApart_eq rename_congr ih, rename,
      subst_app, occurrences, occurrencesAll_eq]
    rfl

end Term

namespace Formula

@[simp] theorem standardizeAllApart_eq (s : Renamer) (fs : List Formula) :
    standardizeAllApart s fs = Renamer.eachApart standardizeApart s fs := by
  induction fs generalizing s with
  | nil => rfl
  | cons f fs ih => simp only [standardizeAllApart, Renamer.eachApart, ih]

theorem rename_congr (f : Formula) (g g' : Variable → Variable)
    (h : ∀ v ∈ f.occurrences, g v = g' v) : f.rename g = f.rename g' :=
  subst_congr fun v hv => congrArg Term.var (h v hv)

theorem standardizeApart_eq (s : Renamer) (f : Formula) :
    f.standardizeApart s =
      (f.rename (s.renameAll f.occurrences).record.apply, s.renameAll f.occurrences) := by
  induction f generalizing s with
  | predicate p args v =>
    rw [standardizeApart, Term.standardizeAllApart_eq,
      Renamer.eachApart_eq Term.rename_congr fun t _ s => t.standardizeApart_eq s, rename,
      subst_predicate, occurrences, Term.occurrencesAll_eq]
    rfl
  | operator k operands v ih =>
    rw [standardizeApart, standardizeAllApart_eq, Renamer.eachApart_eq rename_congr ih, rename,
      subst_operator, occurrences, occurrencesAll_eq]
    rfl

end Formula

namespace Expression

/-- Renames the variables of an expression, from left to right. -/
def standardizeApart (s : Renamer) : Expression → Expression × Renamer
  | term t =>
    let (t, s) := t.standardizeApart s
    (term t, s)
  | formula f =>
    let (f, s) := f.standardizeApart s
    (formula f, s)

theorem standardizeApart_eq (s : Renamer) (e : Expression) :
    e.standardizeApart s =
      (e.rename (s.renameAll e.occurrences).record.apply, s.renameAll e.occurrences) := by
  cases e with
  | term t => rw [standardizeApart, t.standardizeApart_eq]; rfl
  | formula f => rw [standardizeApart, f.standardizeApart_eq]; rfl

theorem exists_records_standardizeApart (s : Renamer) (e : Expression) :
    ∃ added, s.Records (e.standardizeApart s).2 added := by
  rw [standardizeApart_eq]
  exact s.exists_records_renameAll e.occurrences

/-- Every variable that is left is a recorded replacement. -/
theorem exists_lookup?_of_mem_vars {s : Renamer} {e : Expression} {w : Variable}
    (h : w ∈ (e.standardizeApart s).1.vars) :
    ∃ v, (e.standardizeApart s).2.record.lookup? v = some w := by
  rw [standardizeApart_eq] at h ⊢
  rw [mem_vars, occurrences_rename, List.mem_map] at h
  obtain ⟨v, hv, rfl⟩ := h
  obtain ⟨w, hw⟩ := s.exists_lookup?_renameAll hv
  exact ⟨v, by rw [Renamer.apply_of_lookup? hw, hw]⟩

/-- With a record that gives no two variables the same replacement, as many distinct
variables are left as there were. -/
theorem length_vars_standardizeApart {s : Renamer} {e : Expression}
    (h : ∀ v v' w, (e.standardizeApart s).2.record.lookup? v = some w →
      (e.standardizeApart s).2.record.lookup? v' = some w → v = v') :
    (e.standardizeApart s).1.vars.length = e.vars.length := by
  rw [standardizeApart_eq] at h ⊢
  rw [vars_rename, List.length_map]
  intro v hv v' hv' heq
  obtain ⟨w, hw⟩ := s.exists_lookup?_renameAll hv
  obtain ⟨w', hw'⟩ := s.exists_lookup?_renameAll hv'
  rw [Renamer.apply_of_lookup? hw, Renamer.apply_of_lookup? hw'] at heq
  exact h v v' w hw (heq ▸ hw')

end Expression

end Unification
