import Unification.Proofs.Unchecked.Interning
import Unification.Proofs.Unchecked.Renaming

/-!
# Memory and workspace in step

`Memory.Mirrors` relates a memory to a workspace: the same names in the same order in
each table and record, and the same numbers.  `Memory.Sound` says what the memory adds to
that: a cell stays with the registry that allocated it, at an address of its own.
`Memory.HandsOut` follows both through a part of a run, together with the cells that it
hands out: these are kept, and nothing else is.

Each function on cells has one lemma here, `exists_makeUp` for made-up symbols and
`exists_standardize` for renaming apart among them: run next to the function on symbols,
it answers with a cell of the same name, and leaves a memory that mirrors the workspace.
-/

namespace Unification

/-! ## Tables and registries -/

/-- The table is the registry in memory. -/
structure Table.Mirrors (t : Table) (r : Registry) : Prop where
  config : t.config = r.config
  names : t.cells.map Cell.name = r.symbols.map Symbol.name
  counter : t.counter.toNat = r.counter

namespace Table.Mirrors

variable {t : Table} {r : Registry}

theorem size_eq (h : t.Mirrors r) : t.size = r.size := by
  have hlength := congrArg List.length h.names
  rwa [List.length_map, List.length_map] at hlength

theorem contains_iff (h : t.Mirrors r) (name : String) :
    t.contains name ↔ r.contains name := by
  have hmem : name ∈ t.cells.map Cell.name ↔ name ∈ r.symbols.map Symbol.name := by rw [h.names]
  simpa [Table.contains, Table.find?, Registry.contains] using hmem

theorem probe?_eq (h : t.Mirrors r) (stem : String) (depth : Nat) (k : UInt64) :
    t.probe? stem depth k = r.probe? stem depth k := by
  induction depth generalizing k with
  | zero => rfl
  | succ depth ih =>
    have hcontains := h.contains_iff (stem ++ toString k)
    have hnext : t.probe? stem depth = r.probe? stem depth := funext ih
    simp only [Table.probe?, Registry.probe?, hcontains, hnext]

/-- The search in the table arrives where the registry's does. -/
theorem ends_probe (h : t.Mirrors r) (stem : String)
    (hlt : Symbol.leastUnused stem r.symbols r.counter < UInt64.size) :
    Ends (t.probe? stem · t.counter) (.ofNat (Symbol.leastUnused stem r.symbols r.counter)) := by
  have hcounter : t.counter = .ofNat r.counter := by rw [← h.counter, UInt64.ofNat_toNat]
  simp only [h.probe?_eq, hcounter]
  exact Registry.ends_probe (Symbol.leastUnused_notMem stem r.symbols r.counter) hlt
    (fun _ => Symbol.mem_of_lt_leastUnused) (Symbol.le_leastUnused stem r.symbols r.counter)

theorem nodup_names (h : t.Mirrors r) : (t.cells.map Cell.name).Nodup := by
  rw [h.names]
  exact List.Nodup.map (fun _ _ => Symbol.ext_name) r.nodup

theorem name_ne_empty (h : t.Mirrors r) {c : Cell} (hc : c ∈ t.cells) : c.name ≠ "" := by
  have hname : c.name ∈ r.symbols.map Symbol.name := h.names ▸ List.mem_map_of_mem hc
  obtain ⟨s, -, hs⟩ := List.mem_map.1 hname
  exact hs ▸ s.name_ne_empty

end Table.Mirrors

/-! ## Memory and workspace -/

namespace Memory

/-- The memory has the registries and records of the workspace. -/
structure Mirrors (m : Memory) (w : Workspace) : Prop where
  table : ∀ owner, (m.table owner).Mirrors (w.registry owner)
  records : ∀ pass, (m.records pass).map (Prod.map id Cell.name) =
    (w.records pass).pairs.map (Prod.map id Variable.name)

/-- The cell is in the table of the registry that it came from. -/
def Keeps (m : Memory) (c : Cell) : Prop := c ∈ (m.table c.owner).cells

structure Sound (m : Memory) : Prop where
  owner : ∀ owner, ∀ c ∈ (m.table owner).cells, c.owner = owner
  used : ∀ c, m.Keeps c → c.address ∈ m.used
  address : ∀ a b, m.Keeps a → m.Keeps b → a.address = b.address → a = b
  records : ∀ pass, ∀ p ∈ m.records pass, m.Keeps p.2

/-- `m'` is `m` after these cells have been handed out, new or not. -/
structure HandsOut (m m' : Memory) (cs : List Cell) : Prop where
  sound : m'.Sound
  keeps : ∀ c, m'.Keeps c ↔ m.Keeps c ∨ c ∈ cs

/-- Memory and workspace after a registry has given the cell of a symbol. -/
structure Gives (m m' : Memory) (w' : Workspace) (owner : Nat) (s : Symbol) (c : Cell) : Prop where
  handsOut : m.HandsOut m' [c]
  mirrors : m'.Mirrors w'
  name_eq : c.name = s.name
  owner_eq : c.owner = owner

variable {A : Allocator} {m m' m'' : Memory} {w w' : Workspace} {cs ds : List Cell} {a b c : Cell}
  {owner pass : Nat} {name : String}

theorem HandsOut.refl (h : m.Sound) : m.HandsOut m [] :=
  ⟨h, fun _ => (or_iff_left List.not_mem_nil).symm⟩

/-- A cell that is kept may be handed out again. -/
theorem HandsOut.again (h : m.Sound) (hc : m.Keeps c) : m.HandsOut m [c] :=
  ⟨h, fun d => (or_iff_left_of_imp fun hd => by rwa [List.mem_singleton.1 hd]).symm⟩

theorem HandsOut.append (h : m.HandsOut m' cs) (h' : m'.HandsOut m'' ds) :
    m.HandsOut m'' (cs ++ ds) :=
  ⟨h'.sound, fun c => by rw [h'.keeps, h.keeps, List.mem_append, or_assoc]⟩

theorem HandsOut.mem (h : m.HandsOut m' cs) (hc : c ∈ cs) : m'.Keeps c := (h.keeps c).2 (.inr hc)

theorem Gives.keeps {s : Symbol} (h : m.Gives m' w' owner s c) : m'.Keeps c :=
  h.handsOut.mem (List.mem_singleton.2 rfl)

theorem Sound.mem_iff (h : m.Sound) : c ∈ (m.table owner).cells ↔ m.Keeps c ∧ c.owner = owner := by
  constructor
  · intro hc
    obtain rfl := h.owner owner c hc
    exact ⟨hc, rfl⟩
  · rintro ⟨hc, rfl⟩
    exact hc

/-- A cell is known by its name and the registry that it came from. -/
theorem Mirrors.eq_of_name (h : m.Mirrors w) (ha : m.Keeps a) (hb : m.Keeps b)
    (howner : a.owner = b.owner) (hname : a.name = b.name) : a = b := by
  rw [Keeps, ← howner] at hb
  exact List.inj_on_of_nodup_map (h.table a.owner).nodup_names ha hb hname

/-! ## One cell -/

theorem table_setTable_self (m : Memory) (owner : Nat) (t : Table) :
    (m.setTable owner t).table owner = t := by
  simp only [setTable, Function.update_self]

theorem table_setTable_of_ne (m : Memory) {owner other : Nat} (h : other ≠ owner) (t : Table) :
    (m.setTable owner t).table other = m.table other := by
  simp only [setTable, Function.update_of_ne h]

theorem Mirrors.setTable (h : m.Mirrors w) (owner : Nat) {t : Table} {r : Registry}
    (ht : t.Mirrors r) :
    (m.setTable owner t).Mirrors (w.setRegistry owner r) := by
  refine ⟨fun other => ?_, h.records⟩
  by_cases hother : other = owner
  · subst hother
    rw [table_setTable_self, Workspace.registry_setRegistry_self]
    exact ht
  · rw [table_setTable_of_ne m hother, Workspace.registry_setRegistry_of_ne w hother]
    exact h.table other

theorem intern_cases (A : Allocator) (m : Memory) (owner : Nat) (name : String) :
    (∃ c ∈ (m.table owner).cells, c.name = name ∧ m.intern A owner name = (c, m)) ∨
    (∀ c ∈ (m.table owner).cells, c.name ≠ name) ∧
      m.intern A owner name =
        let c : Cell := ⟨A.choose m.used, owner, name⟩
        let m := m.setTable owner { m.table owner with cells := c :: (m.table owner).cells }
        (c, { m with used := c.address :: m.used }) := by
  cases hfind : (m.table owner).find? name with
  | some c =>
    have hname : c.name = name := by simpa using List.find?_some hfind
    refine .inl ⟨c, List.mem_of_find?_eq_some hfind, hname, ?_⟩
    rw [intern, hfind]
  | none =>
    refine .inr ⟨fun c hc hname => ?_, ?_⟩
    · have hne := List.find?_eq_none.1 hfind c hc
      exact hne (decide_eq_true hname)
    · rw [intern, hfind]

theorem handsOut_setTable (hm : m.Sound) {t : Table} (ht : t.cells = (m.table owner).cells) :
    m.HandsOut (m.setTable owner t) [] := by
  have hcells (other : Nat) : ((m.setTable owner t).table other).cells = (m.table other).cells := by
    by_cases hother : other = owner
    · subst hother
      rw [table_setTable_self, ht]
    · rw [table_setTable_of_ne m hother]
  have hkeeps (c : Cell) : (m.setTable owner t).Keeps c ↔ m.Keeps c := by
    rw [Keeps, hcells, Keeps]
  refine ⟨⟨fun other c hc => ?_, fun c hc => ?_, fun a b ha hb => ?_, fun pass p hp => ?_⟩, ?_⟩
  · exact hm.owner other c (hcells other ▸ hc)
  · exact hm.used c ((hkeeps c).1 hc)
  · exact hm.address a b ((hkeeps a).1 ha) ((hkeeps b).1 hb)
  · exact (hkeeps p.2).2 (hm.records pass p hp)
  · intro c
    rw [hkeeps, or_iff_left List.not_mem_nil]

theorem handsOut_record (hm : m.Sound) (hc : m.Keeps c) (pass : Nat) (v : Variable) :
    m.HandsOut (m.record pass v c) [] := by
  refine ⟨⟨hm.owner, hm.used, hm.address, fun other p hp => ?_⟩, fun d => ?_⟩
  · by_cases hother : other = pass
    · subst hother
      simp only [record, Function.update_self] at hp
      obtain hp | rfl := VariableMap.mem_insert hp
      · exact hm.records other p hp
      · exact hc
    · simp only [record, Function.update_of_ne hother] at hp
      exact hm.records other p hp
  · exact (or_iff_left List.not_mem_nil).symm

/-- An allocated cell is at an address of its own. -/
theorem handsOut_allocate (hm : m.Sound) (c : Cell) (hc : c.address ∉ m.used) :
    m.HandsOut
      { m.setTable c.owner { m.table c.owner with cells := c :: (m.table c.owner).cells } with
        used := c.address :: m.used } [c] := by
  have hkeeps (d : Cell) :
      d ∈ ((m.setTable c.owner { m.table c.owner with
        cells := c :: (m.table c.owner).cells }).table d.owner).cells ↔ m.Keeps d ∨ d = c := by
    by_cases hd : d.owner = c.owner
    · rw [hd, table_setTable_self, List.mem_cons, or_comm, Keeps, hd]
    · rw [table_setTable_of_ne m hd]
      exact (or_iff_left fun h : d = c => hd (congrArg Cell.owner h)).symm
  have hne {d : Cell} (hd : m.Keeps d) : d.address ≠ c.address := fun h => hc (h ▸ hm.used d hd)
  refine ⟨⟨fun other d hd => ?_, fun d hd => ?_, fun a b ha hb hab => ?_, fun pass p hp => ?_⟩,
    fun d => ?_⟩
  · by_cases hother : other = c.owner
    · subst hother
      simp only [table_setTable_self] at hd
      obtain rfl | hd := List.mem_cons.1 hd
      · rfl
      · exact hm.owner _ d hd
    · simp only [table_setTable_of_ne m hother] at hd
      exact hm.owner other d hd
  · obtain hd | rfl := (hkeeps d).1 hd
    · exact List.mem_cons_of_mem _ (hm.used d hd)
    · exact List.mem_cons_self
  · obtain ha' | ha' := (hkeeps a).1 ha
    · obtain hb' | hb' := (hkeeps b).1 hb
      · exact hm.address a b ha' hb' hab
      · exact absurd (hb' ▸ hab) (hne ha')
    · obtain hb' | hb' := (hkeeps b).1 hb
      · exact absurd (ha' ▸ hab.symm) (hne hb')
      · exact ha'.trans hb'.symm
  · exact (hkeeps p.2).2 (.inl (hm.records pass p hp))
  · rw [List.mem_singleton]
    exact hkeeps d

theorem handsOut_intern (hm : m.Sound) (A : Allocator) (owner : Nat) (name : String) :
    m.HandsOut (m.intern A owner name).2 [(m.intern A owner name).1] ∧
      (m.intern A owner name).1.name = name ∧ (m.intern A owner name).1.owner = owner := by
  obtain ⟨c, hc, hname, hintern⟩ | ⟨-, hintern⟩ := intern_cases A m owner name
  · rw [hintern]
    exact ⟨.again hm (hm.mem_iff.1 hc).1, hname, hm.owner owner c hc⟩
  · rw [hintern]
    exact ⟨handsOut_allocate hm ⟨A.choose m.used, owner, name⟩ (A.choose_notMem m.used), rfl, rfl⟩

theorem Mirrors.intern (h : m.Mirrors w) (A : Allocator) (owner : Nat) (s : Symbol) :
    (m.intern A owner s.name).2.Mirrors (w.setRegistry owner ((w.registry owner).insert s)) := by
  have htable := h.table owner
  have hmem : s ∈ (w.registry owner).symbols ↔ ∃ c ∈ (m.table owner).cells, c.name = s.name := by
    rw [← List.mem_map, htable.names]
    exact ⟨List.mem_map_of_mem, fun hs => by
      obtain ⟨s', hs', hname⟩ := List.mem_map.1 hs
      rwa [← Symbol.ext_name hname]⟩
  obtain ⟨c, hc, hname, hintern⟩ | ⟨hnew, hintern⟩ := intern_cases A m owner s.name
  · rw [hintern, Registry.insert, dif_pos (hmem.2 ⟨c, hc, hname⟩), Workspace.setRegistry_self]
    exact h
  · have hs : s ∉ (w.registry owner).symbols := fun hs => by
      obtain ⟨c, hc, hname⟩ := hmem.1 hs
      exact hnew c hc hname
    rw [hintern, Registry.insert, dif_neg hs]
    have hset := h.setTable owner
      (t := { m.table owner with
        cells := ⟨A.choose m.used, owner, s.name⟩ :: (m.table owner).cells })
      (r := { w.registry owner with
        symbols := s :: (w.registry owner).symbols
        nodup := List.nodup_cons.2 ⟨hs, (w.registry owner).nodup⟩ })
      ⟨htable.config, by simp [htable.names], htable.counter⟩
    exact ⟨hset.table, hset.records⟩

theorem Mirrors.record (h : m.Mirrors w) {s : Symbol} (hc : c.name = s.name) (pass : Nat)
    (v : Variable) :
    (m.record pass v c).Mirrors (w.setRecord pass ((w.records pass).insert v ⟨s⟩)) := by
  refine ⟨h.table, fun other => ?_⟩
  by_cases hother : other = pass
  · subst hother
    simp only [Memory.record, Workspace.setRecord, Function.update_self, Renaming.insert]
    rw [VariableMap.map_insert, VariableMap.map_insert, h.records, hc]
    rfl
  · simp only [Memory.record, Workspace.setRecord, Function.update_of_ne hother]
    exact h.records other

/-! ## Making up a cell -/

theorem exists_makeUp (hm : m.Sound) (h : m.Mirrors w) (A : Allocator) (owner : Nat)
    (stem? : Option String)
    (hlt : ((w.registry owner).generate stem?).2.counter < UInt64.size) :
    ∃ c m', Ends (m.makeUp? A · owner stem?) (c, m') ∧
      m.Gives m' (w.setRegistry owner ((w.registry owner).generate stem?).2) owner
        ((w.registry owner).generate stem?).1 c := by
  have htable := h.table owner
  let r := w.registry owner
  let stem := r.stem stem?
  let k := r.nextNumber stem?
  have hk : k + 1 < UInt64.size := hlt
  have hstem : stem?.getD (m.table owner).config.freshPrefix = stem := by rw [htable.config]; rfl
  have hprobe : Ends ((m.table owner).probe? stem · (m.table owner).counter) (.ofNat k) :=
    htable.ends_probe stem (Nat.lt_of_succ_lt hk)
  have hname : stem ++ toString (UInt64.ofNat k) = (Symbol.numbered stem k).name := by
    show stem ++ toString (UInt64.ofNat k).toNat = stem ++ toString k
    rw [UInt64.toNat_ofNat_of_lt' (Nat.lt_of_succ_lt hk)]
  -- The counter is moved before the cell is allocated.
  let m₁ := m.setTable owner { m.table owner with counter := .ofNat (k + 1) }
  have hm₁ : m.HandsOut m₁ [] := handsOut_setTable hm rfl
  have h₁ : m₁.Mirrors (w.setRegistry owner { r with counter := k + 1 }) :=
    h.setTable owner ⟨htable.config, htable.names, UInt64.toNat_ofNat_of_lt' hk⟩
  obtain ⟨hintern, hinternName, howner⟩ :=
    handsOut_intern hm₁.sound A owner (Symbol.numbered stem k).name
  have hmirrors := h₁.intern A owner (.numbered stem k)
  rw [Workspace.registry_setRegistry_self, Workspace.setRegistry_setRegistry,
    Registry.insert_setCounter] at hmirrors
  refine ⟨_, _, ?_, hm₁.append hintern, hmirrors, hinternName, howner⟩
  filter_upwards [hprobe] with depth hdepth
  have hnext : Registry.nextWord? (.ofNat k) = some (.ofNat (k + 1)) := Registry.nextWord?_ofNat hk
  simp only [makeUp?, hstem, hdepth, hnext, hname, Option.bind_eq_bind, Option.bind_some,
    Option.pure_def, m₁]

/-! ## Renaming -/

theorem Mirrors.lookup?_eq_some (h : m.Mirrors w) {v u : Variable}
    (hu : (w.records pass).lookup? v = some u) :
    ∃ c, (m.records pass).lookup? v = some c ∧ c.name = u.name := by
  have hmap := congrArg (VariableMap.lookup? · v) (h.records pass)
  simp only [VariableMap.lookup?_map] at hmap
  rw [Renaming.lookup?] at hu
  rw [hu] at hmap
  exact Option.map_eq_some_iff.1 hmap

theorem Mirrors.lookup?_eq_none (h : m.Mirrors w) {v : Variable}
    (hv : (w.records pass).lookup? v = none) : (m.records pass).lookup? v = none := by
  have hmap := congrArg (VariableMap.lookup? · v) (h.records pass)
  simp only [VariableMap.lookup?_map] at hmap
  rw [Renaming.lookup?] at hv
  rw [hv] at hmap
  exact Option.map_eq_none_iff.1 hmap

theorem exists_rename (hm : m.Sound) (h : m.Mirrors w) (A : Allocator) (owner pass : Nat)
    (v : Variable)
    (hlt : ((w.renamer owner pass).rename v).2.registry.counter < UInt64.size) :
    ∃ c m', Ends (fun depth => (rename? A depth owner pass v).run m) (c, m') ∧
      m.HandsOut m' [c] ∧
      m'.Mirrors (w.resume owner pass ((w.renamer owner pass).rename v).2) ∧
      c.name = ((w.renamer owner pass).rename v).1.name ∧ (m.Keeps c ∨ c.owner = owner) := by
  cases hv : (w.records pass).lookup? v with
  | some u =>
    obtain ⟨c, hc, hname⟩ := h.lookup?_eq_some hv
    have hkeeps : m.Keeps c := hm.records pass (v, c) (VariableMap.mem_of_lookup? hc)
    have hrename : (w.renamer owner pass).rename v = (u, w.renamer owner pass) :=
      Renamer.rename_of_lookup? hv
    refine ⟨c, m, .of_answer fun depth => ?_, .again hm hkeeps, ?_, ?_, .inl hkeeps⟩
    · show rename? A _ owner pass v m = _
      rw [rename?, hc]
    · rw [hrename, Workspace.resume_renamer]
      exact h
    · rw [hrename]
      exact hname
  | none =>
    have hrename := Renamer.rename_of_new (s := w.renamer owner pass) hv
    rw [hrename] at hlt ⊢
    obtain ⟨c, m', hends, hgives⟩ := exists_makeUp hm h A owner v.stem? hlt
    have hrecord := handsOut_record hgives.handsOut.sound hgives.keeps pass v
    refine ⟨c, m'.record pass v c, ?_, hgives.handsOut.append hrecord,
      hgives.mirrors.record hgives.name_eq pass v, hgives.name_eq, .inr hgives.owner_eq⟩
    filter_upwards [hends] with depth hdepth
    show rename? A depth owner pass v m = _
    rw [rename?, h.lookup?_eq_none hv]
    show Option.map _ _ = _
    rw [hdepth]
    rfl

theorem exists_renameAll (hm : m.Sound) (h : m.Mirrors w) (A : Allocator) (owner pass : Nat)
    (vs : List Variable)
    (hlt : (Renamer.eachApart Renamer.rename (w.renamer owner pass) vs).2.registry.counter <
      UInt64.size) :
    ∃ cs m', Ends (fun depth => (vs.mapM (rename? A depth owner pass)).run m) (cs, m') ∧
      m.HandsOut m' cs ∧
      m'.Mirrors (w.resume owner pass
        (Renamer.eachApart Renamer.rename (w.renamer owner pass) vs).2) ∧
      cs.map Cell.name =
        (Renamer.eachApart Renamer.rename (w.renamer owner pass) vs).1.map Variable.name ∧
      ∀ a ∈ cs, m.Keeps a ∨ a.owner = owner := by
  induction vs generalizing m w with
  | nil =>
    refine ⟨[], m, .mapM_run_nil _ m, .refl hm, ?_, rfl, nofun⟩
    rw [Renamer.eachApart, Workspace.resume_renamer]
    exact h
  | cons v vs ih =>
    let s := ((w.renamer owner pass).rename v).2
    have hgrows (v : Variable) (s : Renamer) :
        s.registry.counter ≤ (s.rename v).2.registry.counter := s.counter_le_renameAll [v]
    have hfirst : s.registry.counter < UInt64.size :=
      (Renamer.counter_le_eachApart hgrows s vs).trans_lt hlt
    obtain ⟨c, m₁, hends, hhands, hmirrors, hname, hc⟩ := exists_rename hm h A owner pass v hfirst
    have hrest := ih hhands.sound hmirrors
    rw [Workspace.renamer_resume, Workspace.resume_resume] at hrest
    obtain ⟨cs, m', hends', hhands', hmirrors', hnames, hcs⟩ := hrest hlt
    refine ⟨c :: cs, m', .mapM_run_cons hends hends', hhands.append hhands', hmirrors', ?_,
      List.forall_mem_cons.2 ⟨hc, fun a ha => ?_⟩⟩
    · rw [List.map_cons, hname, hnames]
      rfl
    · obtain hkeeps | howner := hcs a ha
      · obtain hkeeps | hmem := (hhands.keeps a).1 hkeeps
        · exact .inl hkeeps
        · rwa [List.mem_singleton.1 hmem]
      · exact .inr howner

/-- An expression is renamed apart by renaming its occurrences. -/
theorem exists_standardize (hm : m.Sound) (h : m.Mirrors w) (A : Allocator) (owner pass : Nat)
    (e : Expression)
    (hlt : (e.standardizeApart (w.renamer owner pass)).2.registry.counter < UInt64.size) :
    ∃ cs m', Ends (fun depth => (e.occurrences.mapM (rename? A depth owner pass)).run m) (cs, m') ∧
      m.HandsOut m' cs ∧
      m'.Mirrors (w.resume owner pass (e.standardizeApart (w.renamer owner pass)).2) ∧
      cs.map Cell.name =
        (e.standardizeApart (w.renamer owner pass)).1.occurrences.map Variable.name ∧
      ∀ a ∈ cs, m.Keeps a ∨ a.owner = owner := by
  have heach := @Renamer.eachApart_eq Variable Renamer.rename (fun v => [v]) (fun g v => g v)
    e.occurrences (fun v g g' hg => hg v List.mem_cons_self)
    (fun v _ s => Prod.ext (Renamer.apply_of_lookup? (s.lookup?_rename v)).symm rfl)
    (w.renamer owner pass)
  rw [List.flatMap_singleton'] at heach
  have hall := exists_renameAll hm h A owner pass e.occurrences
  rw [heach] at hall
  rw [Expression.standardizeApart_eq] at hlt ⊢
  rw [Expression.occurrences_rename]
  exact hall hlt

end Memory
end Unification
