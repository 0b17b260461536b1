import Mathlib.Data.List.Dedup
import Unification.Proofs.Unchecked.Mirroring
import Unification.Registry.Pool

/-!
# Identity of symbols

Whether two symbols are the same is asked of their addresses, and whether they are equal
of their names.  In any run on any number of registries, with failures in between, the
answers agree as far as they can: two symbols that are handed out, at whatever times and
by whatever operations, are equal if the names are, and the same if they also come from
one registry.

The induction is over the run.  What one operation does in memory is compared with what
it does in the workspace (`Memory.exists_perform`), and every point of a run is one where
the memory mirrors the workspace and keeps what it has handed out (`Memory.exists_run`).
-/

namespace Unification
namespace Memory

variable {m m' : Memory} {w : Workspace} {cs : List Cell} {a b c : Cell} {owner : Nat}
  {name : String}

/-! ## Asking -/

theorem exists_get (hm : m.Sound) (h : m.Mirrors w) (A : Allocator) (owner : Nat) (s : Symbol) :
    ∃ c m', m.get A owner s.name = (.ok c, m') ∧
      m.Gives m' (w.setRegistry owner ((w.registry owner).insert s)) owner s c := by
  obtain ⟨hhands, hname, howner⟩ := handsOut_intern hm A owner s.name
  refine ⟨_, _, ?_, hhands, h.intern A owner s, hname, howner⟩
  rw [get, if_neg s.name_ne_empty]

theorem ask?_of_nameless {q : Registry.Request} (hq : q.Nameless) (m : Memory) (A : Allocator)
    (depth owner : Nat) :
    m.ask? A depth owner q = some (.error (.invalidArgument .missingName), m) := by
  cases q with
  | get name =>
    cases hq
    rfl
  | getOptional name? =>
    cases name? with
    | none => rfl
    | some name =>
      cases hq name rfl
      rfl
  | generate stem? => exact hq.elim
  | fresh v => exact hq.elim

/-- A request for the symbol of a name. -/
theorem exists_ask_named (hm : m.Sound) (h : m.Mirrors w) (A : Allocator) (owner : Nat)
    {q : Registry.Request} (hname : name ≠ "")
    (hanswer : q.answer (w.registry owner) = (w.registry owner).get name)
    (hask : ∀ depth, m.ask? A depth owner q = some (m.get A owner name)) :
    ∃ c m' s, Ends (m.ask? A · owner q) (.ok c, m') ∧ ((w.registry owner).call q).answer = .ok s ∧
      m.Gives m' (w.setRegistry owner ((w.registry owner).call q).after) owner s c := by
  let s : Symbol := ⟨name, hname⟩
  have hcall : (w.registry owner).call q =
      ⟨w.registry owner, q, .ok s, (w.registry owner).insert s⟩ := by
    rw [Registry.call, hanswer, Registry.get, Symbol.ofName?, dif_neg hname]
  obtain ⟨c, m', hget, hgives⟩ := exists_get hm h A owner s
  rw [hcall]
  refine ⟨c, m', s, .of_answer fun depth => ?_, rfl, hgives⟩
  rw [hask, hget]

theorem exists_ask (hm : m.Sound) (h : m.Mirrors w) (A : Allocator) (owner : Nat)
    {q : Registry.Request} (hq : ¬ q.Nameless)
    (hlt : ((w.registry owner).call q).after.counter < UInt64.size) :
    ∃ c m' s, Ends (m.ask? A · owner q) (.ok c, m') ∧ ((w.registry owner).call q).answer = .ok s ∧
      m.Gives m' (w.setRegistry owner ((w.registry owner).call q).after) owner s c := by
  cases q with
  | get name => exact exists_ask_named hm h A owner hq rfl fun _ => rfl
  | getOptional name? =>
    cases name? with
    | none => exact absurd nofun hq
    | some name =>
      refine exists_ask_named hm h A owner (fun hname => hq ?_) rfl fun _ => rfl
      rintro _ ⟨⟩
      exact hname
  | generate stem? =>
    obtain ⟨c, m', hends, hgives⟩ := exists_makeUp hm h A owner stem? hlt
    exact ⟨c, m', _, hends.map _, rfl, hgives⟩
  | fresh v =>
    obtain ⟨c, m', hends, hgives⟩ := exists_makeUp hm h A owner v.stem? hlt
    exact ⟨c, m', _, hends.map _, rfl, hgives⟩

/-! ## Operations -/

theorem exists_use (hm : m.Sound) (h : m.Mirrors w) (hc : m.Keeps c) {s : Symbol}
    (hname : c.name = s.name) (use? : Option (Nat × Variable)) :
    m.HandsOut (m.use use? c) [] ∧ (m.use use? c).Mirrors (w.use use? s) := by
  cases use? with
  | none => exact ⟨.refl hm, h⟩
  | some use => exact ⟨handsOut_record hm hc use.1 use.2, h.record hname use.1 use.2⟩

/-- A step in memory goes as the step of the workspace does. -/
structure Step.Performs (d : Step) (c : Workspace.Step) : Prop where
  operation : d.operation = c.operation
  names : d.answer.map (·.map Cell.name) = c.answer.map (·.map Symbol.name)
  mirrors : d.after.Mirrors c.after
  asked : ∀ owner q use?, d.operation = .request owner q use? → ∀ a ∈ d.cells, a.owner = owner
  /-- A cell comes from the registry that is asked when it is first handed out. -/
  new : ∀ a ∈ d.cells, d.before.Keeps a ∨ a.owner = d.operation.owner
  fails : d.operation.Nameless →
    d.answer = .error (.invalidArgument .missingName) ∧ d.after = d.before ∧ c.after = c.before
  succeeds : ¬ d.operation.Nameless → ∃ cs, d.answer = .ok cs

theorem exists_perform_nameless (hm : m.Sound) (h : m.Mirrors w) (A : Allocator)
    {o : Workspace.Operation} (ho : o.Nameless) :
    ∃ d, Ends (m.perform? A · o) d ∧ d.Performs (w.perform o) ∧ m.HandsOut d.after d.cells := by
  rw [Workspace.perform_of_nameless ho]
  refine ⟨⟨m, o, .error (.invalidArgument .missingName), m⟩, .of_answer fun depth => ?_,
    ⟨rfl, rfl, h, fun _ _ _ _ => nofun, nofun, fun _ => ⟨rfl, rfl, rfl⟩,
      fun hnot => absurd ho hnot⟩, .refl hm⟩
  cases o with
  | request owner q use? =>
    rw [perform?, ask?_of_nameless ho]
    rfl
  | standardize owner pass e => exact ho.elim

theorem exists_perform_request (hm : m.Sound) (h : m.Mirrors w) (A : Allocator) (owner : Nat)
    {q : Registry.Request} (hq : ¬ q.Nameless) (use? : Option (Nat × Variable))
    (hlt : ((w.registry owner).call q).after.counter < UInt64.size) :
    ∃ d, Ends (m.perform? A · (.request owner q use?)) d ∧
      d.Performs (w.perform (.request owner q use?)) ∧ m.HandsOut d.after d.cells := by
  obtain ⟨c, m', s, hends, hanswer, hgives⟩ := exists_ask hm h A owner hq hlt
  have hperform : w.perform (.request owner q use?) =
      ⟨w, .request owner q use?, .ok [s],
        (w.setRegistry owner ((w.registry owner).call q).after).use use? s⟩ := by
    simp only [Workspace.perform, hanswer]
  obtain ⟨huse, hmirrors⟩ :=
    exists_use hgives.handsOut.sound hgives.mirrors hgives.keeps hgives.name_eq use?
  rw [hperform]
  refine ⟨⟨m, .request owner q use?, .ok [c], m'.use use? c⟩, hends.map _,
    ⟨rfl, ?_, hmirrors, ?_, List.forall_mem_singleton.2 (.inr hgives.owner_eq),
      fun hnot => absurd hnot hq, fun _ => ⟨_, rfl⟩⟩, hgives.handsOut.append huse⟩
  · show Except.ok [c.name] = Except.ok [s.name]
    rw [hgives.name_eq]
  · rintro _ _ _ ⟨⟩
    exact List.forall_mem_singleton.2 hgives.owner_eq

theorem exists_perform (hm : m.Sound) (h : m.Mirrors w) (A : Allocator) (o : Workspace.Operation)
    (hlt : ((w.perform o).after.registry o.owner).counter < UInt64.size) :
    ∃ d, Ends (m.perform? A · o) d ∧ d.Performs (w.perform o) ∧ m.HandsOut d.after d.cells := by
  cases o with
  | request owner q use? =>
    rw [Workspace.Operation.owner, Workspace.registry_perform_request] at hlt
    by_cases hq : q.Nameless
    · exact exists_perform_nameless (o := .request owner q use?) hm h A hq
    · exact exists_perform_request hm h A owner hq use? hlt
  | standardize owner pass e =>
    rw [Workspace.Operation.owner, Workspace.registry_perform_standardize] at hlt
    obtain ⟨cs, m', hends, hhands, hmirrors, hnames, hcs⟩ :=
      exists_standardize hm h A owner pass e hlt
    refine ⟨⟨m, .standardize owner pass e, .ok cs, m'⟩, hends.map _,
      ⟨rfl, ?_, hmirrors, nofun, hcs, fun hnot => hnot.elim, fun _ => ⟨cs, rfl⟩⟩, hhands⟩
    show Except.ok (cs.map Cell.name) = Except.ok (List.map Symbol.name (List.map _ _))
    rw [hnames, List.map_map]
    rfl

theorem exists_run (hm : m.Sound) (h : m.Mirrors w) (A : Allocator)
    (os : List Workspace.Operation)
    (hlt : ∀ c ∈ w.run os, (c.after.registry c.operation.owner).counter < UInt64.size) :
    ∃ ds, Ends (m.run? A · os) ds ∧ List.Forall₂ Step.Performs ds (w.run os) ∧
      ∀ k, ∃ m', m.HandsOut m' ((ds.take k).flatMap Step.cells) ∧
        m'.Mirrors (w.last (os.take k)) := by
  induction os generalizing m w with
  | nil =>
    refine ⟨[], .const _, .nil, fun k => ⟨m, ?_, ?_⟩⟩
    · rw [List.take_nil]
      exact .refl hm
    · rw [List.take_nil]
      exact h
  | cons o os ih =>
    obtain ⟨hfirst, hrest⟩ := List.forall_mem_cons.1 hlt
    rw [Workspace.operation_perform] at hfirst
    obtain ⟨d, hends, hperforms, hhands⟩ := exists_perform hm h A o hfirst
    obtain ⟨ds, hends', hperforms', hpoints⟩ := ih hhands.sound hperforms.mirrors hrest
    refine ⟨d :: ds, ?_, .cons hperforms hperforms', fun k => ?_⟩
    · filter_upwards [hends, hends'] with depth hdepth hdepths
      simp only [run?, hdepth, hdepths, Option.bind_eq_bind, Option.bind_some, Option.pure_def]
    · cases k with
      | zero => exact ⟨m, .refl hm, h⟩
      | succ k =>
        obtain ⟨m', hhands', hmirrors⟩ := hpoints k
        exact ⟨m', hhands.append hhands', hmirrors⟩

/-! ## Runs from the start -/

theorem sound_start (config : Nat → Registry.Config) : (start config).Sound where
  owner _ _ hc := absurd hc List.not_mem_nil
  used _ hc := absurd hc List.not_mem_nil
  address _ _ ha := absurd ha List.not_mem_nil
  records _ _ hp := absurd hp List.not_mem_nil

theorem mirrors_start (config : Nat → Registry.Config) :
    (start config).Mirrors (.start config) :=
  ⟨fun _ => ⟨rfl, rfl, rfl⟩, fun _ => rfl⟩

theorem keeps_iff_of_start {config : Nat → Registry.Config} (h : (start config).HandsOut m cs) :
    m.Keeps c ↔ c ∈ cs := by
  rw [h.keeps]
  exact or_iff_right List.not_mem_nil

/-- Two cells that are kept are the same if the registries and the names agree. -/
theorem same_iff (hm : m.Sound) (h : m.Mirrors w) (ha : m.Keeps a) (hb : m.Keeps b) :
    a.same b ↔ a.owner = b.owner ∧ a.name = b.name := by
  rw [Cell.same, decide_eq_true_eq]
  constructor
  · intro hab
    rw [hm.address a b ha hb hab]
    exact ⟨rfl, rfl⟩
  · rintro ⟨howner, hname⟩
    rw [h.eq_of_name ha hb howner hname]

theorem equal_iff (hm : m.Sound) (h : m.Mirrors w) (ha : m.Keeps a) (hb : m.Keeps b) :
    a.equal b ↔ a.name = b.name := by
  rw [Cell.equal, Bool.or_eq_true, same_iff hm h ha hb, decide_eq_true_eq]
  exact or_iff_right_of_imp And.right

/-- Handles, which have no addresses, tell symbols apart in the same way. -/
theorem same_iff_handle_eq (hm : m.Sound) (h : m.Mirrors w) (ha : m.Keeps a) (hb : m.Keeps b)
    {g g' : Registry.Handle} (hg : a.owner = g.owner ∧ a.name = g.symbol.name)
    (hg' : b.owner = g'.owner ∧ b.name = g'.symbol.name) : a.same b ↔ g = g' := by
  rw [same_iff hm h ha hb, hg.1, hg'.1, hg.2, hg'.2, Registry.Handle.mk.injEq]
  exact and_congr_right fun _ => Symbol.eq_iff_name_eq.symm

/-- The names that one registry has handed out. -/
def names (cs : List Cell) (owner : Nat) : List String :=
  (cs.filter (·.owner = owner)).map Cell.name

/-- What a table holds after a run from the start is what its registry has handed out. -/
theorem mem_names_iff {config : Nat → Registry.Config} (h : (start config).HandsOut m cs) :
    name ∈ names cs owner ↔ name ∈ (m.table owner).cells.map Cell.name := by
  simp only [names, List.mem_map, List.mem_filter, decide_eq_true_eq]
  refine exists_congr fun c => and_congr_left fun _ => ?_
  rw [h.sound.mem_iff, keeps_iff_of_start h]

/-- Whatever is asked of any number of registries, two symbols that are handed out are
equal if they have the same name, and the same if they also come from the same registry.
At every point a registry contains the names that it has handed out, and no others. -/
theorem identity_over_runs (A : Allocator) (config : Nat → Registry.Config)
    (os : List Workspace.Operation)
    (h : ∀ c ∈ (Workspace.start config).run os,
      (c.after.registry c.operation.owner).counter < UInt64.size - 1) :
    ∃ ds, Ends ((start config).run? A · os) ds ∧
      List.Forall₂ Step.Performs ds ((Workspace.start config).run os) ∧
      (∀ a ∈ ds.flatMap Step.cells, ∀ b ∈ ds.flatMap Step.cells,
        (a.equal b ↔ a.name = b.name) ∧ (a.same b ↔ a.owner = b.owner ∧ a.name = b.name)) ∧
      ∀ k owner,
        let r := ((Workspace.start config).last (os.take k)).registry owner
        let handedOut := names ((ds.take k).flatMap Step.cells) owner
        (∀ name, r.contains name ↔ name ∈ handedOut) ∧
          r.size = handedOut.dedup.length ∧ "" ∉ handedOut := by
  obtain ⟨ds, hends, hperforms, hpoints⟩ := exists_run (sound_start config) (mirrors_start config) A
    os fun c hc => (h c hc).trans_le (Nat.sub_le _ _)
  refine ⟨ds, hends, hperforms, fun a ha b hb => ?_, fun k owner => ?_⟩
  · obtain ⟨m, hhands, hmirrors⟩ := hpoints ds.length
    rw [List.take_length] at hhands
    have ha' : m.Keeps a := (keeps_iff_of_start hhands).2 ha
    have hb' : m.Keeps b := (keeps_iff_of_start hhands).2 hb
    exact ⟨equal_iff hhands.sound hmirrors ha' hb', same_iff hhands.sound hmirrors ha' hb'⟩
  · obtain ⟨m, hhands, hmirrors⟩ := hpoints k
    intro r handedOut
    have htable : (m.table owner).Mirrors r := hmirrors.table owner
    have hmem (name : String) : name ∈ handedOut ↔ name ∈ (m.table owner).cells.map Cell.name :=
      mem_names_iff hhands
    refine ⟨fun name => ?_, ?_, fun hempty => ?_⟩
    · rw [← htable.contains_iff, hmem]
      simp [Table.contains, Table.find?]
    · have hperm : handedOut.dedup.Perm ((m.table owner).cells.map Cell.name) :=
        (List.perm_ext_iff_of_nodup (List.nodup_dedup _) htable.nodup_names).2 fun name => by
          rw [List.mem_dedup, hmem]
      rw [hperm.length_eq, List.length_map, ← htable.size_eq]
      rfl
    · obtain ⟨c, hc, hname⟩ := List.mem_map.1 ((hmem "").1 hempty)
      exact htable.name_ne_empty hc hname

/-- A pass of the first registry that starts with a replacement from the second one.  Both
registries come to hand out a symbol of the name `X0`. -/
theorem identity_over_runs_shared :
    ∃ (config : Nat → Registry.Config) (os : List Workspace.Operation),
      ((Workspace.start config).run os).map (·.answer.toOption.map (·.map Symbol.name)) =
        [some ["X"], some ["X0"], none, some ["X0"], some ["X0", "Y1", "X0"], some ["G2"], none] ∧
      (∀ c ∈ (Workspace.start config).run os,
        (c.after.registry c.operation.owner).counter < UInt64.size - 1) ∧
      ∃ ds, Ends ((start config).run? default · os) ds ∧
        List.Forall₂ Step.Performs ds ((Workspace.start config).run os) ∧
        (∀ a ∈ ds.flatMap Step.cells, ∀ b ∈ ds.flatMap Step.cells,
          (a.equal b ↔ a.name = b.name) ∧ (a.same b ↔ a.owner = b.owner ∧ a.name = b.name)) ∧
        ∀ k owner,
          let r := ((Workspace.start config).last (os.take k)).registry owner
          let handedOut := names ((ds.take k).flatMap Step.cells) owner
          (∀ name, r.contains name ↔ name ∈ handedOut) ∧
            r.size = handedOut.dedup.length ∧ "" ∉ handedOut := by
  let x : Symbol := ⟨"X", by decide⟩
  let y : Symbol := ⟨"Y", by decide⟩
  let os : List Workspace.Operation :=
    [.request 0 (.get "X") none, .request 1 (.get "X0") (some (3, ⟨x⟩)),
      .request 0 (.getOptional none) none, .request 0 (.fresh ⟨x⟩) none,
      .standardize 0 3 (.term (.app x [.var ⟨x⟩, .var ⟨y⟩, .var ⟨x⟩])),
      .request 0 (.generate none) none, .request 1 (.get "") none]
  have hcounter : ∀ c ∈ (Workspace.start fun _ => {}).run os,
      (c.after.registry c.operation.owner).counter < UInt64.size - 1 := by decide +kernel
  refine ⟨fun _ => {}, os, ?_, hcounter, identity_over_runs default _ os hcounter⟩
  decide +kernel

end Memory
end Unification
