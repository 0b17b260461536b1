import Unification.Proofs.RenamingApart
import Unification.Proofs.Unchecked.Counting

/-!
# Renaming apart in machine words

Renaming apart once more, as a run of bounded call depth whose fresh names are numbered
in 64-bit words.  The renamer is the state that the run carries along.  It ends with
what `Expression.standardizeApart` gives, as long as the counter stays a word
(`Expression.ends_standardize`).
-/

namespace Unification

namespace Renamer

/-- The replacement of a variable, made and recorded if it has none. -/
def rename? (depth : Nat) (v : Variable) : StateT Renamer Option Variable := fun s =>
  match s.record.lookup? v with
  | some w => some (w, s)
  | none =>
    (s.registry.makeUp? depth (s.registry.stem v.stem?)).map fun (symbol, registry) =>
      (⟨symbol⟩, ⟨s.record.insert v ⟨symbol⟩, registry⟩)

end Renamer

def Term.standardize? : Nat → Term → StateT Renamer Option Term
  | 0, _ => failure
  | depth + 1, .var v => .var <$> Renamer.rename? depth v
  | _ + 1, .const c => pure (.const c)
  | depth + 1, .app f args => .app f <$> args.mapM (standardize? depth)

def Formula.standardize? : Nat → Formula → StateT Renamer Option Formula
  | 0, _ => failure
  | depth + 1, .predicate p args v =>
    (fun args => .predicate p args v) <$> args.mapM (Term.standardize? depth)
  | depth + 1, .operator k operands _ => connect k <$> operands.mapM (standardize? depth)

def Expression.standardize? (depth : Nat) : Expression → StateT Renamer Option Expression
  | .term t => .term <$> t.standardize? depth
  | .formula f => .formula <$> f.standardize? depth

/-! ## Runs that carry a state -/

namespace Ends

variable {α β γ σ : Type} {s s' s'' : σ}

theorem map_run (f : α → β) {run : Nat → StateT σ Option α} {a : α}
    (h : Ends (fun depth => (run depth).run s) (a, s')) :
    Ends (fun depth => (f <$> run depth).run s) (f a, s') := by
  filter_upwards [h] with depth hdepth
  rw [StateT.run_map, hdepth]
  rfl

theorem seq_run (f : α → β → γ) {run : Nat → StateT σ Option α} {run' : Nat → StateT σ Option β}
    {a : α} {b : β} (h : Ends (fun depth => (run depth).run s) (a, s'))
    (h' : Ends (fun depth => (run' depth).run s') (b, s'')) :
    Ends (fun depth => (f <$> run depth <*> run' depth).run s) (f a b, s'') := by
  filter_upwards [h, h'] with depth hdepth hdepth'
  rw [StateT.run_seq, StateT.run_map, hdepth]
  show (fun p : β × σ => (f a p.1, p.2)) <$> (run' depth).run s' = _
  rw [hdepth']
  rfl

theorem mapM_run_nil (run : Nat → α → StateT σ Option β) (s : σ) :
    Ends (fun depth => (([] : List α).mapM (run depth)).run s) ([], s) :=
  .const _

theorem mapM_run_cons {run : Nat → α → StateT σ Option β} {x : α} {xs : List α} {y : β}
    {ys : List β} (hx : Ends (fun depth => (run depth x).run s) (y, s'))
    (hxs : Ends (fun depth => (xs.mapM (run depth)).run s') (ys, s'')) :
    Ends (fun depth => ((x :: xs).mapM (run depth)).run s) (y :: ys, s'') := by
  filter_upwards [hx, hxs] with depth hdepth hdepths
  rw [List.mapM_cons, StateT.run_bind, hdepth]
  show (List.mapM (run depth) xs >>= fun ys => pure (y :: ys)).run s' = _
  rw [StateT.run_bind, hdepths]
  rfl

end Ends

/-! ## Where they end -/

namespace Renamer

variable {s : Renamer}

theorem counter_le_renameAll (s : Renamer) (vs : List Variable) :
    s.registry.counter ≤ (s.renameAll vs).registry.counter := by
  obtain ⟨added, h⟩ := s.exists_records_renameAll vs
  exact h.makes.grows.counter

theorem ends_rename {v : Variable} (h : (s.rename v).2.registry.counter < UInt64.size) :
    Ends (fun depth => (rename? depth v).run s) (s.rename v) := by
  cases hv : s.record.lookup? v with
  | some w =>
    refine .of_answer fun depth => ?_
    rw [rename_of_lookup? hv]
    show rename? _ v s = _
    rw [rename?, hv]
  | none =>
    rw [rename_of_new hv] at h ⊢
    filter_upwards [Registry.ends_makeUp h] with depth hdepth
    show rename? depth v s = _
    rw [rename?, hv]
    show Option.map _ _ = _
    rw [hdepth]
    rfl

variable {α : Type} {step : Renamer → α → α × Renamer}

theorem counter_le_eachApart
    (hstep : ∀ x s, s.registry.counter ≤ (step s x).2.registry.counter)
    (s : Renamer) (xs : List α) :
    s.registry.counter ≤ (eachApart step s xs).2.registry.counter := by
  induction xs generalizing s with
  | nil => exact Nat.le_refl _
  | cons x xs ih => exact (hstep x s).trans (ih (step s x).2)

theorem ends_eachApart {run : Nat → α → StateT Renamer Option α} {xs : List α}
    (hstep : ∀ x s, s.registry.counter ≤ (step s x).2.registry.counter)
    (hrun : ∀ x ∈ xs, ∀ s, (step s x).2.registry.counter < UInt64.size →
      Ends (fun depth => (run depth x).run s) (step s x))
    (s : Renamer) (h : (eachApart step s xs).2.registry.counter < UInt64.size) :
    Ends (fun depth => (xs.mapM (run depth)).run s) (eachApart step s xs) := by
  induction xs generalizing s with
  | nil => exact .mapM_run_nil _ s
  | cons x xs ih =>
    obtain ⟨hx, hxs⟩ := List.forall_mem_cons.1 hrun
    have hfirst : (step s x).2.registry.counter < UInt64.size :=
      (counter_le_eachApart hstep (step s x).2 xs).trans_lt h
    exact .mapM_run_cons (hx s hfirst) (ih hxs (step s x).2 h)

end Renamer

namespace Term

theorem counter_le_standardizeApart (t : Term) (s : Renamer) :
    s.registry.counter ≤ (t.standardizeApart s).2.registry.counter := by
  rw [standardizeApart_eq]
  exact s.counter_le_renameAll t.occurrences

theorem ends_standardize (t : Term) (s : Renamer)
    (h : (t.standardizeApart s).2.registry.counter < UInt64.size) :
    Ends (fun depth => (t.standardize? depth).run s) (t.standardizeApart s) := by
  induction t generalizing s with
  | var v => exact .of_call (fun _ => rfl) (.map_run Term.var (Renamer.ends_rename h))
  | const c => exact .of_answer fun _ => rfl
  | app f args ih =>
    rw [standardizeApart, standardizeAllApart_eq] at h ⊢
    have hargs := Renamer.ends_eachApart counter_le_standardizeApart ih s h
    exact .of_call (fun _ => rfl) (.map_run (Term.app f) hargs)

end Term

namespace Formula

theorem counter_le_standardizeApart (f : Formula) (s : Renamer) :
    s.registry.counter ≤ (f.standardizeApart s).2.registry.counter := by
  rw [standardizeApart_eq]
  exact s.counter_le_renameAll f.occurrences

theorem ends_standardize (f : Formula) (s : Renamer)
    (h : (f.standardizeApart s).2.registry.counter < UInt64.size) :
    Ends (fun depth => (f.standardize? depth).run s) (f.standardizeApart s) := by
  induction f generalizing s with
  | predicate p args v =>
    rw [standardizeApart, Term.standardizeAllApart_eq] at h ⊢
    have hargs := Renamer.ends_eachApart Term.counter_le_standardizeApart
      (fun t _ => t.ends_standardize) s h
    exact .of_call (fun _ => rfl) (.map_run _ hargs)
  | operator k operands v ih =>
    rw [standardizeApart, standardizeAllApart_eq] at h ⊢
    have hoperands := Renamer.ends_eachApart counter_le_standardizeApart ih s h
    exact .of_call (fun _ => rfl) (.map_run (connect k) hoperands)

end Formula

theorem Expression.ends_standardize {s : Renamer} {e : Expression}
    (h : (e.standardizeApart s).2.registry.counter < UInt64.size) :
    Ends (fun depth => (e.standardize? depth).run s) (e.standardizeApart s) := by
  cases e with
  | term t => exact .map_run Expression.term (t.ends_standardize s h)
  | formula f => exact .map_run Expression.formula (f.ends_standardize s h)

end Unification
