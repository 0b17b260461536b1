import Unification.Term.Basic

/-!
# Lemmas about terms

The list halves of the recursions agree with `List.map`, `List.any` and
`List.all`, and the traversals describe one set of occurrences:
`mem_vars` ties the collected variables to the occurrence test.

`subst_congr` says that a replacement depends only on the variables of the
term, and `subst_subst` that two replacements in turn are one.
-/

namespace Unification
namespace Term

@[simp] theorem anyContains_eq (v : Variable) (ts : List Term) :
    anyContains v ts = ts.any (contains v) := by
  induction ts with
  | nil => rfl
  | cons t ts ih => simp [anyContains, ih]

@[simp] theorem allGround_eq (ts : List Term) : allGround ts = ts.all isGround := by
  induction ts with
  | nil => rfl
  | cons t ts ih => simp [allGround, ih]

@[simp] theorem collectAll_eq (seen : List Variable) (ts : List Term) :
    collectAll seen ts = ts.foldl collect seen := by
  induction ts generalizing seen with
  | nil => rfl
  | cons t ts ih => simp [collectAll, ih]

theorem size_le_sizeAll {t : Term} {ts : List Term} (h : t ∈ ts) : t.size ≤ sizeAll ts := by
  induction ts with
  | nil => cases h
  | cons s ts ih =>
    rw [sizeAll]
    rcases List.mem_cons.1 h with rfl | h
    · omega
    · have := ih h
      omega

@[simp] theorem substAll_eq (θ : Variable → Term) (ts : List Term) :
    substAll θ ts = ts.map (subst θ) := by
  induction ts with
  | nil => rfl
  | cons t ts ih => simp [substAll, ih]

/-! ## Occurrence -/

@[simp] theorem mem_var {v w : Variable} : v ∈ Term.var w ↔ v = w := by
  change decide (w = v) = true ↔ v = w
  simp [eq_comm]

@[simp] theorem not_mem_const {v : Variable} {c : Symbol} : v ∉ Term.const c :=
  Bool.false_ne_true

@[simp] theorem mem_app {v : Variable} {f : Symbol} {args : List Term} :
    v ∈ Term.app f args ↔ ∃ t ∈ args, v ∈ t := by
  change contains v (.app f args) = true ↔ _
  rw [contains, anyContains_eq, List.any_eq_true]
  rfl

theorem size_pos (t : Term) : 0 < t.size := by
  cases t <;> simp [size]

/-! ## Collecting variables -/

theorem mem_collect {v : Variable} {seen : List Variable} {t : Term} :
    v ∈ collect seen t ↔ v ∈ seen ∨ v ∈ t := by
  induction t generalizing seen with
  | var w =>
    simp only [collect, mem_var]
    split
    · constructor
      · exact .inl
      · rintro (h | rfl) <;> assumption
    · simp
  | const c => simp [collect]
  | app f args ih =>
    simp only [collect, collectAll_eq, mem_app]
    induction args generalizing seen with
    | nil => simp
    | cons t ts ihs =>
      rw [List.foldl_cons, ihs (fun u hu => ih u (List.mem_cons_of_mem t hu)),
        ih t List.mem_cons_self]
      simp only [List.mem_cons, or_and_right, exists_or, exists_eq_left, or_assoc]

theorem nodup_collect {seen : List Variable} (h : seen.Nodup) (t : Term) :
    (collect seen t).Nodup := by
  induction t generalizing seen with
  | var w =>
    simp only [collect]
    split
    · exact h
    · next hw => simp [List.nodup_append, h]; rintro v hv rfl; exact hw hv
  | const c => exact h
  | app f args ih =>
    simp only [collect, collectAll_eq]
    induction args generalizing seen with
    | nil => exact h
    | cons t ts ihs =>
      exact ihs (fun u hu => ih u (List.mem_cons_of_mem t hu)) (ih t List.mem_cons_self h)

@[simp] theorem mem_vars {v : Variable} {t : Term} : v ∈ t.vars ↔ v ∈ t := by
  simp [vars, mem_collect]

theorem nodup_vars (t : Term) : t.vars.Nodup := nodup_collect List.nodup_nil t

theorem isGround_iff {t : Term} : t.isGround = true ↔ ∀ v, v ∉ t := by
  induction t with
  | var w => simp [isGround]
  | const c => simp [isGround]
  | app f args ih =>
    simp only [isGround, allGround_eq, List.all_eq_true, mem_app, not_exists, not_and]
    exact ⟨fun h v t ht hv => (ih t ht).1 (h t ht) v hv, fun h t ht => (ih t ht).2 (fun v => h v t ht)⟩

/-! ## Replacing variables -/

@[simp] theorem subst_var (θ : Variable → Term) (v : Variable) : subst θ (.var v) = θ v := rfl

@[simp] theorem subst_const (θ : Variable → Term) (c : Symbol) : subst θ (.const c) = .const c := rfl

@[simp] theorem subst_app (θ : Variable → Term) (f : Symbol) (args : List Term) :
    subst θ (.app f args) = .app f (args.map (subst θ)) := by
  rw [subst, substAll_eq]

theorem subst_congr {θ η : Variable → Term} {t : Term} (h : ∀ v ∈ t, θ v = η v) :
    t.subst θ = t.subst η := by
  induction t with
  | var v => exact h v (by simp)
  | const c => rfl
  | app f args ih =>
    simp only [subst_app, app.injEq, true_and]
    exact List.map_congr_left (fun t ht => ih t ht (fun v hv => h v (mem_app.2 ⟨t, ht, hv⟩)))

@[simp] theorem subst_id (t : Term) : t.subst .var = t := by
  induction t with
  | var v => rfl
  | const c => rfl
  | app f args ih =>
    rw [subst_app, List.map_congr_left ih, List.map_id']

theorem subst_subst (θ η : Variable → Term) (t : Term) :
    (t.subst θ).subst η = t.subst (fun v => (θ v).subst η) := by
  induction t with
  | var v => rfl
  | const c => rfl
  | app f args ih =>
    simp only [subst_app, List.map_map, app.injEq, true_and]
    exact List.map_congr_left ih

theorem mem_subst {θ : Variable → Term} {t : Term} {w : Variable} :
    w ∈ t.subst θ ↔ ∃ v ∈ t, w ∈ θ v := by
  induction t with
  | var v => simp
  | const c => simp
  | app f args ih =>
    simp only [subst_app, mem_app, List.mem_map]
    constructor
    · rintro ⟨_, ⟨t, ht, rfl⟩, hw⟩
      obtain ⟨v, hv, hw⟩ := (ih t ht).1 hw
      exact ⟨v, ⟨t, ht, hv⟩, hw⟩
    · rintro ⟨v, ⟨t, ht, hv⟩, hw⟩
      exact ⟨_, ⟨t, ht, rfl⟩, (ih t ht).2 ⟨v, hv, hw⟩⟩

mutual
theorem substOn_eq : (t : Term) → (θ : Variable → Term) → t.substOn (fun v _ => θ v) = t.subst θ
  | .var _, _ => rfl
  | .const _, _ => rfl
  | .app f args, θ => congrArg (app f) (substAllOn_eq args θ)

theorem substAllOn_eq : (ts : List Term) → (θ : Variable → Term) →
    substAllOn ts (fun v _ => θ v) = substAll θ ts
  | [], _ => rfl
  | t :: ts, θ => congr (congrArg List.cons (substOn_eq t θ)) (substAllOn_eq ts θ)
end

end Term
end Unification
