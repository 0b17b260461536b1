import Mathlib.Data.List.Zip
import Mathlib.Data.Sym.Sym2
import Unification.Proofs.Problem

/-!
# Two runs in lockstep

Two runs of `solve` may start from different substitutions and have their equations
written differently, or the other way round.  They go through the same motions as
long as the fully replaced sides that they meet are images of each other: then both
fail with the same kind of obstruction, or both succeed and what they replace is
still exchanged by a pair of maps (`solve_together`).  So the outcome depends, up to
such an exchange, only on the fully replaced sides.

The runs need not take the same number of steps.  An equation whose sides are equal
already is dropped by both at once (`solve_cons_of_replace_eq`), however far either
would take it apart.
-/

namespace Unification

namespace UnificationError

/-- An obstruction without the order of its sides and without the texts and terms
that depend on how the sides are written. -/
inductive Kind where
  | symbolClash (symbols : Sym2 Symbol)
  | arityMismatch (arities : Sym2 Nat)
  | variantMismatch
  | operatorClash (connectives : Sym2 Connective)
  | occursCheck

def kind : UnificationError → Kind
  | symbolClash l r => .symbolClash s(l, r)
  | arityMismatch m n => .arityMismatch s(m, n)
  | variantMismatch _ _ => .variantMismatch
  | operatorClash k l => .operatorClash s(k, l)
  | occursCheck _ _ => .occursCheck

end UnificationError

/-- Both fail, with obstructions of one kind, or both succeed, with related results. -/
inductive Together {α β : Type} (R : α → β → Prop) :
    Except UnificationError α → Except UnificationError β → Prop
  | error {c d : UnificationError} (h : c.kind = d.kind) : Together R (.error c) (.error d)
  | ok {a : α} {b : β} (h : R a b) : Together R (.ok a) (.ok b)

namespace Together

variable {α β α' β' : Type} {R : α → β → Prop} {R' : α' → β' → Prop}
  {a : Except UnificationError α} {b : Except UnificationError β}

theorem map {f : α → α'} {g : β → β'} (h : Together R a b) (hR : ∀ x y, R x y → R' (f x) (g y)) :
    Together R' (a.map f) (b.map g) := by
  cases h with
  | error h => exact .error h
  | ok h => exact .ok (hR _ _ h)

theorem bind {f : α → Except UnificationError α'} {g : β → Except UnificationError β'}
    (h : Together R a b)
    (hR : ∀ x y, a = .ok x → b = .ok y → R x y → Together R' (f x) (g y)) :
    Together R' (a.bind f) (b.bind g) := by
  cases h with
  | error h => exact .error h
  | ok h => exact hR _ _ rfl rfl h

theorem mono {S : α → β → Prop} (h : Together R a b)
    (hR : ∀ x y, a = .ok x → b = .ok y → R x y → S x y) : Together S a b := by
  cases h with
  | error h => exact .error h
  | ok h => exact .ok (hR _ _ rfl rfl h)

theorem trans {γ : Type} {S : β → γ → Prop} {c : Except UnificationError γ}
    (h : Together R a b) (h' : Together S b c) :
    Together (fun x z => ∃ y, R x y ∧ S y z) a c := by
  cases h with
  | error h =>
    cases h' with
    | error h' => exact .error (h.trans h')
  | ok h =>
    cases h' with
    | ok h' => exact .ok ⟨_, h, h'⟩

theorem exists_error_iff (h : Together R a b) : (∃ c, a = .error c) ↔ ∃ d, b = .error d := by
  cases h with
  | error h => exact iff_of_true ⟨_, rfl⟩ ⟨_, rfl⟩
  | ok h => exact iff_of_false nofun nofun

theorem kind_eq {c d : UnificationError} (h : Together R a b) (hc : a = .error c)
    (hd : b = .error d) : c.kind = d.kind := by
  cases h with
  | error h =>
    cases hc
    cases hd
    exact h
  | ok h => cases hc

end Together

/-! ## Exchanging variables -/

/-- A pair of maps from variables to terms. -/
structure Exchange where
  forth : Variable → Term
  back : Variable → Term

namespace Exchange

variable {x : Exchange} {s t s' t' : Term} {v w : Variable}

/-- Each of the terms is the image of the other. -/
def Links (x : Exchange) (s t : Term) : Prop := s.subst x.forth = t ∧ t.subst x.back = s

def flip (x : Exchange) : Exchange := ⟨x.back, x.forth⟩

theorem Links.flip (h : x.Links s t) : x.flip.Links t s := ⟨h.2, h.1⟩

theorem Links.eq_iff (h : x.Links s t) (h' : x.Links s' t') : s = s' ↔ t = t' := by
  constructor
  · intro heq
    rw [← h.1, ← h'.1, heq]
  · intro heq
    rw [← h.2, ← h'.2, heq]

theorem Links.isVariable_eq (h : x.Links s t) : s.isVariable = t.isVariable := by
  have himage {s : Term} (hs : s.isVariable = false) (θ : Variable → Term) :
      (s.subst θ).isVariable = false := by
    rcases Term.eq_const_or_eq_app hs with ⟨c, rfl⟩ | ⟨f, args, rfl⟩
    · rfl
    · rw [Term.subst_app]; rfl
  cases hs : s.isVariable with
  | false => rw [← h.1, himage hs]
  | true =>
    cases ht : t.isVariable with
    | true => rfl
    | false => rw [← h.2, himage ht] at hs; exact hs.symm

/-- Linked variables occur in the same linked terms. -/
theorem Links.mem (hv : x.Links (.var v) (.var w)) (h : x.Links s t) (hmem : v ∈ s) : w ∈ t := by
  rw [← h.1, Term.mem_subst]
  have himage : x.forth v = .var w := hv.1
  exact ⟨v, hmem, himage ▸ Term.mem_var.2 rfl⟩

theorem links_const_iff {c : Symbol} : x.Links (.const c) t ↔ t = .const c := by
  constructor
  · intro h
    exact h.1.symm
  · intro h
    subst h
    exact ⟨rfl, rfl⟩

theorem Links.exists_args {f : Symbol} {ss : List Term} (h : x.Links (.app f ss) t) :
    ∃ ts, t = .app f ts ∧ List.Forall₂ x.Links ss ts := by
  obtain ⟨hforth, hback⟩ := h
  rw [Term.subst_app] at hforth
  subst hforth
  rw [Term.subst_app, List.map_map, Term.app.injEq, and_iff_right rfl] at hback
  refine ⟨_, rfl, ?_⟩
  rw [List.forall₂_map_right_iff, List.forall₂_same]
  intro s hs
  have hpoint := List.map_inj_left.1 (hback.trans (List.map_id ss).symm) s hs
  exact ⟨rfl, hpoint⟩

end Exchange

namespace Equation

variable {σ τ : Substitution} {x : Exchange}

def replace (e : Equation) (σ : Substitution) : Equation := (e.1.replace σ, e.2.replace σ)

/-- One side is a variable that occurs in the other. -/
def Circular (e : Equation) : Prop := ∃ v, e.1 = .var v ∧ v ∈ e.2 ∨ e.2 = .var v ∧ v ∈ e.1

/-- The sides are linked, in the same order or crosswise. -/
def Linked (x : Exchange) (e f : Equation) : Prop :=
  x.Links e.1 f.1 ∧ x.Links e.2 f.2 ∨ x.Links e.1 f.2 ∧ x.Links e.2 f.1

theorem Linked.flip {e f : Equation} (h : Linked x e f) : Linked x.flip f e := by
  rcases h with ⟨hl, hr⟩ | ⟨hl, hr⟩
  · exact .inl ⟨hl.flip, hr.flip⟩
  · exact .inr ⟨hr.flip, hl.flip⟩

/-- Linked equations stay linked when one of them is turned round. -/
theorem Linked.swap {e f : Equation} (h : Linked x e f) : Linked x e f.swap := h.symm

theorem Linked.equal_iff {e f : Equation} (h : Linked x e f) : e.1 = e.2 ↔ f.1 = f.2 := by
  rcases h with ⟨hl, hr⟩ | ⟨hl, hr⟩
  · exact hl.eq_iff hr
  · exact (hl.eq_iff hr).trans eq_comm

theorem Linked.isVariable_iff {e f : Equation} (h : Linked x e f) :
    e.1.isVariable = true ∨ e.2.isVariable = true ↔
      f.1.isVariable = true ∨ f.2.isVariable = true := by
  rcases h with ⟨hl, hr⟩ | ⟨hl, hr⟩
  · rw [hl.isVariable_eq, hr.isVariable_eq]
  · rw [hl.isVariable_eq, hr.isVariable_eq, or_comm]

theorem Linked.circular {e f : Equation} (h : Linked x e f) (he : e.Circular) : f.Circular := by
  have hvar {v : Variable} {s t s' t' : Term} (hs : x.Links s s') (ht : x.Links t t')
      (hv : s = .var v) (hmem : v ∈ t) : ∃ w, s' = .var w ∧ w ∈ t' := by
    have hvariable : s'.isVariable = true := by rw [← hs.isVariable_eq, hv]; rfl
    rcases s'.eq_var_or_not_variable with ⟨w, rfl⟩ | hnot
    · exact ⟨w, rfl, (hv ▸ hs).mem ht hmem⟩
    · rw [hnot] at hvariable
      cases hvariable
  obtain ⟨v, hv⟩ := he
  rcases h with ⟨hl, hr⟩ | ⟨hl, hr⟩ <;> rcases hv with ⟨hv, hmem⟩ | ⟨hv, hmem⟩
  · obtain ⟨w, hw⟩ := hvar hl hr hv hmem
    exact ⟨w, .inl hw⟩
  · obtain ⟨w, hw⟩ := hvar hr hl hv hmem
    exact ⟨w, .inr hw⟩
  · obtain ⟨w, hw⟩ := hvar hl hr hv hmem
    exact ⟨w, .inr hw⟩
  · obtain ⟨w, hw⟩ := hvar hr hl hv hmem
    exact ⟨w, .inl hw⟩

theorem Linked.circular_iff {e f : Equation} (h : Linked x e f) : e.Circular ↔ f.Circular :=
  ⟨h.circular, h.flip.circular⟩

/-! ### Taking terms apart -/

/-- Two terms that are no variables and whose replaced forms are linked have the
same head, and linked arguments. -/
theorem head_of_links {s s' : Term} (hs : s.isVariable = false) (hs' : s'.isVariable = false)
    (h : x.Links (s.replace σ) (s'.replace τ)) :
    (∃ c, s = .const c ∧ s' = .const c) ∨
      ∃ f ss ss', s = .app f ss ∧ s' = .app f ss' ∧
        List.Forall₂ (fun a b => x.Links (a.replace σ) (b.replace τ)) ss ss' := by
  rcases Term.eq_const_or_eq_app hs with ⟨c, rfl⟩ | ⟨f, ss, rfl⟩
  · left
    rw [Term.replace_const, Exchange.links_const_iff] at h
    rcases Term.eq_const_or_eq_app hs' with ⟨d, rfl⟩ | ⟨g, ss', rfl⟩
    · rw [Term.replace_const, Term.const.injEq] at h
      exact ⟨c, rfl, h ▸ rfl⟩
    · rw [Term.replace_app] at h
      cases h
  · right
    rw [Term.replace_app] at h
    obtain ⟨ts, hts, hargs⟩ := h.exists_args
    rcases Term.eq_const_or_eq_app hs' with ⟨d, rfl⟩ | ⟨g, ss', rfl⟩
    · rw [Term.replace_const] at hts
      cases hts
    · rw [Term.replace_app] at hts
      obtain ⟨rfl, rfl⟩ := Term.app.inj hts
      rw [List.forall₂_map_left_iff, List.forall₂_map_right_iff] at hargs
      exact ⟨_, ss, ss', rfl, rfl, hargs⟩

theorem forall₂_zip {α β : Type} {R : α → β → Prop} {as cs : List α} {bs ds : List β}
    (hab : List.Forall₂ R as bs) (hcd : List.Forall₂ R cs ds) :
    List.Forall₂ (fun p q => R p.1 q.1 ∧ R p.2 q.2) (as.zip cs) (bs.zip ds) := by
  induction hab generalizing cs ds with
  | nil => exact .nil
  | cons h _ ih =>
    cases hcd with
    | nil => exact .nil
    | cons h' hcd => exact .cons ⟨h, h'⟩ (ih hcd)

theorem decompose_together {s t s' t' : Term} (hs : s.isVariable = false)
    (ht : t.isVariable = false) (hs' : s'.isVariable = false) (ht' : t'.isVariable = false)
    (hl : x.Links (s.replace σ) (s'.replace τ)) (hr : x.Links (t.replace σ) (t'.replace τ)) :
    Together (List.Forall₂ fun e f => Linked x (replace e σ) (replace f τ)) (decompose s t)
      (decompose s' t') := by
  rcases head_of_links hs hs' hl with ⟨c, rfl, rfl⟩ | ⟨f, ss, ss', rfl, rfl, hss⟩ <;>
    rcases head_of_links ht ht' hr with ⟨d, rfl, rfl⟩ | ⟨g, ts, ts', rfl, rfl, hts⟩
  · rw [decompose]
    by_cases hc : c = d
    · rw [if_pos hc]
      exact .ok .nil
    · rw [if_neg hc]
      exact .error rfl
  · exact .error rfl
  · exact .error rfl
  · have hlens : ss.length = ss'.length := hss.length_eq
    have hlent : ts.length = ts'.length := hts.length_eq
    by_cases hf : f = g
    · subst hf
      by_cases hlen : ss.length = ts.length
      · rw [decompose_app_of_length_eq hlen, decompose_app_of_length_eq (hlens ▸ hlent ▸ hlen)]
        exact .ok ((forall₂_zip hss hts).imp fun _ _ h => .inl h)
      · rw [decompose_app_of_length_ne hlen, decompose_app_of_length_ne (hlens ▸ hlent ▸ hlen),
          hlens, hlent]
        exact .error rfl
    · rw [decompose_app_of_ne hf, decompose_app_of_ne hf]
      exact .error rfl

/-- The other way round, terms are taken apart likewise. -/
theorem decompose_swap (s t : Term) :
    Together (fun es fs => fs = es.map Prod.swap) (decompose s t) (decompose t s) := by
  cases s with
  | var v => cases t <;> exact .error rfl
  | const c =>
    cases t with
    | var w => exact .error rfl
    | const d =>
      rw [decompose, decompose]
      by_cases hc : c = d
      · rw [if_pos hc, if_pos hc.symm]
        exact .ok rfl
      · rw [if_neg hc, if_neg (Ne.symm hc)]
        exact .error (congrArg UnificationError.Kind.symbolClash Sym2.eq_swap)
    | app g ts => exact .error rfl
  | app f ss =>
    cases t with
    | var w => exact .error rfl
    | const d => exact .error rfl
    | app g ts =>
      by_cases hf : f = g
      · subst hf
        by_cases hlen : ss.length = ts.length
        · rw [decompose_app_of_length_eq hlen, decompose_app_of_length_eq hlen.symm]
          exact .ok (List.zip_swap ss ts).symm
        · rw [decompose_app_of_length_ne hlen, decompose_app_of_length_ne (Ne.symm hlen)]
          exact .error (congrArg UnificationError.Kind.arityMismatch Sym2.eq_swap)
      · rw [decompose_app_of_ne hf, decompose_app_of_ne (Ne.symm hf)]
        exact .error (congrArg UnificationError.Kind.symbolClash Sym2.eq_swap)

end Equation

namespace Substitution

open Equation

variable {σ τ σ' τ' : Substitution} {x : Exchange} {e f : Equation}

/-! ### One equation, by its replaced sides -/

theorem resolve_ne_of_replace_ne {s t : Term} (h : s.replace σ ≠ t.replace σ) :
    σ.resolve s ≠ σ.resolve t := by
  intro heq
  rw [← Term.replace_resolve s, heq, Term.replace_resolve] at h
  exact h rfl

theorem isVariable_resolve (t : Term) : (σ.resolve t).isVariable = (t.replace σ).isVariable := by
  rw [Bool.eq_iff_iff, ← not_iff_not, Bool.not_eq_true, Bool.not_eq_true,
    Term.isVariable_eq_false_iff, Term.isVariable_eq_false_iff]
  exact forall_congr' fun v => not_congr resolve_eq_var_iff

/-- Equations whose sides are equal under a substitution add nothing to it. -/
theorem reduce_of_replace_eq (h : e.1.replace σ = e.2.replace σ) :
    ∃ es, σ.reduce e = .ok (σ, es) ∧ ∀ e' ∈ es, e'.1.replace σ = e'.2.replace σ := by
  have hsolved : e.SolvedBy σ.value := h
  cases hred : σ.reduce e with
  | error cause => exact absurd hsolved (not_solvedBy_of_reduce_eq_error hred σ.solvedBy_value)
  | ok r =>
    obtain ⟨σ', es⟩ := r
    have hparts := ((reduce_solvedBy hred σ.value).2 ⟨σ.solvedBy_value, hsolved⟩).2
    suffices hσ : σ' = σ by exact ⟨es, by rw [hσ], hparts⟩
    rcases reduce_eq_ok hred with ⟨-, hσ, -⟩ | ⟨v, t, hv, ht, hsides, -, -⟩ | ⟨-, hσ⟩
    · exact hσ
    · have hvt : t.replace σ = .var v := by
        rw [← Term.replace_resolve e.1, ← Term.replace_resolve e.2] at h
        rcases hsides with ⟨hl, hr⟩ | ⟨hl, hr⟩ <;>
          rw [hl, hr, Term.replace_var, value_of_unbound hv] at h
        · exact h.symm
        · exact h
      have hreaches : σ.reaches v t = true := by
        rw [reaches_iff_mem_replace hv, hvt]
        exact Term.mem_var.2 rfl
      exact Bool.noConfusion (ht.symm.trans hreaches)
    · exact hσ

theorem solve_of_replace_eq {es : List Equation} (h : ∀ e ∈ es, e.1.replace σ = e.2.replace σ) :
    σ.solve es = .ok σ := by
  fun_induction solve σ es with
  | case1 σ => rfl
  | case2 σ e rest cause hred =>
    obtain ⟨es, hes, -⟩ := reduce_of_replace_eq (h e List.mem_cons_self)
    cases hred.symm.trans hes
  | case3 σ e rest σ' es hred ih =>
    obtain ⟨he, hrest⟩ := List.forall_mem_cons.1 h
    obtain ⟨parts, hparts, hequal⟩ := reduce_of_replace_eq he
    cases hred.symm.trans hparts
    exact ih (List.forall_mem_append.2 ⟨hequal, hrest⟩)

theorem solve_cons_of_replace_eq (h : e.1.replace σ = e.2.replace σ) (rest : List Equation) :
    σ.solve (e :: rest) = σ.solve rest := by
  have hfirst : σ.solve [e] = .ok σ := solve_of_replace_eq (List.forall_mem_singleton.2 h)
  rw [← List.singleton_append, solve_append, hfirst]
  rfl

theorem solve_cons_eq_bind (σ : Substitution) (e : Equation) (rest : List Equation) :
    σ.solve (e :: rest) = (σ.reduce e).bind fun r => r.1.solve (r.2 ++ rest) := by
  rw [solve_cons]
  cases σ.reduce e <;> rfl

theorem reduce_of_circular (hne : e.1.replace σ ≠ e.2.replace σ) (h : (e.replace σ).Circular) :
    ∃ v t, σ.reduce e = .error (.occursCheck v t) := by
  have hresolve := resolve_ne_of_replace_ne hne
  obtain ⟨v, ⟨hv, hmem⟩ | ⟨hv, hmem⟩⟩ := h
  · have hl : σ.resolve e.1 = .var v := resolve_eq_var_iff.2 hv
    have hreaches : σ.reaches v (σ.resolve e.2) = true := by
      rw [reaches_iff_mem_replace (Term.unbound_of_resolve_eq_var hl), Term.replace_resolve]
      exact hmem
    rw [reduce_of_var_left hresolve hl, eliminate_eq_error hreaches]
    exact ⟨v, _, rfl⟩
  · have hr : σ.resolve e.2 = .var v := resolve_eq_var_iff.2 hv
    have hl : (σ.resolve e.1).isVariable = false := by
      rw [isVariable_resolve, Term.isVariable_eq_false_iff]
      intro w hw
      have hvw : v = w := Term.mem_var.1 (show v ∈ Term.var w from hw ▸ hmem)
      exact hne (hw.trans (hvw ▸ hv.symm))
    have hreaches : σ.reaches v (σ.resolve e.1) = true := by
      rw [reaches_iff_mem_replace (Term.unbound_of_resolve_eq_var hr), Term.replace_resolve]
      exact hmem
    rw [reduce_of_var_right hl hr, eliminate_eq_error hreaches]
    exact ⟨v, _, rfl⟩

theorem reduce_of_variable (hne : e.1.replace σ ≠ e.2.replace σ)
    (hvar : (e.1.replace σ).isVariable = true ∨ (e.2.replace σ).isVariable = true)
    (h : ¬(e.replace σ).Circular) : ∃ σ', σ.reduce e = .ok (σ', []) := by
  have hnot {v : Variable} {t : Term} (hv : σ.lookup? v = none) (hmem : v ∉ t.replace σ) :
      σ.reaches v (σ.resolve t) = false := by
    rw [← Bool.not_eq_true, reaches_iff_mem_replace hv, Term.replace_resolve]
    exact hmem
  rcases (σ.resolve e.1).eq_var_or_not_variable with ⟨v, hl⟩ | hl
  · have hmem : v ∉ e.2.replace σ := fun hmem => h ⟨v, .inl ⟨resolve_eq_var_iff.1 hl, hmem⟩⟩
    have hv := Term.unbound_of_resolve_eq_var hl
    rw [reduce_of_var_left (resolve_ne_of_replace_ne hne) hl, eliminate_eq_ok hv (hnot hv hmem)]
    exact ⟨_, rfl⟩
  · rw [← isVariable_resolve, hl, ← isVariable_resolve] at hvar
    rcases (σ.resolve e.2).eq_var_or_not_variable with ⟨w, hr⟩ | hr
    · have hmem : w ∉ e.1.replace σ := fun hmem => h ⟨w, .inr ⟨resolve_eq_var_iff.1 hr, hmem⟩⟩
      have hw := Term.unbound_of_resolve_eq_var hr
      rw [reduce_of_var_right hl hr, eliminate_eq_ok hw (hnot hw hmem)]
      exact ⟨_, rfl⟩
    · rw [hr] at hvar
      simp at hvar

theorem reduce_of_compound (hne : e.1.replace σ ≠ e.2.replace σ)
    (hl : (e.1.replace σ).isVariable = false) (hr : (e.2.replace σ).isVariable = false) :
    ∃ s t, s.isVariable = false ∧ t.isVariable = false ∧
      (s.replace σ = e.1.replace σ ∧ t.replace σ = e.2.replace σ ∨
        s.replace σ = e.2.replace σ ∧ t.replace σ = e.1.replace σ) ∧
      σ.reduce e = (decompose s t).map (σ, ·) := by
  rw [← isVariable_resolve] at hl hr
  rw [reduce_of_not_variable (resolve_ne_of_replace_ne hne) hl hr]
  have hleft := Term.replace_resolve (σ := σ) e.1
  have hright := Term.replace_resolve (σ := σ) e.2
  by_cases hswap : e.2.isVariable = true
  · rw [if_pos hswap]
    exact ⟨_, _, hr, hl, .inr ⟨hright, hleft⟩, rfl⟩
  · rw [if_neg hswap]
    exact ⟨_, _, hl, hr, .inl ⟨hleft, hright⟩, rfl⟩

/-! ### The two runs -/

/-- What one exchange links under two substitutions, the other links under the two
that these have become. -/
def Leads (x y : Exchange) (σ τ σ' τ' : Substitution) : Prop :=
  ∀ s t : Term, x.Links (s.replace σ) (t.replace τ) → y.Links (s.replace σ') (t.replace τ')

theorem Leads.linked {y : Exchange} (h : Leads x y σ τ σ' τ')
    (hef : Linked x (e.replace σ) (f.replace τ)) : Linked y (e.replace σ') (f.replace τ') :=
  hef.imp (.imp (h _ _) (h _ _)) (.imp (h _ _) (h _ _))

/-- Replacing by `σ` first solves every binding of `σ`. -/
theorem solvedBy_subst_value (σ : Substitution) (η : Variable → Term) :
    σ.SolvedBy fun v => (σ.value v).subst η := by
  rw [solvedBy_iff_lookup?]
  intro v t ht
  rw [value_of_lookup? ht]
  exact Term.subst_subst σ.value η t

/-- A solution on one side is carried over to the other. -/
theorem subst_replace_of_linked (h : Linked x (e.replace σ) (f.replace τ))
    (hσ' : ∀ θ, σ.SolvedBy θ ∧ e.SolvedBy θ → σ'.SolvedBy θ)
    (hτ' : ∀ θ, τ'.SolvedBy θ → τ.SolvedBy θ ∧ f.SolvedBy θ) :
    ∃ θ, ∀ s t : Term, x.Links (s.replace σ) (t.replace τ) → (s.replace σ').subst θ = t.replace τ' := by
  obtain ⟨hτ, hf⟩ := hτ' τ'.value τ'.solvedBy_value
  -- It solves `σ` and `e`, so `σ'` may be followed before it.
  let θ : Variable → Term := fun v => (σ.value v).subst fun w => (x.forth w).subst τ'.value
  have hθ {s t : Term} (hst : x.Links (s.replace σ) (t.replace τ)) : s.subst θ = t.replace τ' := by
    calc s.subst θ = (s.replace σ).subst fun w => (x.forth w).subst τ'.value :=
          (Term.subst_subst σ.value _ s).symm
      _ = ((s.replace σ).subst x.forth).subst τ'.value := (Term.subst_subst x.forth τ'.value _).symm
      _ = (t.replace τ).subst τ'.value := by rw [hst.1]
      _ = t.replace τ' := hτ.subst_replace t
  have he : e.SolvedBy θ := by
    rw [Equation.SolvedBy]
    rcases h with ⟨hl, hr⟩ | ⟨hl, hr⟩
    · rw [hθ hl, hθ hr]
      exact hf
    · rw [hθ hl, hθ hr]
      exact hf.symm
  have hsolved : σ'.SolvedBy θ := hσ' θ ⟨σ.solvedBy_subst_value _, he⟩
  refine ⟨θ, fun s t hst => ?_⟩
  rw [hsolved.subst_replace, hθ hst]

theorem exists_leads (h : Linked x (e.replace σ) (f.replace τ))
    (hσ' : ∀ θ, σ'.SolvedBy θ ↔ σ.SolvedBy θ ∧ e.SolvedBy θ)
    (hτ' : ∀ θ, τ'.SolvedBy θ ↔ τ.SolvedBy θ ∧ f.SolvedBy θ) :
    ∃ y, Leads x y σ τ σ' τ' := by
  obtain ⟨forth, hforth⟩ := subst_replace_of_linked h (fun θ => (hσ' θ).2) (fun θ => (hτ' θ).1)
  obtain ⟨back, hback⟩ := subst_replace_of_linked h.flip (fun θ => (hτ' θ).2) (fun θ => (hσ' θ).1)
  exact ⟨⟨forth, back⟩, fun s t hst => ⟨hforth s t hst, hback t s hst.flip⟩⟩

theorem solvedBy_of_reduce_nil (h : σ.reduce e = .ok (σ', [])) (θ : Variable → Term) :
    σ'.SolvedBy θ ↔ σ.SolvedBy θ ∧ e.SolvedBy θ := by
  rw [← reduce_solvedBy h θ]
  simp

/-- One step on linked equations whose sides differ. -/
theorem reduce_together (h : Linked x (e.replace σ) (f.replace τ))
    (hne : e.1.replace σ ≠ e.2.replace σ) :
    Together (fun a b => ∃ y, Leads x y σ τ a.1 b.1 ∧
      List.Forall₂ (fun e f => Linked y (e.replace a.1) (f.replace b.1)) a.2 b.2)
      (σ.reduce e) (τ.reduce f) := by
  have hne' : f.1.replace τ ≠ f.2.replace τ := fun heq => hne (h.equal_iff.2 heq)
  by_cases hvar : (e.1.replace σ).isVariable = true ∨ (e.2.replace σ).isVariable = true
  · have hvar' := h.isVariable_iff.1 hvar
    by_cases hc : (e.replace σ).Circular
    · obtain ⟨v, s, hred⟩ := reduce_of_circular hne hc
      obtain ⟨w, t, hred'⟩ := reduce_of_circular hne' (h.circular hc)
      rw [hred, hred']
      exact .error rfl
    · obtain ⟨σ', hred⟩ := reduce_of_variable hne hvar hc
      obtain ⟨τ', hred'⟩ := reduce_of_variable hne' hvar' fun hc' => hc (h.circular_iff.2 hc')
      obtain ⟨y, hy⟩ := exists_leads h (solvedBy_of_reduce_nil hred) (solvedBy_of_reduce_nil hred')
      rw [hred, hred']
      exact .ok ⟨y, hy, .nil⟩
  · have hvar' : ¬((f.1.replace τ).isVariable = true ∨ (f.2.replace τ).isVariable = true) :=
      fun hf => hvar (h.isVariable_iff.2 hf)
    simp only [not_or, Bool.not_eq_true] at hvar hvar'
    obtain ⟨s, t, hs, ht, hsides, hred⟩ := reduce_of_compound hne hvar.1 hvar.2
    obtain ⟨s', t', hs', ht', hsides', hred'⟩ := reduce_of_compound hne' hvar'.1 hvar'.2
    -- Either step may have turned its equation round before taking it apart.
    have hlinks : x.Links (s.replace σ) (s'.replace τ) ∧ x.Links (t.replace σ) (t'.replace τ) ∨
        x.Links (s.replace σ) (t'.replace τ) ∧ x.Links (t.replace σ) (s'.replace τ) := by
      rcases hsides with ⟨h₁, h₂⟩ | ⟨h₁, h₂⟩ <;> rcases hsides' with ⟨h₃, h₄⟩ | ⟨h₃, h₄⟩ <;>
        rw [h₁, h₂, h₃, h₄]
      · exact h
      · exact h.symm
      · exact h.symm.imp And.symm And.symm
      · exact h.imp And.symm And.symm
    have hparts : Together (List.Forall₂ fun e f => Linked x (e.replace σ) (f.replace τ))
        (decompose s t) (decompose s' t') := by
      rcases hlinks with ⟨hl, hr⟩ | ⟨hl, hr⟩
      · exact decompose_together hs ht hs' ht' hl hr
      · refine ((decompose_together hs ht ht' hs' hl hr).trans (decompose_swap t' s')).mono ?_
        intro es _ _ _ hes
        obtain ⟨fs, hfs, rfl⟩ := hes
        exact List.forall₂_map_right_iff.2 (hfs.imp fun _ _ h => h.swap)
    rw [hred, hred']
    exact hparts.map fun es fs hes => ⟨x, fun _ _ hst => hst, hes⟩

/-- To prove a property of every run of `solve`, prove it where an equation is
dropped because its sides are equal, and where they differ and it is reduced. -/
@[elab_as_elim]
theorem solve_induction {motive : Substitution → List Equation → Prop}
    (nil : ∀ σ, motive σ [])
    (equal : ∀ σ (e : Equation) rest, e.1.replace σ = e.2.replace σ → motive σ rest →
      motive σ (e :: rest))
    (differ : ∀ σ (e : Equation) rest, e.1.replace σ ≠ e.2.replace σ →
      (∀ σ' es, σ.reduce e = .ok (σ', es) → motive σ' (es ++ rest)) → motive σ (e :: rest))
    (σ : Substitution) (es : List Equation) : motive σ es := by
  match es with
  | [] => exact nil σ
  | e :: rest =>
    by_cases heq : e.1.replace σ = e.2.replace σ
    · exact equal σ e rest heq (solve_induction nil equal differ σ rest)
    · exact differ σ e rest heq fun σ' es _ => solve_induction nil equal differ σ' (es ++ rest)
termination_by ((unknowns σ es).length, weight σ es)
decreasing_by
  · exact smaller_tail σ e rest
  · next hred => exact reduce_smaller hred rest

/-- Runs on linked equations have the same outcome, and what was linked stays so. -/
theorem solve_together {es fs : List Equation}
    (h : List.Forall₂ (fun e f => Linked x (e.replace σ) (f.replace τ)) es fs) :
    Together (fun σ' τ' => ∃ y, Leads x y σ τ σ' τ') (σ.solve es) (τ.solve fs) := by
  induction σ, es using solve_induction generalizing τ fs x with
  | nil σ =>
    cases h
    rw [solve_nil, solve_nil]
    exact .ok ⟨x, fun _ _ hst => hst⟩
  | equal σ e rest heq ih =>
    cases h with
    | cons hef hrest =>
      rw [solve_cons_of_replace_eq heq, solve_cons_of_replace_eq (hef.equal_iff.1 heq)]
      exact ih hrest
  | differ σ e rest hne ih =>
    cases h with
    | cons hef hrest =>
      rw [solve_cons_eq_bind, solve_cons_eq_bind]
      refine (reduce_together hef hne).bind ?_
      intro a b hred _ hab
      obtain ⟨σ', es⟩ := a
      obtain ⟨τ', fs⟩ := b
      obtain ⟨y, hy, hparts⟩ := hab
      have hrest' := hrest.imp fun _ _ h => hy.linked h
      exact (ih σ' es hred (List.rel_append hparts hrest')).mono
        fun _ _ _ _ ⟨z, hz⟩ => ⟨z, fun s t hst => hz s t (hy s t hst)⟩

end Substitution

/-! ### Expressions -/

namespace Problem

variable {φ : Equation → Equation} {p q p' q' : Problem}

/-- The equations are those of `p` rewritten by `φ`, and an obstruction of the same
kind stands in the way, or none. -/
def Follows (p : Problem) (φ : Equation → Equation) (q : Problem) : Prop :=
  q.equations = p.equations.map φ ∧
    q.obstruction?.map UnificationError.kind = p.obstruction?.map UnificationError.kind

theorem follows_blocked {c d : UnificationError} (h : d.kind = c.kind) :
    (blocked c).Follows φ (blocked d) :=
  ⟨rfl, congrArg some h⟩

theorem follows_ofEquations {es fs : List Equation} (h : fs = es.map φ) :
    (ofEquations es).Follows φ (ofEquations fs) :=
  ⟨h, rfl⟩

theorem Follows.andThen (h : p.Follows φ q) (h' : p'.Follows φ q') :
    (p.andThen p').Follows φ (q.andThen q') := by
  obtain ⟨es, cause?⟩ := p
  obtain ⟨fs, cause'?⟩ := q
  obtain ⟨rfl, hcause⟩ := h
  cases cause? <;> cases cause'?
  · refine ⟨?_, h'.2⟩
    simp only [Problem.andThen, h'.1, List.map_append]
  · cases hcause
  · cases hcause
  · exact ⟨rfl, hcause⟩

theorem Follows.solve_together {x : Exchange} {σ τ : Substitution} (h : p.Follows φ q)
    (hφ : ∀ e ∈ p.equations, Equation.Linked x (e.replace σ) ((φ e).replace τ)) :
    Together (fun σ' τ' => ∃ y, Substitution.Leads x y σ τ σ' τ') (p.solve σ) (q.solve τ) := by
  obtain ⟨es, cause?⟩ := p
  obtain ⟨fs, cause'?⟩ := q
  obtain ⟨rfl, hcause⟩ := h
  have hlinked : List.Forall₂ (fun e f => Equation.Linked x (e.replace σ) (f.replace τ)) es
      (es.map φ) := by
    rw [List.forall₂_map_right_iff, List.forall₂_same]
    exact hφ
  refine (Substitution.solve_together hlinked).bind fun σ' τ' _ _ hlead => ?_
  cases cause? <;> cases cause'?
  · exact .ok hlead
  · cases hcause
  · cases hcause
  · exact .error (Option.some.inj hcause).symm

end Problem

namespace Formula

theorem Clash.subst {f g : Formula} {cause : UnificationError} (h : Clash f g cause)
    (θ : Variable → Term) :
    ∃ cause', Clash (f.subst θ) (g.subst θ) cause' ∧ cause'.kind = cause.kind := by
  cases h with
  | symbols hp => exact ⟨_, .symbols hp, rfl⟩
  | @arguments p ss ts a b hlen =>
    rw [subst_predicate, subst_predicate]
    refine ⟨_, .arguments (by rwa [List.length_map, List.length_map]), ?_⟩
    rw [List.length_map, List.length_map]
  | connectives hk =>
    rw [subst_operator, subst_operator, connect, connect]
    exact ⟨_, .connectives hk, rfl⟩
  | operands hlen =>
    rw [subst_operator, subst_operator, connect, connect]
    refine ⟨_, .operands (by rwa [List.length_map, List.length_map]), ?_⟩
    rw [List.length_map, List.length_map]
  | predicateOperator =>
    rw [subst_predicate, subst_operator, connect]
    exact ⟨_, .predicateOperator, rfl⟩
  | operatorPredicate =>
    rw [subst_predicate, subst_operator, connect]
    exact ⟨_, .operatorPredicate, rfl⟩

/-- Formulas in which variables have been replaced stand for the same equations,
with the variables replaced. -/
theorem problem_follows_subst (θ : Variable → Term) (f g : Formula) :
    (f.problem g).Follows (Prod.map (Term.subst θ) (Term.subst θ))
      ((f.subst θ).problem (g.subst θ)) := by
  induction f, g using pair_induction with
  | clash f g cause h =>
    obtain ⟨cause', h', hkind⟩ := h.subst θ
    rw [problem_of_clash h, problem_of_clash h']
    exact Problem.follows_blocked hkind
  | predicates p ss ts a b hlen =>
    rw [subst_predicate, subst_predicate, problem_predicates hlen,
      problem_predicates (by rwa [List.length_map, List.length_map])]
    exact Problem.follows_ofEquations List.zip_map
  | operators k fs gs a b h =>
    rw [subst_operator, subst_operator, connect, connect, problem_operators h.length_eq,
      problem_operators (by rw [List.length_map, List.length_map, h.length_eq])]
    induction h with
    | nil => exact Problem.follows_ofEquations rfl
    | cons hfg _ ih => exact hfg.andThen ih

end Formula

namespace Pair

theorem problem_follows_replace (σ : Substitution) (p : Pair) :
    p.problem.Follows (Equation.replace · σ) (p.replace σ).problem := by
  cases p with
  | terms s t => exact Problem.follows_ofEquations rfl
  | formulas f g => exact Formula.problem_follows_subst σ.value f g

end Pair

end Unification
