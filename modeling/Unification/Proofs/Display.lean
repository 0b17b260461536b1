import Unification.Proofs.Indistinguishable

/-!
# What can be read off a text

A text does not show whether a name stands for a variable or for a constant, and it shows no
truth values.  All else can be read off it, as long as no name contains one of the marks
that the texts are structured by (`Term.display_eq_iff`, `Formula.display_eq_iff`).

A text is read from the left.  A name ends at the first mark, and a term or formula can be
told from whatever comes after it, unless that begins with an opening parenthesis: the
constant `a` in front of `()` reads as an application.  Arguments and operands are followed
by a separator or by the closing parenthesis, so the induction goes through with any such
rest behind both texts (`Term.display_append_inj`, `Formula.display_append_inj`).
-/

namespace Unification

namespace Display

/-- The marks that stand behind a term or a formula. -/
def stops : List Char := [')', ',', ' ']

/-- All marks, which may stand behind a name. -/
def marks : List Char := '(' :: stops

/-- No character is a mark. -/
def Unmarked (l : List Char) : Prop := ∀ c ∈ l, c ∉ marks

instance : DecidablePred Unmarked := fun l => List.decidableBAll (· ∉ marks) l

/-- Nothing follows, or a mark that stands behind a term or a formula comes first. -/
def Stops (r : List Char) : Prop := ∀ c ∈ r.head?, c ∈ stops

variable {l l' r r' : List Char}

theorem stops_nil : Stops [] := nofun

theorem stops_cons {c : Char} (hc : c ∈ stops) (r : List Char) : Stops (c :: r) := by
  rintro _ ⟨⟩
  exact hc

theorem Stops.marks (h : Stops r) : ∀ c ∈ r.head?, c ∈ marks :=
  fun c hc => List.mem_cons_of_mem _ (h c hc)

/-- A name ends at the first mark. -/
theorem unmarked_append_inj (hl : Unmarked l) (hl' : Unmarked l')
    (hr : ∀ c ∈ r.head?, c ∈ marks) (hr' : ∀ c ∈ r'.head?, c ∈ marks) (h : l ++ r = l' ++ r') :
    l = l' ∧ r = r' := by
  induction l generalizing l' with
  | nil =>
    cases l' with
    | nil => exact ⟨rfl, h⟩
    | cons c l' =>
      have hrest : r = c :: (l' ++ r') := h
      exact absurd (hr c (hrest ▸ rfl)) (hl' c List.mem_cons_self)
  | cons c l ih =>
    cases l' with
    | nil =>
      have hrest : c :: (l ++ r) = r' := h
      exact absurd (hr' c (hrest ▸ rfl)) (hl c List.mem_cons_self)
    | cons d l' =>
      obtain ⟨rfl, hrest⟩ := List.cons.inj h
      obtain ⟨rfl, hr⟩ := ih (List.forall_mem_cons.1 hl).2 (List.forall_mem_cons.1 hl').2 hrest
      exact ⟨rfl, hr⟩

variable {α β : Type} {text : α → List Char} {key : α → β} {sep : Char}

/-- An item is followed by the separator of the next one or by the closing parenthesis. -/
theorem stops_items (hsep : sep ∈ stops) (xs : List α) (r : List Char) :
    Stops (xs.flatMap (fun x => sep :: text x) ++ ')' :: r) := by
  cases xs with
  | nil => exact stops_cons (by decide) _
  | cons x xs => exact stops_cons hsep _

/-- A list of items can be read if every item can, where each comes after a separator and
the last before the closing parenthesis. -/
theorem items_append_inj (hsep : sep ∈ stops) (hclose : sep ≠ ')') {xs ys : List α}
    (hinj : ∀ x ∈ xs, ∀ y ∈ ys, ∀ r r', Stops r → Stops r' →
      text x ++ r = text y ++ r' → key x = key y ∧ r = r')
    (h : xs.flatMap (fun x => sep :: text x) ++ ')' :: r =
      ys.flatMap (fun y => sep :: text y) ++ ')' :: r') :
    xs.map key = ys.map key ∧ r = r' := by
  induction xs generalizing ys with
  | nil =>
    cases ys with
    | nil => exact ⟨rfl, (List.cons.inj h).2⟩
    | cons y ys => exact absurd (List.cons.inj h).1.symm hclose
  | cons x xs ih =>
    cases ys with
    | nil => exact absurd (List.cons.inj h).1 hclose
    | cons y ys =>
      rw [List.flatMap_cons, List.flatMap_cons, List.append_assoc, List.append_assoc] at h
      obtain ⟨hkey, hrest⟩ := hinj x List.mem_cons_self y List.mem_cons_self _ _
        (stops_items hsep xs r) (stops_items hsep ys r') (List.cons.inj h).2
      obtain ⟨hkeys, hr⟩ := ih (fun x hx y hy =>
        hinj x (List.mem_cons_of_mem _ hx) y (List.mem_cons_of_mem _ hy)) hrest
      exact ⟨by rw [List.map_cons, List.map_cons, hkey, hkeys], hr⟩

end Display

open Display

theorem Connective.unmarked_name (k : Connective) : Unmarked k.name.toList := by
  cases k <;> decide

theorem Connective.name_injective : Function.Injective Connective.name := by
  intro k l h
  exact Option.some.inj (k.ofName?_name.symm.trans (h ▸ l.ofName?_name))

/-- The name contains no mark. -/
def Symbol.IsPlain (s : Symbol) : Prop := Unmarked s.name.toList

instance (s : Symbol) : Decidable s.IsPlain := inferInstanceAs (Decidable (Unmarked _))

namespace Term

mutual
/-- The symbols of a term, from left to right. -/
def symbols : Term → List Symbol
  | .var v => [v.symbol]
  | .const c => [c]
  | .app f args => f :: symbolsAll args

def symbolsAll : List Term → List Symbol
  | [] => []
  | t :: ts => symbols t ++ symbolsAll ts
end

@[simp] theorem symbolsAll_eq (ts : List Term) : symbolsAll ts = ts.flatMap symbols := by
  induction ts with
  | nil => rfl
  | cons t ts ih => rw [symbolsAll, ih, List.flatMap_cons]

/-- No name in the term contains a mark. -/
def IsPlain (t : Term) : Prop := ∀ s ∈ t.symbols, s.IsPlain

instance (t : Term) : Decidable t.IsPlain :=
  inferInstanceAs (Decidable (∀ s ∈ t.symbols, s.IsPlain))

variable {s t : Term} {ss ts : List Term} {r r' : List Char}

theorem isPlain_app {f : Symbol} {args : List Term} :
    (app f args).IsPlain ↔ f.IsPlain ∧ ∀ t ∈ args, t.IsPlain := by
  simp only [IsPlain, symbols, symbolsAll_eq, List.forall_mem_cons, List.mem_flatMap,
    forall_exists_index, and_imp]
  exact and_congr_right fun _ => ⟨fun h t ht s hs => h s t ht hs, fun h s t ht hs => h t ht s hs⟩

theorem IsPlain.symbol (h : t.IsPlain) : t.symbol.IsPlain := by
  cases t with
  | var v => exact h v.symbol List.mem_cons_self
  | const c => exact h c List.mem_cons_self
  | app f args => exact h f List.mem_cons_self

/-! ## The text of a term -/

/-- The constant of the same name as a variable. -/
def constant (v : Variable) : Term := .const v.symbol

theorem toList_displayAll (ts : List Term) :
    (displayAll ts).toList = (ts.flatMap fun t => ',' :: t.display.toList).tail := by
  induction ts with
  | nil => rfl
  | cons t ts ih =>
    cases ts with
    | nil => simp [displayAll]
    | cons u ts => simp [displayAll, ih]

/-- What comes after the name in the text of a term. -/
def displayArgs : Term → List Char
  | .app _ args => '(' :: ((displayAll args).toList ++ [')'])
  | _ => []

theorem toList_display (t : Term) : t.display.toList = t.symbol.name.toList ++ t.displayArgs := by
  cases t with
  | var v => exact (List.append_nil _).symm
  | const c => exact (List.append_nil _).symm
  | app f args => simp [display, symbol, displayArgs]

/-- What keeps the text of every argument keeps the text of all. -/
theorem displayAll_map {change : Term → Term} (h : ∀ t ∈ ts, (change t).display = t.display) :
    displayAll (ts.map change) = displayAll ts := by
  have hitems : (ts.map change).flatMap (fun t => ',' :: t.display.toList) =
      ts.flatMap fun t => ',' :: t.display.toList := by
    rw [List.flatMap_map]
    exact List.flatMap_congr fun t ht => by rw [h t ht]
  rw [← String.toList_inj, toList_displayAll, toList_displayAll, hitems]

/-- The text of a variable is that of the constant of the same name. -/
theorem display_subst_constant (t : Term) : (t.subst constant).display = t.display := by
  induction t with
  | var v => rfl
  | const c => rfl
  | app f args ih => rw [subst_app, display, display, displayAll_map ih]

/-- The text of a term begins with a name. -/
theorem IsPlain.exists_toList_display (h : t.IsPlain) :
    ∃ c l, t.display.toList = c :: l ∧ c ∉ marks := by
  rw [toList_display]
  cases hname : t.symbol.name.toList with
  | nil =>
    have hempty : t.symbol.name = "" := String.toList_inj.1 (hname.trans String.toList_empty.symm)
    exact absurd hempty t.symbol.name_ne_empty
  | cons c l => exact ⟨c, l ++ t.displayArgs, rfl, h.symbol c (hname ▸ List.mem_cons_self)⟩

/-- Nothing but an empty list of arguments has the closing parenthesis first. -/
theorem eq_nil_of_displayAll_append (hts : ∀ t ∈ ts, t.IsPlain)
    (h : (displayAll ts).toList ++ ')' :: r = ')' :: r') : ts = [] := by
  cases ts with
  | nil => rfl
  | cons t ts =>
    obtain ⟨c, l, htext, hc⟩ := (hts t List.mem_cons_self).exists_toList_display
    rw [toList_displayAll, List.flatMap_cons, List.cons_append, List.tail_cons, htext] at h
    have hclose : c = ')' := (List.cons.inj h).1
    exact absurd (hclose ▸ by decide) hc

theorem displayAll_append_inj (hss : ∀ s ∈ ss, s.IsPlain) (hts : ∀ t ∈ ts, t.IsPlain)
    (hinj : ∀ s ∈ ss, ∀ t ∈ ts, ∀ r r', Stops r → Stops r' →
      s.display.toList ++ r = t.display.toList ++ r' →
        s.subst constant = t.subst constant ∧ r = r')
    (h : (displayAll ss).toList ++ ')' :: r = (displayAll ts).toList ++ ')' :: r') :
    ss.map (subst constant) = ts.map (subst constant) ∧ r = r' := by
  cases ss with
  | nil =>
    obtain rfl := eq_nil_of_displayAll_append hts h.symm
    exact ⟨rfl, (List.cons.inj h).2⟩
  | cons s ss =>
    cases ts with
    | nil => exact absurd (eq_nil_of_displayAll_append hss h) (List.cons_ne_nil s ss)
    | cons t ts =>
      -- With a comma in front of the first argument too, all arguments are items alike.
      have hitems : (s :: ss).flatMap (fun u => ',' :: u.display.toList) ++ ')' :: r =
          (t :: ts).flatMap (fun u => ',' :: u.display.toList) ++ ')' :: r' := by
        rw [toList_displayAll, toList_displayAll] at h
        exact congrArg (',' :: ·) h
      exact items_append_inj (by decide) (by decide) hinj hitems

/-- What comes after a name begins with a mark. -/
theorem head_displayArgs_append (t : Term) (hr : Stops r) :
    ∀ c ∈ (t.displayArgs ++ r).head?, c ∈ marks := by
  cases t with
  | var v => exact hr.marks
  | const c => exact hr.marks
  | app f args =>
    rintro _ ⟨⟩
    exact List.mem_cons_self

theorem IsPlain.symbol_append_inj (hs : s.IsPlain) (ht : t.IsPlain) (hr : Stops r)
    (hr' : Stops r') (h : s.display.toList ++ r = t.display.toList ++ r') :
    s.symbol = t.symbol ∧ s.displayArgs ++ r = t.displayArgs ++ r' := by
  rw [toList_display, toList_display, List.append_assoc, List.append_assoc] at h
  obtain ⟨hname, hrest⟩ := unmarked_append_inj hs.symbol ht.symbol
    (s.head_displayArgs_append hr) (t.head_displayArgs_append hr') h
  exact ⟨Symbol.ext_name (String.toList_inj.1 hname), hrest⟩

/-- A name that no arguments come after is that of a variable or a constant. -/
theorem subst_constant_of_stops (hr : Stops r) (h : r = t.displayArgs ++ r') :
    t.subst constant = .const t.symbol ∧ r = r' := by
  cases t with
  | var v => exact ⟨rfl, h⟩
  | const c => exact ⟨rfl, h⟩
  | app f args =>
    have hopen : '(' ∈ stops := hr '(' (h ▸ rfl)
    exact absurd hopen (by decide)

/-- A term can be told from what comes after it, but for the kind of a name alone. -/
theorem display_append_inj (hs : s.IsPlain) (ht : t.IsPlain) (hr : Stops r) (hr' : Stops r')
    (h : s.display.toList ++ r = t.display.toList ++ r') :
    s.subst constant = t.subst constant ∧ r = r' := by
  induction s generalizing t r r' with
  | var v =>
    obtain ⟨hsymbol, hrest⟩ := hs.symbol_append_inj ht hr hr' h
    obtain ⟨ht', hrest⟩ := subst_constant_of_stops hr hrest
    exact ⟨ht' ▸ congrArg const hsymbol, hrest⟩
  | const c =>
    obtain ⟨hsymbol, hrest⟩ := hs.symbol_append_inj ht hr hr' h
    obtain ⟨ht', hrest⟩ := subst_constant_of_stops hr hrest
    exact ⟨ht' ▸ congrArg const hsymbol, hrest⟩
  | app f ss ih =>
    obtain ⟨hsymbol, hrest⟩ := hs.symbol_append_inj ht hr hr' h
    cases t with
    | var w => cases (subst_constant_of_stops hr' hrest.symm).1
    | const d => cases (subst_constant_of_stops hr' hrest.symm).1
    | app g ts =>
      obtain rfl : f = g := hsymbol
      have hss := (isPlain_app.1 hs).2
      have hts := (isPlain_app.1 ht).2
      simp only [displayArgs, List.cons_append, List.append_assoc, List.nil_append,
        List.cons.injEq, true_and] at hrest
      obtain ⟨hargs, hrest⟩ := displayAll_append_inj hss hts
        (fun s hs t ht r r' hr hr' => ih s hs (hss s hs) (hts t ht) hr hr') hrest
      exact ⟨by rw [subst_app, subst_app, hargs], hrest⟩

theorem display_eq_iff (hs : s.IsPlain) (ht : t.IsPlain) :
    s.display = t.display ↔ s.subst constant = t.subst constant := by
  constructor
  · intro h
    exact (display_append_inj hs ht stops_nil stops_nil (congrArg (·.toList ++ []) h)).1
  · intro h
    rw [← display_subst_constant s, h, display_subst_constant]

theorem map_display_of_map_subst (h : ss.map (subst constant) = ts.map (subst constant)) :
    ss.map display = ts.map display := by
  have hdisplay := congrArg (List.map display) h
  simpa only [List.map_map, Function.comp_def, display_subst_constant] using hdisplay

/-- An application is told from all terms of other kinds, and each argument is recovered. -/
theorem exists_args_of_display_eq {f : Symbol} (hs : (app f ss).IsPlain) (ht : t.IsPlain)
    (h : (app f ss).display = t.display) :
    ∃ ts, t = app f ts ∧ ss.map display = ts.map display := by
  rw [display_eq_iff hs ht, subst_app] at h
  cases t with
  | var v => cases h
  | const c => cases h
  | app g ts =>
    rw [subst_app] at h
    obtain ⟨rfl, hargs⟩ := app.inj h
    exact ⟨ts, rfl, map_display_of_map_subst hargs⟩

end Term

namespace Formula

mutual
/-- The symbols of a formula, from left to right. -/
def symbols : Formula → List Symbol
  | .predicate p args _ => p :: args.flatMap Term.symbols
  | .operator _ operands _ => symbolsAll operands

def symbolsAll : List Formula → List Symbol
  | [] => []
  | f :: fs => symbols f ++ symbolsAll fs
end

@[simp] theorem symbolsAll_eq (fs : List Formula) : symbolsAll fs = fs.flatMap symbols := by
  induction fs with
  | nil => rfl
  | cons f fs ih => rw [symbolsAll, ih, List.flatMap_cons]

/-- No name in the formula contains a mark.  The names of the connectives never do. -/
def IsPlain (f : Formula) : Prop := ∀ s ∈ f.symbols, s.IsPlain

instance (f : Formula) : Decidable f.IsPlain :=
  inferInstanceAs (Decidable (∀ s ∈ f.symbols, s.IsPlain))

variable {f g : Formula} {fs gs : List Formula} {r r' : List Char}

theorem isPlain_operator {k : Connective} {v : TruthValue} :
    (operator k fs v).IsPlain ↔ ∀ f ∈ fs, f.IsPlain := by
  simp only [IsPlain, symbols, symbolsAll_eq, List.mem_flatMap, forall_exists_index, and_imp]
  exact ⟨fun h f hf s hs => h s f hf hs, fun h s f hf hs => h f hf s hs⟩

/-! ## The text of a formula -/

/-- The term that is written like a predicate. -/
def asTerm (p : Symbol) : List Term → Term
  | [] => .const p
  | t :: ts => .app p (t :: ts)

theorem display_predicate (p : Symbol) (args : List Term) (v : TruthValue) :
    (predicate p args v).display = (asTerm p args).display := by
  cases args <;> rfl

theorem subst_asTerm (θ : Variable → Term) (p : Symbol) (args : List Term) :
    (asTerm p args).subst θ = asTerm p (args.map (Term.subst θ)) := by
  cases args with
  | nil => rfl
  | cons t ts => exact Term.subst_app θ p (t :: ts)

theorem asTerm_inj {p q : Symbol} {ss ts : List Term} (h : asTerm p ss = asTerm q ts) :
    p = q ∧ ss = ts := by
  cases ss with
  | nil =>
    cases ts with
    | nil => exact ⟨Term.const.inj h, rfl⟩
    | cons t ts => cases h
  | cons s ss =>
    cases ts with
    | nil => cases h
    | cons t ts => exact Term.app.inj h

theorem isPlain_asTerm {p : Symbol} {args : List Term} {v : TruthValue}
    (h : (predicate p args v).IsPlain) : (asTerm p args).IsPlain := by
  cases args with
  | nil => exact h
  | cons t ts =>
    rw [IsPlain, symbols, ← Term.symbolsAll_eq] at h
    exact h

theorem toList_displayAll (fs : List Formula) :
    (displayAll fs).toList = fs.flatMap fun f => ' ' :: f.display.toList := by
  induction fs with
  | nil => rfl
  | cons f fs ih => simp [displayAll, ih]

theorem toList_display_operator (k : Connective) (fs : List Formula) (v : TruthValue) :
    (operator k fs v).display.toList =
      '(' :: (k.name.toList ++ ((displayAll fs).toList ++ [')'])) := by
  simp [display]

theorem display_subst_constant (f : Formula) : (f.subst Term.constant).display = f.display := by
  induction f with
  | predicate p args v =>
    rw [subst_predicate, display_predicate, display_predicate, ← subst_asTerm,
      Term.display_subst_constant]
  | operator k fs v ih =>
    rw [subst_operator, connect, display_operator, display_operator, displayAll_map ih]

theorem display_predicate_append_ne {p : Symbol} {args : List Term} {v w : TruthValue}
    (h : (predicate p args v).IsPlain) (k : Connective) :
    (predicate p args v).display.toList ++ r ≠ (operator k fs w).display.toList ++ r' := by
  intro heq
  obtain ⟨c, l, htext, hc⟩ := (isPlain_asTerm h).exists_toList_display
  rw [display_predicate, htext, toList_display_operator] at heq
  have hopen : c = '(' := (List.cons.inj heq).1
  exact absurd (hopen ▸ List.mem_cons_self) hc

/-- A formula can be told from what comes after it, but for its truth values and the kind of
a name alone. -/
theorem display_append_inj (hf : f.IsPlain) (hg : g.IsPlain) (hr : Stops r) (hr' : Stops r')
    (h : f.display.toList ++ r = g.display.toList ++ r') :
    (f.subst Term.constant).forget = (g.subst Term.constant).forget ∧ r = r' := by
  induction f generalizing g r r' with
  | predicate p ss v =>
    cases g with
    | predicate q ts w =>
      rw [display_predicate, display_predicate] at h
      obtain ⟨hterm, hrest⟩ :=
        Term.display_append_inj (isPlain_asTerm hf) (isPlain_asTerm hg) hr hr' h
      rw [subst_asTerm, subst_asTerm] at hterm
      obtain ⟨rfl, hargs⟩ := asTerm_inj hterm
      exact ⟨by rw [subst_predicate, subst_predicate, hargs, forget, forget], hrest⟩
    | operator l gs w => exact absurd h (display_predicate_append_ne hf l)
  | operator k fs v ih =>
    cases g with
    | predicate q ts w => exact absurd h.symm (display_predicate_append_ne hg k)
    | operator l gs w =>
      rw [isPlain_operator] at hf hg
      simp only [toList_display_operator, toList_displayAll, List.cons_append, List.append_assoc,
        List.nil_append, List.cons.injEq, true_and] at h
      obtain ⟨hname, hrest⟩ := unmarked_append_inj k.unmarked_name l.unmarked_name
        (stops_items (by decide) fs r).marks (stops_items (by decide) gs r').marks h
      obtain rfl : k = l := Connective.name_injective (String.toList_inj.1 hname)
      obtain ⟨hoperands, hrest⟩ := items_append_inj (by decide) (by decide)
        (fun f hfs g hgs r r' hr hr' => ih f hfs (hf f hfs) (hg g hgs) hr hr') hrest
      refine ⟨?_, hrest⟩
      rw [subst_operator, subst_operator, ← equiv_iff, connect, connect, operator_equiv_operator,
        List.map_map, List.map_map]
      exact ⟨rfl, hoperands⟩

theorem display_eq_iff (hf : f.IsPlain) (hg : g.IsPlain) :
    f.display = g.display ↔ f.subst Term.constant ≈ g.subst Term.constant := by
  rw [equiv_iff]
  constructor
  · intro h
    exact (display_append_inj hf hg stops_nil stops_nil (congrArg (·.toList ++ []) h)).1
  · intro h
    rw [← display_subst_constant f, ← display_forget, h, display_forget, display_subst_constant]

/-- A predicate is told from all operators, and each argument is recovered. -/
theorem exists_args_of_display_eq {p : Symbol} {ss : List Term} {v : TruthValue}
    (hf : (predicate p ss v).IsPlain) (hg : g.IsPlain)
    (h : (predicate p ss v).display = g.display) :
    ∃ ts w, g = predicate p ts w ∧ ss.map Term.display = ts.map Term.display := by
  rw [display_eq_iff hf hg, subst_predicate] at h
  cases g with
  | predicate q ts w =>
    rw [subst_predicate, predicate_equiv_predicate] at h
    obtain ⟨rfl, hargs⟩ := h
    exact ⟨ts, w, rfl, Term.map_display_of_map_subst hargs⟩
  | operator l gs w =>
    rw [subst_operator] at h
    cases h

/-- An operator is told from all predicates and other operators, and each operand is
recovered. -/
theorem exists_operands_of_display_eq {k : Connective} {v : TruthValue}
    (hf : (operator k fs v).IsPlain) (hg : g.IsPlain)
    (h : (operator k fs v).display = g.display) :
    ∃ gs w, g = operator k gs w ∧ fs.map display = gs.map display := by
  rw [display_eq_iff hf hg, subst_operator] at h
  cases g with
  | predicate q ts w => cases h
  | operator l gs w =>
    rw [subst_operator, connect, connect, operator_equiv_operator] at h
    obtain ⟨rfl, hoperands⟩ := h
    have hdisplay := congrArg (List.map display) hoperands
    simp only [List.map_map, Function.comp_def, display_forget, display_subst_constant] at hdisplay
    exact ⟨gs, w, rfl, hdisplay⟩

end Formula

namespace Display

open Formula

/-- As long as no name contains a mark, terms have one text exactly where they are equal but
for variables and constants of one name, and formulas exactly where they are equal but for
these and for truth values.  So the kind of what is written, its name, and where each
argument or operand begins and ends can be read off the text. -/
theorem uniquely_readable :
    (∀ s t : Term, s.IsPlain → t.IsPlain →
      (s.display = t.display ↔ s.subst Term.constant = t.subst Term.constant)) ∧
    (∀ f g : Formula, f.IsPlain → g.IsPlain →
      (f.display = g.display ↔ f.subst Term.constant ≈ g.subst Term.constant)) ∧
    (∀ f ss (t : Term), (Term.app f ss).IsPlain → t.IsPlain →
      (Term.app f ss).display = t.display →
        ∃ ts, t = .app f ts ∧ ss.map Term.display = ts.map Term.display) ∧
    (∀ p ss v (g : Formula), (predicate p ss v).IsPlain → g.IsPlain →
      (predicate p ss v).display = g.display →
        ∃ ts w, g = predicate p ts w ∧ ss.map Term.display = ts.map Term.display) ∧
    ∀ k fs v (g : Formula), (operator k fs v).IsPlain → g.IsPlain →
      (operator k fs v).display = g.display →
        ∃ gs w, g = operator k gs w ∧ fs.map display = gs.map display :=
  ⟨fun _ _ => Term.display_eq_iff, fun _ _ => Formula.display_eq_iff,
    fun _ _ _ => Term.exists_args_of_display_eq, fun _ _ _ _ => Formula.exists_args_of_display_eq,
    fun _ _ _ _ => exists_operands_of_display_eq⟩

/-- The name of a connective on symbols of all kinds, with arguments and without. -/
theorem uniquely_readable_and :
    let n : Symbol := ⟨"and", by decide⟩
    let f (t : Term) (v : TruthValue) : Formula :=
      .and [.predicate n [.app n [], t] v, .predicate n [] v, .and []]
    (f (.var ⟨n⟩) .true).IsPlain ∧ (f (.const n) .false).IsPlain ∧ (f (.app n []) .false).IsPlain ∧
      (f (.var ⟨n⟩) .true).display = "(and and(and(),and) and (and))" ∧
      (f (.var ⟨n⟩) .true).display = (f (.const n) .false).display ∧
      (f (.var ⟨n⟩) .true).display ≠ (f (.app n []) .false).display ∧
      (Term.app n []).display ≠ (Term.const n).display ∧
      (predicate n [] .true).display ≠ (Formula.and []).display := by
  intro n f
  have hvar : (f (.var ⟨n⟩) .true).IsPlain := by decide
  have hconst : (f (.const n) .false).IsPlain := by decide
  have happ : (f (.app n []) .false).IsPlain := by decide
  obtain ⟨-, hformulas, happs, hpredicates, -⟩ := uniquely_readable
  refine ⟨hvar, hconst, happ, rfl, (hformulas _ _ hvar hconst).2 rfl, fun h => ?_, fun h => ?_,
    fun h => ?_⟩
  · have hequiv := (hformulas _ _ hvar happ).1 h
    rw [equiv_iff] at hequiv
    exact absurd hequiv (by decide)
  · obtain ⟨ts, hconst, -⟩ := happs n [] (.const n) (by decide) (by decide) h
    cases hconst
  · obtain ⟨ts, w, hand, -⟩ := hpredicates n [] .true (.and []) (by decide) (by decide) h
    cases hand

/-- A comma in a name is not told from one between arguments. -/
example : (Term.app Sample.f [.const ⟨"a,b", by decide⟩]).display =
    (Term.app Sample.f [.const Sample.a, .const ⟨"b", by decide⟩]).display := rfl

end Display
end Unification
