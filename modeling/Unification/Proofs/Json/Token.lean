import Unification.Json.Text

/-!
# Tokens read back

A string is read back from its text whatever follows (`Quoted.scan_flatMap_escape`).  A
number is only if no more of it can follow, so the tokens of a text have to be `Spaced`:
after a number the text ends, or a comma or a closing bracket stands.  Then the tokens
that were written are the tokens that are read (`Token.fold_spell`).
-/

namespace Unification
namespace Json

/-! ## Strings -/

namespace Quoted

theorem hexValue?_hexDigit {n : Nat} (h : n < 16) : hexValue? (hexDigit n) = some n := by
  revert n
  decide

theorem unit?_control {c : Char} (h : c.toNat < 0x20) :
    unit? '0' '0' (hexDigit (c.toNat / 16)) (hexDigit (c.toNat % 16)) = some c.toNat := by
  have hzero : hexValue? '0' = some 0 := by decide
  have hhigh : hexValue? (hexDigit (c.toNat / 16)) = some (c.toNat / 16) :=
    hexValue?_hexDigit (by omega)
  have hlow : hexValue? (hexDigit (c.toNat % 16)) = some (c.toNat % 16) :=
    hexValue?_hexDigit (by omega)
  simp only [unit?, hzero, hhigh, hlow, Option.bind_eq_bind, Option.bind_some, Option.pure_def]
  congr 1
  omega

/-- The text of a character is read as that character. -/
theorem scan_escape (before : List Char) (c : Char) (rest : List Char) :
    scan before true none (escape c ++ rest) = scan (c :: before) true none rest := by
  unfold escape
  split
  · next h => subst h; rfl
  split
  · next h => subst h; rfl
  split
  · next h => subst h; rfl
  split
  · next h => subst h; rfl
  split
  · next h => subst h; rfl
  split
  · next h => subst h; rfl
  split
  · next h => subst h; rfl
  split
  · next h =>
    have hunit := unit?_control h
    have htrailing : isTrailing c.toNat = false := by simp [isTrailing]; omega
    have hleading : isLeading c.toNat = false := by simp [isLeading]; omega
    change scan before true none ('\\' :: 'u' :: '0' :: '0' :: _ :: _ :: rest) = _
    rw [scan, hunit]
    simp [htrailing, hleading]
  · next hquote hbackslash _ _ _ _ _ hcontrol =>
    rw [List.singleton_append, scan]
    · simp [hbackslash, hcontrol]
    · exact hquote
    · exact fun _ _ _ _ _ h _ => hbackslash h
    · exact fun _ _ h _ => hbackslash h

theorem scan_flatMap_escape (before cs rest : List Char) :
    scan before true none (cs.flatMap escape ++ '"' :: rest) =
      some (some (String.ofList (before.reverse ++ cs)), rest) := by
  induction cs generalizing before with
  | nil => simp [scan]
  | cons c cs ih =>
    rw [List.flatMap_cons, List.append_assoc, scan_escape, ih, List.reverse_cons,
      List.append_assoc, List.singleton_append]

theorem toList_encode (s : String) :
    (encode s).toList = '"' :: (s.toList.flatMap escape ++ ['"']) := by
  simp [encode]

end Quoted

/-! ## Numbers -/

namespace Number

variable {cs rest : List Char}

/-- No number goes on with what starts here. -/
def Closes (rest : List Char) : Prop := ∀ c ∈ rest.head?, c = ',' ∨ c = ']' ∨ c = '}'

theorem Closes.not_isDigit {c : Char} (h : Closes (c :: rest)) : c.isDigit = false := by
  obtain rfl | rfl | rfl := h c rfl <;> rfl

theorem digits_append (h : Closes rest) :
    digits (cs ++ rest) = ((digits cs).1, (digits cs).2 ++ rest) := by
  induction cs with
  | nil =>
    cases rest with
    | nil => rfl
    | cons c rest => simp [digits, h.not_isDigit]
  | cons c cs ih =>
    simp only [digits, Prod.mk.injEq] at ih
    cases hc : c.isDigit <;> simp [digits, hc, ih]

theorem sign_append {signs : List Char} (hsigns : ∀ c ∈ signs, c = '+' ∨ c = '-')
    (h : Closes rest) :
    sign signs (cs ++ rest) = ((sign signs cs).1, (sign signs cs).2 ++ rest) := by
  cases cs with
  | nil =>
    cases rest with
    | nil => rfl
    | cons c rest =>
      have hc : c ∉ signs := fun hmem => by
        obtain rfl | rfl := hsigns c hmem <;> exact absurd (h _ rfl) (by decide)
      simp [sign, hc]
  | cons c cs =>
    simp only [sign, List.cons_append]
    split <;> rfl

theorem integer?_append {int r : List Char} (h : Closes rest)
    (hint : integer? cs = some (int, r)) : integer? (cs ++ rest) = some (int, r ++ rest) := by
  unfold integer? at hint ⊢
  rw [sign_append (by simp) h, digits_append h]
  split at hint
  · cases hint
  · cases hint
  · next hne hzero hds =>
    cases hint
    rw [hds]
    split
    · next heq => exact absurd (Prod.mk.inj heq).1 hne
    · next heq => exact absurd (Prod.mk.inj heq).1 (hzero _ _)
    · next heq => cases heq; rfl

theorem fraction?_append {frac r : List Char} (h : Closes rest)
    (hfrac : fraction? cs = some (frac, r)) : fraction? (cs ++ rest) = some (frac, r ++ rest) := by
  unfold fraction? at hfrac
  split at hfrac
  · split at hfrac
    · cases hfrac
    · next ds _ hne hds =>
      cases hfrac
      rw [List.cons_append, fraction?, digits_append h, hds]
      cases ds with
      | nil => exact absurd rfl hne
      | cons d ds => rfl
  · next hpoint =>
    cases hfrac
    rw [fraction?]
    intro tail htail
    cases cs with
    | nil =>
      cases htail
      exact absurd (h '.' rfl) (by decide)
    | cons c cs =>
      cases htail
      exact hpoint _ rfl

theorem exponent?_append {exp r : List Char} (h : Closes rest)
    (hexp : exponent? cs = some (exp, r)) : exponent? (cs ++ rest) = some (exp, r ++ rest) := by
  unfold exponent? at hexp
  split at hexp
  · next e cs =>
    rw [List.cons_append, exponent?]
    split at hexp
    · next he =>
      rw [if_pos he, sign_append (by simp) h, digits_append h]
      split at hexp
      · cases hexp
      · next ds _ hne hds =>
        cases hexp
        rw [hds]
        cases ds with
        | nil => exact absurd rfl hne
        | cons d ds => rfl
    · next he =>
      cases hexp
      rw [if_neg he]
      rfl
  · cases hexp
    cases rest with
    | nil => rfl
    | cons c rest =>
      have he : (c = 'e' || c = 'E') = false := by
        obtain rfl | rfl | rfl := h c rfl <;> rfl
      simp [exponent?, he]

/-- A number is read to the same end if a text follows that no number goes on with. -/
theorem scan?_append {lexeme : String} {r : List Char} (h : Closes rest)
    (hscan : scan? cs = some (lexeme, r)) : scan? (cs ++ rest) = some (lexeme, r ++ rest) := by
  simp only [scan?, Option.bind_eq_bind, Option.bind_eq_some_iff, Prod.exists] at hscan ⊢
  obtain ⟨int, cs₁, hint, frac, cs₂, hfrac, exp, cs₃, hexp, hscan⟩ := hscan
  cases hscan
  exact ⟨_, _, integer?_append h hint, _, _, fraction?_append h hfrac,
    _, _, exponent?_append h hexp, rfl⟩

/-- A number starts with a minus sign or a digit. -/
theorem head_of_scan? {c : Char} {lexeme : String} {r : List Char}
    (hscan : scan? (c :: cs) = some (lexeme, r)) : c = '-' ∨ c.isDigit := by
  simp only [scan?, Option.bind_eq_bind, Option.bind_eq_some_iff, Prod.exists] at hscan
  obtain ⟨int, cs₁, hint, -⟩ := hscan
  refine Decidable.byContradiction fun hc => ?_
  obtain ⟨hsign, hdigit⟩ := not_or.1 hc
  simp [integer?, sign, hsign, digits, hdigit] at hint

end Number

/-! ## Tokens -/

namespace Token

variable {α : Type}

/-- The token has a text of which it alone is read. -/
def IsWritable : Token → Prop
  | .number lexeme => Number.scan? lexeme.toList = some (lexeme, [])
  | .string text? => text?.isSome
  | .invalid => False
  | _ => True

/-- What may follow a number. -/
def Separates (t : Token) : Prop := t = .comma ∨ t = .closeArray ∨ t = .closeObject

/-- The tokens can be written, and none of them runs into the next. -/
def Spaced : List Token → Prop
  | [] => True
  | t :: ts =>
    t.IsWritable ∧ (∀ lexeme, t = .number lexeme → ∀ u ∈ ts.head?, u.Separates) ∧ Spaced ts

/-- The texts of tokens one after the other. -/
def spell (ts : List Token) : List Char := ts.flatMap fun t => t.text.toList

theorem closes_spell {ts : List Token} (h : ∀ t ∈ ts.head?, t.Separates) :
    Number.Closes (spell ts) := by
  cases ts with
  | nil => exact nofun
  | cons t ts =>
    rintro c hc
    obtain rfl | rfl | rfl := h t rfl <;> cases hc <;> decide

theorem next?_eq_of_head {c : Char} (h : c = '-' ∨ c.isDigit) (cs : List Char) :
    next? c cs = (Number.scan? (c :: cs)).map fun (lexeme, rest) => (number lexeme, rest) := by
  rw [next?] <;> rintro rfl <;> exact absurd h (by decide)

theorem isBlank_of_head {c : Char} (h : c = '-' ∨ c.isDigit) : isBlank c = false := by
  cases hc : isBlank c with
  | false => rfl
  | true =>
    simp only [isBlank, Bool.or_eq_true, decide_eq_true_eq] at hc
    obtain ((rfl | rfl) | rfl) | rfl := hc <;> exact absurd h (by decide)

theorem fold_cons {step : α → Token → α} {a : α} {c : Char} {cs rest : List Char} {t : Token}
    (hc : isBlank c = false) (hnext : next? c cs = some (t, rest)) :
    fold step a (c :: cs) = fold step (step a t) rest := by
  rw [fold, hc, if_neg Bool.false_ne_true]
  split
  · next h =>
    cases hnext.symm.trans h
    rfl
  · next h => cases hnext.symm.trans h

/-- A token that was written is read. -/
theorem fold_text {step : α → Token → α} {a : α} {t : Token} {rest : List Char}
    (ht : t.IsWritable) (hrest : ∀ lexeme, t = .number lexeme → Number.Closes rest) :
    fold step a (t.text.toList ++ rest) = fold step (step a t) rest := by
  cases t with
  | openArray => exact fold_cons rfl rfl
  | closeArray => exact fold_cons rfl rfl
  | openObject => exact fold_cons rfl rfl
  | closeObject => exact fold_cons rfl rfl
  | comma => exact fold_cons rfl rfl
  | colon => exact fold_cons rfl rfl
  | null => exact fold_cons rfl rfl
  | bool b => cases b <;> exact fold_cons rfl rfl
  | number lexeme =>
    obtain ⟨-, hne⟩ := Number.append_scan? ht
    change fold step a (lexeme.toList ++ rest) = _
    change Number.scan? lexeme.toList = _ at ht
    cases hcs : lexeme.toList with
    | nil => exact absurd (String.toList_inj.1 (hcs.trans String.toList_empty.symm)) hne
    | cons c cs =>
      rw [hcs] at ht
      have hhead := Number.head_of_scan? ht
      refine fold_cons (isBlank_of_head hhead) ?_
      have hscan : Number.scan? (c :: (cs ++ rest)) = some (lexeme, rest) :=
        Number.scan?_append (hrest lexeme rfl) ht
      rw [List.append_eq, next?_eq_of_head hhead, hscan]
      rfl
  | string text? =>
    obtain ⟨s, rfl⟩ := Option.isSome_iff_exists.1 ht
    change fold step a ((Quoted.encode s).toList ++ rest) = _
    rw [Quoted.toList_encode, List.cons_append, List.append_assoc, List.singleton_append]
    refine fold_cons rfl ?_
    change (Quoted.scan [] true none _).map _ = _
    rw [Quoted.scan_flatMap_escape]
    simp
  | invalid => exact ht.elim

/-- The tokens that were written are the tokens that are read. -/
theorem fold_spell {step : α → Token → α} {a : α} {ts : List Token} (h : Spaced ts) :
    fold step a (spell ts) = ts.foldl step a := by
  induction ts generalizing a with
  | nil => rw [spell, List.flatMap_nil, fold]; rfl
  | cons t ts ih =>
    obtain ⟨ht, hnumber, hts⟩ := h
    rw [spell, List.flatMap_cons, List.foldl_cons, ← ih hts]
    exact fold_text ht fun lexeme h => closes_spell (hnumber lexeme h)

/-- What every token keeps is kept by a whole text. -/
theorem fold_keeps {step : α → Token → α} {P : α → Prop} (hstep : ∀ a t, P a → P (step a t))
    {a : α} (ha : P a) (text : List Char) : P (fold step a text) := by
  fun_induction fold step a text with
  | case1 => exact ha
  | case2 a c cs hc ih => exact ih ha
  | case3 a c cs hc t rest hnext ih => exact ih (hstep a t ha)
  | case4 a c cs hc hnext => exact hstep a .invalid ha

end Token
end Json
end Unification
