import Unification.Json.Quoted

/-!
# Tokens of a JSON text

`Token.fold` works through a text token by token.  Blanks between tokens are
skipped, and where no token starts the work ends with the token `invalid`.
-/

namespace Unification
namespace Json

inductive Token where
  | openArray
  | closeArray
  | openObject
  | closeObject
  | comma
  | colon
  | null
  | bool (b : Bool)
  | number (lexeme : String)
  | string (text? : Option String)
  | invalid
  deriving DecidableEq

namespace Number

/-- The digits that a text starts with, and the rest of it. -/
def digits (cs : List Char) : List Char × List Char :=
  (cs.takeWhile Char.isDigit, cs.dropWhile Char.isDigit)

/-- The sign that a text starts with, if it is one of these, and the rest. -/
def sign (signs : List Char) : List Char → List Char × List Char
  | c :: cs => if c ∈ signs then ([c], cs) else ([], c :: cs)
  | [] => ([], [])

/-- An optional minus sign and digits without a superfluous zero in front. -/
def integer? (cs : List Char) : Option (List Char × List Char) :=
  match digits (sign ['-'] cs).2 with
  | ([], _) => none
  | ('0' :: _ :: _, _) => none
  | (ds, rest) => some ((sign ['-'] cs).1 ++ ds, rest)

/-- An optional point with digits after it. -/
def fraction? : List Char → Option (List Char × List Char)
  | '.' :: cs =>
    match digits cs with
    | ([], _) => none
    | (ds, rest) => some ('.' :: ds, rest)
  | cs => some ([], cs)

/-- An optional exponent. -/
def exponent? : List Char → Option (List Char × List Char)
  | e :: cs =>
    if e = 'e' || e = 'E' then
      match digits (sign ['+', '-'] cs).2 with
      | ([], _) => none
      | (ds, rest) => some (e :: (sign ['+', '-'] cs).1 ++ ds, rest)
    else some ([], e :: cs)
  | [] => some ([], [])

/-- The number that a text starts with, as it is written, and the rest. -/
def scan? (cs : List Char) : Option (String × List Char) := do
  let (int, cs) ← integer? cs
  let (frac, cs) ← fraction? cs
  let (exp, cs) ← exponent? cs
  return (String.ofList (int ++ frac ++ exp), cs)

/-! Nothing is lost: what is read and the rest make up the text. -/

theorem append_digits {cs ds rest : List Char} (h : digits cs = (ds, rest)) : ds ++ rest = cs := by
  cases h
  exact List.takeWhile_append_dropWhile

theorem append_sign (signs cs : List Char) : (sign signs cs).1 ++ (sign signs cs).2 = cs := by
  unfold sign
  split
  · split <;> rfl
  · rfl

theorem append_integer? {cs int rest : List Char} (h : integer? cs = some (int, rest)) :
    int ++ rest = cs ∧ int ≠ [] := by
  unfold integer? at h
  split at h
  · cases h
  · cases h
  · next hne _ hds =>
    cases h
    rw [List.append_assoc, append_digits hds, append_sign]
    exact ⟨rfl, fun e => hne (List.append_eq_nil_iff.1 e).2⟩

theorem append_fraction? {cs frac rest : List Char} (h : fraction? cs = some (frac, rest)) :
    frac ++ rest = cs := by
  unfold fraction? at h
  split at h
  · split at h
    · cases h
    · next hds => cases h; rw [List.cons_append, append_digits hds]
  · cases h; rfl

theorem append_exponent? {cs exp rest : List Char} (h : exponent? cs = some (exp, rest)) :
    exp ++ rest = cs := by
  unfold exponent? at h
  split at h
  · split at h
    · split at h
      · cases h
      · next hds =>
        cases h
        rw [List.append_assoc, append_digits hds, List.cons_append, append_sign]
    · cases h; rfl
  · cases h; rfl

theorem append_scan? {cs rest : List Char} {lexeme : String} (h : scan? cs = some (lexeme, rest)) :
    lexeme.toList ++ rest = cs ∧ lexeme ≠ "" := by
  simp only [scan?, Option.bind_eq_bind, Option.bind_eq_some_iff, Prod.exists] at h
  obtain ⟨int, cs₁, h₁, frac, cs₂, h₂, exp, cs₃, h₃, h⟩ := h
  cases h
  obtain ⟨h₁, hint⟩ := append_integer? h₁
  rw [← h₁, ← append_fraction? h₂, ← append_exponent? h₃]
  simp [hint]

end Number

namespace Token

def isBlank (c : Char) : Bool := c = ' ' || c = '\t' || c = '\n' || c = '\r'

/-- The token that starts with this character, and the rest of the text. -/
def next? (c : Char) (cs : List Char) : Option (Token × List Char) :=
  match c with
  | '[' => some (openArray, cs)
  | ']' => some (closeArray, cs)
  | '{' => some (openObject, cs)
  | '}' => some (closeObject, cs)
  | ',' => some (comma, cs)
  | ':' => some (colon, cs)
  | '"' => (Quoted.scan [] true none cs).map fun (text?, rest) => (string text?, rest)
  | 'n' => ("ull".toList.isPrefixOf? cs).map (null, ·)
  | 't' => ("rue".toList.isPrefixOf? cs).map (bool true, ·)
  | 'f' => ("alse".toList.isPrefixOf? cs).map (bool false, ·)
  | c => (Number.scan? (c :: cs)).map fun (lexeme, rest) => (number lexeme, rest)

theorem length_isPrefixOf?_le {l cs rest : List Char} (h : l.isPrefixOf? cs = some rest) :
    rest.length ≤ cs.length := by
  induction l generalizing cs with
  | nil => cases h; exact Nat.le_refl _
  | cons a l ih =>
    cases cs with
    | nil => cases h
    | cons b cs =>
      change (if a == b then l.isPrefixOf? cs else none) = some rest at h
      split at h
      · exact Nat.le_succ_of_le (ih h)
      · cases h

theorem length_next?_le {c : Char} {cs rest : List Char} {t : Token}
    (h : next? c cs = some (t, rest)) : rest.length ≤ cs.length := by
  have word {l : List Char} {t' : Token} (h : (l.isPrefixOf? cs).map (t', ·) = some (t, rest)) :
      rest.length ≤ cs.length := by
    obtain ⟨r, hr, h⟩ := Option.map_eq_some_iff.1 h
    cases h
    exact length_isPrefixOf?_le hr
  unfold next? at h
  split at h
  case h_7 =>
    obtain ⟨⟨text?, r⟩, hr, h⟩ := Option.map_eq_some_iff.1 h
    cases h
    exact Quoted.length_scan_le hr
  case h_8 => exact word h
  case h_9 => exact word h
  case h_10 => exact word h
  case h_11 =>
    obtain ⟨⟨lexeme, r⟩, hr, h⟩ := Option.map_eq_some_iff.1 h
    cases h
    obtain ⟨happend, hne⟩ := Number.append_scan? hr
    have hpos : lexeme.toList ≠ [] := fun e => hne (String.toList_inj.1 (e.trans String.toList_empty.symm))
    have := congrArg List.length happend
    have := List.length_pos_iff.2 hpos
    simp only [List.length_append, List.length_cons] at *
    omega
  all_goals cases h; exact Nat.le_refl _

/-- Works through a text token by token, up to the first place where none
starts. -/
def fold {α : Type} (step : α → Token → α) (a : α) (text : List Char) : α :=
  match text with
  | [] => a
  | c :: cs =>
    if isBlank c then fold step a cs
    else
      match _next : next? c cs with
      | some (t, rest) => fold step (step a t) rest
      | none => step a .invalid
termination_by text.length
decreasing_by
  · simp
  · exact Nat.lt_succ_of_le (length_next?_le _next)

end Token
end Json
end Unification
