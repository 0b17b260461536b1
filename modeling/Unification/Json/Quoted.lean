/-!
# JSON strings

`encode` writes a text between quotes, with the quote, the backslash and the
characters below U+0020 escaped.  `scan` reads a string from after its opening
quote; it takes every escape that JSON has.
-/

namespace Unification
namespace Json
namespace Quoted

/-- The lower-case hexadecimal digit of a number below 16. -/
def hexDigit (n : Nat) : Char := (Nat.digitChar n)

/-- How a character is written inside a string. -/
def escape (c : Char) : List Char :=
  if c = '"' then ['\\', '"']
  else if c = '\\' then ['\\', '\\']
  else if c = '\x08' then ['\\', 'b']
  else if c = '\t' then ['\\', 't']
  else if c = '\n' then ['\\', 'n']
  else if c = '\x0c' then ['\\', 'f']
  else if c = '\r' then ['\\', 'r']
  else if c.toNat < 0x20 then
    ['\\', 'u', '0', '0', hexDigit (c.toNat / 16), hexDigit (c.toNat % 16)]
  else [c]

def encode (s : String) : String := "\"" ++ String.ofList (s.toList.flatMap escape) ++ "\""

/-- The character that a backslash before this one stands for. -/
def unescape? : Char → Option Char
  | '"' => some '"'
  | '\\' => some '\\'
  | '/' => some '/'
  | 'b' => some '\x08'
  | 'f' => some '\x0c'
  | 'n' => some '\n'
  | 'r' => some '\r'
  | 't' => some '\t'
  | _ => none

def hexValue? (c : Char) : Option Nat :=
  if '0' ≤ c ∧ c ≤ '9' then some (c.toNat - '0'.toNat)
  else if 'a' ≤ c ∧ c ≤ 'f' then some (c.toNat - 'a'.toNat + 10)
  else if 'A' ≤ c ∧ c ≤ 'F' then some (c.toNat - 'A'.toNat + 10)
  else none

/-- The number that four hexadecimal digits write. -/
def unit? (a b c d : Char) : Option Nat := do
  let a ← hexValue? a
  let b ← hexValue? b
  let c ← hexValue? c
  let d ← hexValue? d
  return ((a * 16 + b) * 16 + c) * 16 + d

def isLeading (unit : Nat) : Bool := 0xD800 ≤ unit && unit ≤ 0xDBFF

def isTrailing (unit : Nat) : Bool := 0xDC00 ≤ unit && unit ≤ 0xDFFF

/-- The character of a surrogate pair. -/
def ofPair (leading trailing : Nat) : Char :=
  Char.ofNat (0x10000 + (leading - 0xD800) * 0x400 + (trailing - 0xDC00))

/-- Reads a string from after its opening quote, together with what follows the
closing one.  The answer has no text if the escapes name half a surrogate pair,
and there is no answer if the string is not well written.

`before` holds the characters read so far, the last one first, `valid` is false
once half a pair has stood alone, and `half` is a leading half that was just read. -/
def scan (before : List Char) (valid : Bool) (half : Option Nat) :
    List Char → Option (Option String × List Char)
  | [] => none
  | '"' :: rest =>
    some (if valid && half.isNone then some (String.ofList before.reverse) else none, rest)
  | '\\' :: 'u' :: a :: b :: c :: d :: rest =>
    match unit? a b c d with
    | none => none
    | some n =>
      if isTrailing n then
        match half with
        | some leading => scan (ofPair leading n :: before) valid none rest
        | none => scan before false none rest
      else if isLeading n then scan before (valid && half.isNone) (some n) rest
      else scan (Char.ofNat n :: before) (valid && half.isNone) none rest
  | '\\' :: c :: rest =>
    match unescape? c with
    | some c => scan (c :: before) (valid && half.isNone) none rest
    | none => none
  | c :: rest =>
    if c = '\\' || c.toNat < 0x20 then none
    else scan (c :: before) (valid && half.isNone) none rest

/-- What follows a string is shorter than what followed its opening quote. -/
theorem length_scan_le {before : List Char} {valid : Bool} {half : Option Nat} {cs rest : List Char}
    {text? : Option String} (h : scan before valid half cs = some (text?, rest)) :
    rest.length ≤ cs.length := by
  fun_induction scan before valid half cs <;> simp_all <;> omega

end Quoted
end Json
end Unification
