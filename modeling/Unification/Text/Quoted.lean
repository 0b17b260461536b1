import Unification.Text.DefaultIgnorable
import Unification.Text.GraphemeExtend
import Unification.Symbol
import Unification.Text.Printable

/-!
# Quoted text

A text is quoted so that every character of it can be seen: the quote, the
backslash and the common controls by a letter after a backslash, and characters
that print nothing of their own by their number.
-/

namespace Unification
namespace Text

/-- The character is drawn together with the one before it.  The two halfwidth
sound marks extend a grapheme as well, but they are letters with a width of
their own. -/
def isCombining (c : Char) : Bool :=
  isGraphemeExtend c && c ≠ '\uff9e' && c ≠ '\uff9f'

/-- The character is seen as itself wherever it stands. -/
def isVisible (c : Char) : Bool := isPrintable c && !isDefaultIgnorable c && !isCombining c

/-- How a character is written between quotes. -/
def escape (c : Char) : List Char :=
  if c = '\x00' then ['\\', '0']
  else if c = '\t' then ['\\', 't']
  else if c = '\n' then ['\\', 'n']
  else if c = '\r' then ['\\', 'r']
  else if c = '"' then ['\\', '"']
  else if c = '\\' then ['\\', '\\']
  else if isVisible c then [c]
  else ['\\', 'u', '\x7b'] ++ Nat.toDigits 16 c.toNat ++ ['\x7d']

def quote (s : String) : String := "\"" ++ String.ofList (s.toList.flatMap escape) ++ "\""

end Text

/-- The symbol for a reader who must see every character of its name. -/
def Symbol.debug (s : Symbol) : String := "Symbol(" ++ Text.quote s.name ++ ")"

end Unification
