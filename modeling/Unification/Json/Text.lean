import Unification.Json.Basic
import Unification.Json.Token

/-!
# Writing JSON

A value is written as its tokens one after the other, without blanks.  Fields
stand in the order in which the value has them.
-/

namespace Unification
namespace Json

/-- How a token is written.  A string without text and an invalid token are not. -/
def Token.text : Token → String
  | .openArray => "["
  | .closeArray => "]"
  | .openObject => "\x7b"
  | .closeObject => "\x7d"
  | .comma => ","
  | .colon => ":"
  | .null => "null"
  | .bool true => "true"
  | .bool false => "false"
  | .number lexeme => lexeme
  | .string (some s) => Quoted.encode s
  | .string none => ""
  | .invalid => ""

mutual
/-- The tokens of a value, followed by `rest`. -/
def tokens : Json → List Token → List Token
  | .null, rest => .null :: rest
  | .bool b, rest => .bool b :: rest
  | .number lexeme, rest => .number lexeme :: rest
  | .string text?, rest => .string text? :: rest
  | .array items, rest => .openArray :: itemsTokens items (.closeArray :: rest)
  | .object fields, rest => .openObject :: fieldsTokens fields (.closeObject :: rest)
  | .defect, rest => .invalid :: rest

/-- The tokens of values with commas between them, followed by `rest`. -/
def itemsTokens : List Json → List Token → List Token
  | [], rest => rest
  | [v], rest => tokens v rest
  | v :: w :: vs, rest => tokens v (.comma :: itemsTokens (w :: vs) rest)

/-- The tokens of fields with commas between them, followed by `rest`. -/
def fieldsTokens : List (Option String × Json) → List Token → List Token
  | [], rest => rest
  | [(k, v)], rest => .string k :: .colon :: tokens v rest
  | (k, v) :: field :: fields, rest =>
    .string k :: .colon :: tokens v (.comma :: fieldsTokens (field :: fields) rest)
end

def text (j : Json) : String := String.join ((j.tokens []).map Token.text)

end Json
end Unification
