import Unification.Json.Basic
import Unification.Json.Token

/-!
# Reading a JSON text

A text is read by a machine that takes one token at a time.  It keeps the
arrays and objects that are still open as a stack of frames, so nesting costs
nothing but memory.  At the first token that does not fit, a `defect` takes its
place and the open frames are closed around it.
-/

namespace Unification
namespace Json

/-- An array or object that is open.  What it holds so far is kept in reverse. -/
inductive Frame where
  | items (before : List Json)
  | fields (before : List (Option String × Json)) (key : Option String)

/-- The array or object with this as its last part. -/
def Frame.close (v : Json) : Frame → Json
  | .items before => .array (v :: before).reverse
  | .fields before key => .object ((key, v) :: before).reverse

/-- A value that was read, and whether the text holds nothing else. -/
structure Document where
  root : Json
  complete : Bool

namespace Document

/-- What the machine waits for. -/
inductive State where
  | value (stack : List Frame)
  /-- After `[`. -/
  | firstItem (stack : List Frame)
  /-- After `{`. -/
  | firstKey (stack : List Frame)
  /-- After a comma in an object. -/
  | key (before : List (Option String × Json)) (stack : List Frame)
  | colon (before : List (Option String × Json)) (key : Option String) (stack : List Frame)
  /-- What may come after a value. -/
  | after (v : Json) (stack : List Frame)
  /-- Nothing: something did not fit. -/
  | stopped (root : Json)

/-- Closes all open frames around a value that has a fault or is the last. -/
def stop (v : Json) (stack : List Frame) : State := .stopped (stack.foldl Frame.close v)

/-- Starts a value. -/
def start (stack : List Frame) : Token → State
  | .openArray => .firstItem stack
  | .openObject => .firstKey stack
  | .null => .after .null stack
  | .bool b => .after (.bool b) stack
  | .number lexeme => .after (.number lexeme) stack
  | .string text? => .after (.string text?) stack
  | _ => stop .defect stack

def step : State → Token → State
  | .value stack, t => start stack t
  | .firstItem stack, .closeArray => .after (.array []) stack
  | .firstItem stack, t => start (.items [] :: stack) t
  | .firstKey stack, .closeObject => .after (.object []) stack
  | .firstKey stack, .string key => .colon [] key stack
  | .firstKey stack, _ => stop (Frame.close .defect (.fields [] none)) stack
  | .key before stack, .string key => .colon before key stack
  | .key before stack, _ => stop (Frame.close .defect (.fields before none)) stack
  | .colon before key stack, .colon => .value (.fields before key :: stack)
  | .colon before key stack, _ => stop (Frame.close .defect (.fields before key)) stack
  | .after v (.items before :: stack), .comma => .value (.items (v :: before) :: stack)
  | .after v (.items before :: stack), .closeArray => .after (Frame.close v (.items before)) stack
  | .after v (.items before :: stack), _ => stop (Frame.close .defect (.items (v :: before))) stack
  | .after v (.fields before key :: stack), .comma => .key ((key, v) :: before) stack
  | .after v (.fields before key :: stack), .closeObject =>
    .after (Frame.close v (.fields before key)) stack
  | .after v (.fields before key :: stack), _ =>
    stop (Frame.close .defect (.fields ((key, v) :: before) none)) stack
  | .after v [], _ => .stopped v
  | .stopped root, _ => .stopped root

/-- The end of a text that is not over counts as a token that does not fit. -/
def finish : State → Document
  | .after v [] => ⟨v, true⟩
  | s =>
    match step s .invalid with
    | .stopped root => ⟨root, false⟩
    | _ => ⟨.defect, false⟩

def ofText (text : String) : Document := finish (Token.fold step (.value []) text.toList)

end Document
end Json
end Unification
