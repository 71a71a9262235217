import Scriptlet.Text.Escaped
import Scriptlet.Token.Basic

/-!
# `Grammar.Fault` — why a text is not a program

## Contents
- `Fault`: what is wrong, `SyntaxError`: what is wrong and where.
- `Fault.message`: the fault in a sentence, `Fault.label`: in a few words beside the place.
-/

namespace Scriptlet

/-- What the grammar was looking for. -/
inductive Expected where
  | token (t : Token)
  /-- An operator between two operands. -/
  | operator
deriving DecidableEq, Repr

/-- What is wrong. -/
inductive Fault where
  /-- Another token stands where one token is the only choice. -/
  | unexpected (expected : Expected) (found : Token)
  /-- No expression starts with this token. -/
  | noExpression (found : Token)
  /-- The spelling is no integer of 64 bits. -/
  | badInteger (spelling : String)
  /-- The spelling is no float. -/
  | badFloat (spelling : String)
deriving DecidableEq, Repr

/-- A fault and where it is. -/
structure SyntaxError where
  fault : Fault
  span : Span
deriving DecidableEq, Repr

/-- What messages call the thing looked for. -/
def Expected.name : Expected → String
  | .token t => t.name
  | .operator => "operator"

namespace Fault

/-- The fault in a sentence. -/
def message : Fault → String
  | unexpected expected found =>
    "expected next token to be " ++ expected.name ++ ", got " ++ found.name ++ " instead"
  | noExpression found => "no prefix parse function for " ++ found.name ++ " found"
  | badInteger spelling => "could not parse " ++ Text.escaped spelling ++ " as integer"
  | badFloat spelling => "could not parse " ++ Text.escaped spelling ++ " as float"

/-- The fault in a few words. -/
def label : Fault → String
  | unexpected expected _ => "Expected \x60" ++ expected.name ++ "\x60"
  | noExpression found => "\x60" ++ found.name ++ "\x60 cannot start an expression"
  | badInteger _ => "Invalid integer literal"
  | badFloat _ => "Invalid float literal"

/-- The longer explanation, line by line. -/
def notes (f : Fault) : List String := [f.message]

end Fault

/-- The fault in a sentence. -/
def SyntaxError.message (e : SyntaxError) : String := e.fault.message

end Scriptlet
