import Scriptlet.Numeral.Decimal
import Scriptlet.Syntax.Render
import Scriptlet.Value.Basic

/-!
# `Value.Text` — values as programs print them

Strings stand for themselves without quotes, also inside arrays and hashes; a function is shown as it
is written.
-/

namespace Scriptlet

mutual

/-- The text of a value. -/
def Value.text : Value → String
  | .int n => toString n.toInt
  | .float x => Numeral.floatText x
  | .bool b => if b then "true" else "false"
  | .null => "null"
  | .str s => s
  | .array _ elements => "[" ++ String.intercalate ", " (Value.textList elements) ++ "]"
  | .hash _ pairs => pairs.text
  | .func _ parameters body _ => renderFunction parameters body
  | .builtin _ => "builtin function"
  | .error message => "ERROR: " ++ message
  | .returned value => value.text

/-- The texts of several values. -/
def Value.textList : List Value → List String
  | [] => []
  | v :: vs => v.text :: Value.textList vs

/-- The text of the pairs between braces. -/
def Pairs.text : Pairs → String
  | ⟨entries, _⟩ => "\x7b" ++ String.intercalate ", " (Pair.textList entries) ++ "\x7d"

/-- The texts of several pairs. -/
def Pair.textList : List Pair → List String
  | [] => []
  | p :: ps => p.text :: Pair.textList ps

/-- A key, a colon and a space, and its value. -/
def Pair.text : Pair → String
  | ⟨key, value⟩ => key.text ++ ": " ++ value.text

end

end Scriptlet
