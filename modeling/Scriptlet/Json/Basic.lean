import Scriptlet.Numeral.Decimal

/-!
# `Json.Basic` — JSON values and their two written forms

## Contents
- `Json`: a value; the members of an object keep their order.
- `Json.compact`: everything on one line without blanks.
- `Json.pretty`: a line for each element and member, two spaces a level; empty arrays and objects stay
  on one line.

Floats are written with the fewest digits that identify them (`Numeral.jsonStyle`); the ones that are
not finite have no number in JSON and are written `null`.
-/

namespace Scriptlet

mutual

/-- A JSON value. -/
inductive Json where
  | null
  | bool (value : Bool)
  | int (value : Int)
  | float (value : Float)
  | str (value : String)
  | arr (elements : List Json)
  | obj (members : List Member)

/-- A name with its value in an object. -/
structure Member where
  name : String
  value : Json

end

instance : Inhabited Json := ⟨.null⟩

namespace Json

/-! ## Strings -/

/-- One character inside a JSON string: quotes, backslashes and control characters are escaped and
    everything else stands for itself. -/
def stringChar (c : Char) : List Char :=
  if c = '"' then ['\\', '"']
  else if c = '\\' then ['\\', '\\']
  else if c = '\n' then ['\\', 'n']
  else if c = '\r' then ['\\', 'r']
  else if c = '\t' then ['\\', 't']
  else if c = '\x08' then ['\\', 'b']
  else if c = '\x0c' then ['\\', 'f']
  else if c.toNat < 0x20 then
    ['\\', 'u', '0', '0', Nat.digitChar (c.toNat / 16), Nat.digitChar (c.toNat % 16)]
  else [c]

/-- A JSON string with its quotes. -/
def stringText (s : String) : String :=
  String.ofList ('"' :: (s.toList.flatMap stringChar ++ ['"']))

/-- A number that may not be finite. -/
def floatValueText (x : Float) : String :=
  (Numeral.finiteText? Numeral.jsonStyle x).getD "null"

/-! ## One line -/

mutual

/-- The value on one line without blanks. -/
def compact : Json → String
  | null => "null"
  | bool b => if b then "true" else "false"
  | int n => toString n
  | float x => floatValueText x
  | str s => stringText s
  | arr elements => "[" ++ String.intercalate "," (compactList elements) ++ "]"
  | obj members => "\x7b" ++ String.intercalate "," (compactMembers members) ++ "\x7d"

/-- The texts of several values. -/
def compactList : List Json → List String
  | [] => []
  | v :: vs => v.compact :: compactList vs

/-- The texts of several members. -/
def compactMembers : List Member → List String
  | [] => []
  | m :: ms => compactMember m :: compactMembers ms

/-- A member: its name, a colon, its value. -/
def compactMember : Member → String
  | ⟨name, value⟩ => stringText name ++ ":" ++ value.compact

end

/-! ## Several lines -/

/-- The line break and the indentation at a level. -/
def lineBreak (level : Nat) : String :=
  "\n" ++ String.ofList (List.replicate (2 * level) ' ')

/-- Items between two brackets, each on a line of its own one level further in. -/
def bracketed (opening closing : String) (level : Nat) (items : List String) : String :=
  if items.isEmpty then opening ++ closing
  else
    opening ++ lineBreak (level + 1) ++ String.intercalate ("," ++ lineBreak (level + 1)) items
      ++ lineBreak level ++ closing

mutual

/-- The value over several lines, inside `level` others. -/
def prettyAt (level : Nat) : Json → String
  | null => "null"
  | bool b => if b then "true" else "false"
  | int n => toString n
  | float x => floatValueText x
  | str s => stringText s
  | arr elements => bracketed "[" "]" level (prettyList (level + 1) elements)
  | obj members => bracketed "\x7b" "\x7d" level (prettyMembers (level + 1) members)

/-- The texts of several values at a level. -/
def prettyList (level : Nat) : List Json → List String
  | [] => []
  | v :: vs => v.prettyAt level :: prettyList level vs

/-- The texts of several members at a level. -/
def prettyMembers (level : Nat) : List Member → List String
  | [] => []
  | m :: ms => prettyMember level m :: prettyMembers level ms

/-- A member at a level: its name, a colon and a space, its value. -/
def prettyMember (level : Nat) : Member → String
  | ⟨name, value⟩ => stringText name ++ ": " ++ value.prettyAt level

end

/-- The value over several lines. -/
def pretty (v : Json) : String := v.prettyAt 0

end Json

end Scriptlet
