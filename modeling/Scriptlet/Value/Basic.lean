import Scriptlet.Syntax.Tree
import Scriptlet.Value.Builtin

/-!
# `Value.Basic` — what programs compute

Arrays, hashes and functions are shared and never change, so two of them are the same only if they
come from the same act of making one. Each of them carries the number of that act, its identity.

## Contents
- `Kind`: the kinds of values with their names.
- `Key`: what a hash is looked up by.
- `Value`, `Pair`, `Pairs`: values; the pairs of a hash in the order of insertion, with an index from
  keys to places.
- `Value.kind`, `Value.isTruthy`, `Value.key?`.
-/

namespace Scriptlet

/-! ## Kinds -/

/-- The kind of a value. -/
inductive Kind where
  | integer
  | float
  | boolean
  | null
  | string
  | array
  | hash
  | function
  | builtin
  | error
  | returned
deriving DecidableEq, Repr

/-- The kind's name in the language. -/
def Kind.name : Kind → String
  | integer => "INTEGER"
  | float => "FLOAT"
  | boolean => "BOOLEAN"
  | null => "NULL"
  | string => "STRING"
  | array => "ARRAY"
  | hash => "HASH"
  | function => "FUNCTION"
  | builtin => "BUILTIN"
  | error => "ERROR"
  | returned => "RETURN_VALUE"

/-! ## Values -/

/-- What a hash is looked up by: the kind and the content of a key. -/
inductive Key where
  | int (n : Int64)
  | bool (b : Bool)
  | str (s : String)
deriving DecidableEq, Repr

mutual

/-- A value. The last two never arise inside a program; they show a host how a piece of a program
    ended. -/
inductive Value where
  | int (n : Int64)
  | float (x : Float)
  | bool (b : Bool)
  | null
  | str (s : String)
  | array (id : Nat) (elements : List Value)
  | hash (id : Nat) (pairs : Pairs)
  /-- A function closes over the frame in which it was made. -/
  | func (id : Nat) (parameters : List Ident) (body : Block) (frame : Nat)
  | builtin (b : Builtin)
  | error (message : String)
  | returned (value : Value)

/-- A key with its value. -/
structure Pair where
  key : Value
  value : Value

/-- The pairs of a hash in the order of insertion, and the place of each key among them. -/
structure Pairs where
  entries : List Pair
  index : List (Key × Nat)

end

instance : Inhabited Value := ⟨.null⟩
instance : Inhabited Pair := ⟨⟨.null, .null⟩⟩
instance : Inhabited Pairs := ⟨⟨[], []⟩⟩

namespace Value

/-- The kind of a value. -/
def kind : Value → Kind
  | int _ => .integer
  | float _ => .float
  | bool _ => .boolean
  | null => .null
  | str _ => .string
  | array .. => .array
  | hash .. => .hash
  | func .. => .function
  | builtin _ => .builtin
  | error _ => .error
  | returned _ => .returned

/-- Whether a condition counts the value as true: everything but `null`, `false` and the two
    zeros. -/
def isTruthy : Value → Bool
  | null => false
  | bool b => b
  | int n => n ≠ 0
  | float x => x != 0
  | _ => true

/-- The key that a value is; only integers, truth values and strings are keys. -/
def key? : Value → Option Key
  | int n => some (.int n)
  | bool b => some (.bool b)
  | str s => some (.str s)
  | _ => none

end Value

end Scriptlet
