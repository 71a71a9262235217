import Scriptlet.Text.Escaped
import Scriptlet.Value.Basic

/-!
# `Eval.Error` — why a program fails

## Contents
- `Misuse`: what a builtin function was given that it cannot work on.
- `RuntimeError`: every cause of failure.
- `RuntimeError.message`: the cause in words.
-/

namespace Scriptlet

/-! ## Misuse of builtin functions -/

/-- Which of a builtin function's arguments is meant. -/
inductive Role where
  /-- The argument that the function works on. -/
  | subject
  | first
  | second
  | position
  /-- An element of the array given. -/
  | element
deriving DecidableEq, Repr

/-- What an argument has to be. -/
inductive Wanted where
  | sequence
  | array
  | string
  | integer
  | hash
  | key
deriving DecidableEq, Repr

/-- What a builtin function cannot work on. -/
inductive Misuse where
  /-- An argument of another kind than the function takes there. -/
  | wrongKind (role : Role) (b : Builtin) (wanted : Wanted) (got : Kind)
  /-- An argument of a kind that the function has no meaning for. -/
  | unsupported (b : Builtin) (got : Kind)
  /-- A string that spells no integer. -/
  | noInteger (text : String)
  /-- A string that spells no float. -/
  | noFloat (text : String)
  /-- A replacement that is not exactly one character. -/
  | notOneCharacter (count : Nat)
  /-- A string asked for its code that is not exactly one character. -/
  | notACharacter (text : String)
  /-- A code that fits no byte. -/
  | notAByte (n : Int64)
deriving DecidableEq, Repr

/-- The argument in words. -/
def Role.text : Role → String
  | subject => "argument to"
  | first => "first argument to"
  | second => "second argument to"
  | position => "index to"
  | element => "elements of array passed to"

/-- The kinds wanted in words. -/
def Wanted.text : Wanted → String
  | sequence => "ARRAY or STRING"
  | array => "ARRAY"
  | string => "STRING"
  | integer => "INTEGER"
  | hash => "HASH"
  | key => "HASHABLE"

/-- The name of a builtin function as messages quote it. -/
def Builtin.quoted (b : Builtin) : String := "\x60" ++ b.name ++ "\x60"

/-- The misuse in words. -/
def Misuse.message : Misuse → String
  | wrongKind role b wanted got =>
    role.text ++ " " ++ b.quoted ++ " must be " ++ wanted.text ++ ", got " ++ got.name
  | unsupported b got => "argument to " ++ b.quoted ++ " not supported, got " ++ got.name
  | noInteger text => "could not convert " ++ Text.escaped text ++ " to integer"
  | noFloat text => "could not convert " ++ Text.escaped text ++ " to float"
  | notOneCharacter count =>
    "argument to " ++ Builtin.setAt.quoted ++ " must be single character, got " ++ toString count
      ++ " characters"
  | notACharacter text =>
    "argument to " ++ Builtin.ascii.quoted ++ " must be a single character, got " ++ text
  | notAByte n =>
    "argument to " ++ Builtin.char.quoted ++ " must be between 0 and 255, got "
      ++ toString n.toInt

/-! ## Causes -/

/-- Why a program fails. -/
inductive RuntimeError where
  /-- The operator does not take two different kinds. -/
  | typeMismatch (left : Kind) (op : BinaryOp) (right : Kind)
  /-- The operator has no meaning for these operands. -/
  | unknownBinary (left : Kind) (op : BinaryOp) (right : Kind)
  /-- The operator has no meaning for this operand. -/
  | unknownUnary (op : UnaryOp) (operand : Kind)
  | unbound (name : String)
  | notCallable (kind : Kind)
  /-- A function of a program got another number of arguments than it has parameters. -/
  | argumentCount (want got : Nat)
  | unhashable (kind : Kind)
  | notIndexable (target position : Kind)
  | divisionByZero (op : BinaryOp)
  /-- Only a name can be assigned to; the target is kept as it is written. -/
  | badTarget (target : String)
  | negativeExponent (exponent : Int64)
  | shiftOutOfRange (amount : Int64)
  /-- A builtin function got another number of arguments than it takes. -/
  | builtinArity (got want : Nat)
  | indexOutOfRange (position : Int64)
  | misuse (what : Misuse)
deriving DecidableEq, Repr

/-- Two kinds with an operator between them. -/
def operationText (left : Kind) (op : BinaryOp) (right : Kind) : String :=
  left.name ++ " " ++ op.text ++ " " ++ right.name

/-- The cause in words. -/
def RuntimeError.message : RuntimeError → String
  | typeMismatch left op right => "type mismatch: " ++ operationText left op right
  | unknownBinary left op right => "unknown operator: " ++ operationText left op right
  | unknownUnary op operand => "unknown operator: " ++ op.text ++ operand.name
  | unbound name => "identifier not found: " ++ name
  | notCallable kind => "not a function: " ++ kind.name
  | argumentCount want got =>
    "wrong number of arguments: want=" ++ toString want ++ ", got=" ++ toString got
  | unhashable kind => "unusable as hash key: " ++ kind.name
  | notIndexable target position =>
    "index operator not supported: " ++ target.name ++ "[" ++ position.name ++ "]"
  | divisionByZero op => "division by zero: " ++ operationText .integer op .integer
  | badTarget target => "invalid assignment target: " ++ target
  | negativeExponent exponent => "negative exponent: " ++ toString exponent.toInt
  | shiftOutOfRange amount => "shift amount out of range: " ++ toString amount.toInt
  | builtinArity got want =>
    "wrong number of arguments. got = " ++ toString got ++ ", want = " ++ toString want
  | indexOutOfRange position => "index out of range: " ++ toString position.toInt
  | misuse what => what.message

end Scriptlet
