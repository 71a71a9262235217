import Scriptlet.Eval.Sequence
import Scriptlet.Numeral.Reading
import Scriptlet.Text.Split
import Scriptlet.Value.Pairs
import Scriptlet.Value.Text

/-!
# `Eval.Builtins` — what the builtin functions do

A builtin function looks at its arguments alone. It answers with one of them, or describes an array or
a hash still to be made, or a line to be printed; making and printing are the store's part
(`Eval.Store`). Arguments are checked in a fixed order: their number, the subject, the others from
left to right, and only then whether a position is in range.

## Contents
- `Answer`: what a builtin function gives.
- The functions by subject: kinds and conversions, sequences, hashes, strings.
- `Builtin.answer`: all of them.
-/

namespace Scriptlet.Eval

/-- What a builtin function gives. -/
inductive Answer where
  | value (v : Value)
  /-- A new array. -/
  | array (elements : List Value)
  /-- A new array of new arrays. -/
  | table (rows : List (List Value))
  /-- A new hash. -/
  | hash (pairs : Pairs)
  /-- A line to print; the value is `null`. -/
  | line (text : String)

/-- What a builtin function gives, or why it fails. -/
abbrev Result := Except RuntimeError Answer

/-- The answer that is the truth value of a condition. -/
def yesNo (b : Bool) : Result := .ok (.value (.bool b))

/-- The failure over an argument of the wrong kind. -/
def wrongKind {α : Type} (role : Role) (b : Builtin) (wanted : Wanted) (v : Value) :
    Except RuntimeError α :=
  .error (.misuse (.wrongKind role b wanted v.kind))

/-! ## Arguments -/

/-- The one argument. -/
def one (args : List Value) (f : Value → Result) : Result :=
  match args with
  | [v] => f v
  | _ => .error (.builtinArity args.length 1)

/-- The two arguments. -/
def two (args : List Value) (f : Value → Value → Result) : Result :=
  match args with
  | [v, w] => f v w
  | _ => .error (.builtinArity args.length 2)

/-- The three arguments. -/
def three (args : List Value) (f : Value → Value → Value → Result) : Result :=
  match args with
  | [v, w, x] => f v w x
  | _ => .error (.builtinArity args.length 3)

/-- The subject as a sequence. -/
def sequenceOf (b : Builtin) (v : Value) : Except RuntimeError Sequence :=
  match Sequence.ofValue? v with
  | some s => .ok s
  | none => wrongKind .subject b .sequence v

/-- A position. -/
def positionOf (b : Builtin) : Value → Except RuntimeError Int64
  | .int n => .ok n
  | v => wrongKind .position b .integer v

/-- A string in some role. -/
def stringOf (role : Role) (b : Builtin) : Value → Except RuntimeError String
  | .str s => .ok s
  | v => wrongKind role b .string v

/-- The pairs of a hash in some role. -/
def pairsOf (role : Role) (b : Builtin) : Value → Except RuntimeError Pairs
  | .hash _ pairs => .ok pairs
  | v => wrongKind role b .hash v

/-- The second argument as a key. -/
def keyOf (b : Builtin) (v : Value) : Except RuntimeError Key :=
  match v.key? with
  | some k => .ok k
  | none => wrongKind .second b .key v

/-- The place that a position means, or the failure that there is none. -/
def placeOrFail (position : Int64) (place : Option Nat) : Except RuntimeError Nat :=
  match place with
  | some i => .ok i
  | none => .error (.indexOutOfRange position)

/-! ## Kinds and conversions -/

/-- A string from characters. -/
def textOf (cs : List Char) : Value := .str (String.ofList cs)

/-- Whether the argument is of a kind. -/
def isKind (kind : Kind) (args : List Value) : Result :=
  one args fun v => yesNo (v.kind = kind)

/-- The number of elements, characters or pairs. -/
def lenOf (v : Value) : Result :=
  let count (n : Nat) : Result := .ok (.value (.int (Int64.ofNat n)))
  match v with
  | .str s => count s.toList.length
  | .array _ vs => count vs.length
  | .hash _ pairs => count pairs.size
  | v => .error (.misuse (.unsupported .len v.kind))

/-- The argument as an integer; floats lose their fraction and stop at the ends of the range. -/
def toInteger : Value → Except RuntimeError Int64
  | .int n => .ok n
  | .float x => .ok x.toInt64
  | .bool b => .ok (if b then 1 else 0)
  | .str s =>
    match Numeral.readInteger s with
    | some n => .ok n
    | none => .error (.misuse (.noInteger s))
  | v => .error (.misuse (.unsupported .int v.kind))

/-- The argument as a float. -/
def toFloat : Value → Except RuntimeError Float
  | .int n => .ok n.toFloat
  | .float x => .ok x
  | .bool b => .ok (if b then 1 else 0)
  | .str s =>
    match Numeral.readFloat s with
    | some x => .ok x
    | none => .error (.misuse (.noFloat s))
  | v => .error (.misuse (.unsupported .float v.kind))

/-- The argument as an array: itself, or the characters of a string. -/
def toArray : Value → Result
  | .array id vs => .ok (.value (.array id vs))
  | .str s => .ok (.array (s.toList.map oneChar))
  | v => .error (.misuse (.unsupported .array v.kind))

/-! ## Sequences -/

/-- One element of a sequence, `null` where there is none. -/
def elementOf (b : Builtin) (onValues : List Value → Option Value)
    (onChars : List Char → Option Char) (v : Value) : Result := do
  match ← sequenceOf b v with
  | .elements vs => return .value ((onValues vs).getD .null)
  | .characters cs => return .value (((onChars cs).map oneChar).getD .null)

/-- A sequence made from another one, `null` from an empty one. -/
def partOf (b : Builtin) (onValues : List Value → List Value) (onChars : List Char → List Char)
    (v : Value) : Result := do
  match ← sequenceOf b v with
  | .elements [] | .characters [] => return .value .null
  | .elements vs => return .array (onValues vs)
  | .characters cs => return .value (textOf (onChars cs))

/-- The element at a position, `null` where there is none. -/
def atPosition (v position : Value) : Result := do
  match ← sequenceOf .at v with
  | .elements vs =>
    let i ← positionOf .at position
    return .value (((element? i vs.length).bind (vs[·]?)).getD .null)
  | .characters cs =>
    let i ← positionOf .at position
    return .value ((((element? i cs.length).bind (cs[·]?)).map oneChar).getD .null)

/-- The one character of a string. -/
def replacementOf (s : String) : Except RuntimeError Char :=
  match s.toList with
  | [c] => .ok c
  | cs => .error (.misuse (.notOneCharacter cs.length))

/-- A sequence with another element at a position. -/
def setAtPosition (v position new : Value) : Result := do
  match ← sequenceOf .setAt v with
  | .elements vs =>
    let i ← positionOf .setAt position
    let place ← placeOrFail i (element? i vs.length)
    return .array (vs.set place new)
  | .characters cs =>
    let i ← positionOf .setAt position
    let c ← replacementOf (← stringOf .subject .setAt new)
    let place ← placeOrFail i (element? i cs.length)
    return .value (textOf (cs.set place c))

/-- A sequence with an element, or a string with a string, at its end. -/
def pushBack (v new : Value) : Result := do
  match ← sequenceOf .push v with
  | .elements vs => return .array (vs ++ [new])
  | .characters cs => return .value (textOf (cs ++ (← stringOf .subject .push new).toList))

/-- A sequence with an element, or a string with a string, at its front. -/
def pushFront (v new : Value) : Result := do
  match ← sequenceOf .pushFront v with
  | .elements vs => return .array (new :: vs)
  | .characters cs => return .value (textOf ((← stringOf .subject .pushFront new).toList ++ cs))

/-- A sequence with an element, or a string with a string, before a position. -/
def insertAtPosition (v position new : Value) : Result := do
  match ← sequenceOf .insert v with
  | .elements vs =>
    let i ← positionOf .insert position
    let place ← placeOrFail i (slot? i vs.length)
    return .array (vs.take place ++ new :: vs.drop place)
  | .characters cs =>
    let i ← positionOf .insert position
    let s ← stringOf .subject .insert new
    let place ← placeOrFail i (slot? i cs.length)
    return .value (textOf (cs.take place ++ s.toList ++ cs.drop place))

/-- A sequence without the element at a position. -/
def removeAtPosition (v position : Value) : Result := do
  match ← sequenceOf .remove v with
  | .elements vs =>
    let i ← positionOf .remove position
    let place ← placeOrFail i (element? i vs.length)
    return .array (vs.eraseIdx place)
  | .characters cs =>
    let i ← positionOf .remove position
    let place ← placeOrFail i (element? i cs.length)
    return .value (textOf (cs.eraseIdx place))

/-- A sequence from back to front. -/
def reverseOf (v : Value) : Result := do
  match ← sequenceOf .reverse v with
  | .elements vs => return .array vs.reverse
  | .characters cs => return .value (textOf cs.reverse)

/-! ## Hashes -/

/-- The pairs of a hash as arrays of two. -/
def entriesOf (v : Value) : Result := do
  let pairs ← pairsOf .subject .entries v
  return .table (pairs.entries.map fun p => [p.key, p.value])

/-- Whether a hash has a key. -/
def hasKeyOf (v key : Value) : Result := do
  let pairs ← pairsOf .first .hasKey v
  let k ← keyOf .hasKey key
  yesNo (pairs.place? k).isSome

/-- A hash with a key set to a value. -/
def setKeyOf (v key new : Value) : Result := do
  let pairs ← pairsOf .first .set v
  let k ← keyOf .set key
  return .hash (pairs.insertAt k ⟨key, new⟩)

/-- A hash without a key. -/
def deleteKeyOf (v key : Value) : Result := do
  let pairs ← pairsOf .first .delete v
  let k ← keyOf .delete key
  return .hash (pairs.removeAt k).2

/-! ## Strings -/

/-- The character with a code of one byte. -/
def charOf : Value → Result
  | .int n =>
    if 0 ≤ n && n < 256 then .ok (.value (oneChar (Char.ofNat n.toInt.toNat)))
    else .error (.misuse (.notAByte n))
  | v => wrongKind .subject .char .integer v

/-- The code of the one character of a string. -/
def codeOf (v : Value) : Result := do
  let s ← stringOf .subject .ascii v
  match s.toList with
  | [c] => return .value (.int (Int64.ofNat c.toNat))
  | _ => .error (.misuse (.notACharacter s))

/-- The pieces of a text between occurrences of a separator; its characters if the separator is
    empty. -/
def piecesOf (s separator : String) : List (List Char) :=
  match separator.toList with
  | [] => s.toList.map fun c => [c]
  | c :: sep => Text.splitAll c sep s.toList

/-- The two pieces of a text around the first occurrence of a separator. An empty separator cuts
    after the first character, and no piece is left of an empty text. -/
def firstPiecesOf (s separator : String) : List (List Char) :=
  match separator.toList, s.toList with
  | [], [] => []
  | [], c :: cs => [[c], cs]
  | sep, cs => Text.splitFirst sep cs

/-- A text cut at a separator. -/
def splitWith (b : Builtin) (pieces : String → String → List (List Char)) (v separator : Value) :
    Result := do
  let s ← stringOf .first b v
  let sep ← stringOf .second b separator
  return .array ((pieces s sep).map textOf)

/-- The strings of an array with a separator between them. -/
def joinWith (v separator : Value) : Result := do
  match v with
  | .array _ vs =>
    let sep ← stringOf .second .join separator
    let parts ← vs.mapM (stringOf .element .join)
    return .value (.str (String.intercalate sep parts))
  | v => wrongKind .first .join .array v

/-! ## All functions -/

end Scriptlet.Eval

namespace Scriptlet

open Eval in
/-- What a builtin function gives for its arguments. -/
def Builtin.answer (b : Builtin) (args : List Value) : Eval.Result :=
  match b with
  | .len => one args lenOf
  | .print => .ok (.line (String.join (args.map Value.text)))
  | .type => one args fun v => .ok (.value (.str v.kind.name))
  | .isInt => isKind .integer args
  | .isFloat => isKind .float args
  | .isBool => isKind .boolean args
  | .isString => isKind .string args
  | .isArray => isKind .array args
  | .isHash => isKind .hash args
  | .isNull => isKind .null args
  | .isFunction => isKind .function args
  | .int => one args fun v => do return .value (.int (← toInteger v))
  | .float => one args fun v => do return .value (.float (← toFloat v))
  | .string => one args fun v => .ok (.value (.str v.text))
  | .array => one args toArray
  | .bool => one args fun v => yesNo v.isTruthy
  | .first => one args (elementOf .first List.head? List.head?)
  | .last => one args (elementOf .last List.getLast? List.getLast?)
  | .rest => one args (partOf .rest List.tail List.tail)
  | .init => one args (partOf .init List.dropLast List.dropLast)
  | .at => two args atPosition
  | .setAt => three args setAtPosition
  | .push => two args pushBack
  | .pop => one args (partOf .pop List.dropLast List.dropLast)
  | .pushFront => two args Eval.pushFront
  | .popFront => one args (partOf .popFront List.tail List.tail)
  | .insert => three args insertAtPosition
  | .remove => two args removeAtPosition
  | .reverse => one args reverseOf
  | .keys => one args fun v => do return .array (← pairsOf .subject .keys v).keys
  | .values => one args fun v => do return .array (← pairsOf .subject .values v).values
  | .entries => one args entriesOf
  | .hasKey => two args hasKeyOf
  | .set => three args setKeyOf
  | .delete => two args deleteKeyOf
  | .char => one args charOf
  | .ascii => one args codeOf
  | .split => two args (splitWith .split piecesOf)
  | .splitOnce => two args (splitWith .splitOnce firstPiecesOf)
  | .join => two args joinWith

end Scriptlet
