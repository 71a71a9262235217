import Scriptlet.Eval.Evaluator
import Scriptlet.Grammar.Stream
import Scriptlet.Script.Failure
import Scriptlet.Text.Utf8

/-!
# `Script.Basic` — a program that was read from a file

A file is read while its program is: characters are drawn from its bytes as the grammar asks for them,
and those drawn are kept as the source that all positions refer to. A byte that cannot be drawn ends
the program. One more draw is made before that shows; if it fails too, it is the failure that counts.

## Contents
- `Script`, `Script.ofSource`, `Script.ofBytes`: a program with its source.
- `Script.run`: the program's value and what it printed.
-/

namespace Scriptlet

/-- A program with the source it was read from. -/
structure Script where
  path : String
  source : String
  program : Program

/-- What is wrong with a file that gives this draw. -/
def Utf8.Draw.fault? : Utf8.Draw → Option FileFault
  | .char _ => none
  | .invalid => some .invalidData
  | .cutOff => some .unexpectedEnd

namespace Script

/-- The script of a program, if the program has no faults. -/
def ofParsed (path source : String) (p : Parsed) : Except Failure Script :=
  if p.errors.isEmpty then .ok ⟨path, source, p.program⟩
  else .error (.grammar path source p.errors)

/-- The script that a source is. -/
def ofSource (path source : String) : Except Failure Script := ofParsed path source (parse source)

/-- The script that a file is, given its bytes. -/
def ofBytes (path : String) (bytes : List UInt8) : Except Failure Script :=
  let draws := Utf8.draws bytes
  let reading := parseStream (draws.map Utf8.Draw.char?)
  let drawn := draws.take (draws.length - reading.undrawn.length)
  match (drawn.filterMap Utf8.Draw.fault?).getLast? with
  | some fault => .error (.file fault)
  | none => ofParsed path (String.ofList (drawn.filterMap Utf8.Draw.char?)) reading.toParsed

/-- The script that a file is, given its bytes or why they could not be read. -/
def ofFile (path : String) : Except FileFault (List UInt8) → Except Failure Script
  | .ok bytes => ofBytes path bytes
  | .error fault => .error (.file fault)

/-- Runs a script in a store of its own. Gives the value or the failure, and the text printed on the
    way; nothing if the budget is too small. -/
def run (s : Script) (budget : Nat) : Option (Except Failure Value × String) :=
  let (root, store) := Store.empty.openFrame none
  match Eval.program budget s.program root store with
  | .done v after => some (.ok v, after.output)
  | .failed e after => some (.error (.runtime s.path e.message), after.output)
  | .left .. | .starved => none

end Script

end Scriptlet
