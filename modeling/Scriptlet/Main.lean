import Scriptlet.CommandLine.Command

/-!
# `Main` — the command line

Reads files and lines, calls the library, prints what it answers.
-/

namespace Scriptlet.Main

/-- A budget that no run uses up. -/
def patience : Nat := 1000000000000000000

/-- How the program is called. -/
def usage : String :=
  "usage: run PATH | fmt [-w|--write] [--tabs] PATH | ast PATH | repl | rlpl | rppl\n"

/-- What is wrong with a file, as far as the library tells. -/
def faultOf : IO.Error → FileFault
  | .noFileOrDirectory .. => .notFound
  | .permissionDenied .. => .permissionDenied
  | .unexpectedEof => .unexpectedEnd
  | .invalidArgument .. => .invalidData
  | .inappropriateType none .. => .directory
  | .inappropriateType (some _) .. => .notDirectory
  | _ => .other

/-- Writes a text at once. -/
def put (stream : IO.FS.Stream) (text : String) : IO Unit := do
  stream.putStr text
  stream.flush

/-- Tells a failure; the exit code for it. -/
def tell (f : Failure) : IO UInt32 := do
  put (← IO.getStderr) (f.render .none)
  return 1

/-- The bytes of a file or why they could not be read. -/
def readFile (path : String) : IO (Except FileFault (List UInt8)) := do
  try
    return .ok (← IO.FS.readBinFile path).toList
  catch e => return .error (faultOf e)

/-- Carries out a task on a file. -/
def runTask (task : Task) (path : String) : IO UInt32 := do
  let start ← IO.monoMsNow
  match task.execute patience path (← readFile path) with
  | none => return 1
  | some e =>
    put (← IO.getStdout) e.output
    put (← IO.getStderr) (e.errors (Task.elapsedText ((← IO.monoMsNow) - start)))
    match e.written with
    | none => return UInt32.ofNat e.code
    | some text =>
      try
        IO.FS.writeFile path text
        return UInt32.ofNat e.code
      catch err => tell (.file (faultOf err))

/-- The next line of the input or why it could not be read; empty at the end of the input. -/
def readLine : IO (Except FileFault String) := do
  try
    return .ok (← (← IO.getStdin).getLine)
  catch e => return .error (faultOf e)

/-- Prompts, reads and answers until the dialogue is over. -/
partial def converse (d : Dialogue) : IO UInt32 := do
  put (← IO.getStdout) Dialogue.prompt
  match ← readLine with
  | .error fault => tell (.file fault)
  | .ok line =>
    if line.isEmpty then
      put (← IO.getStdout) d.farewell
      return 0
    else match d.reply patience line with
      | none => return 1
      | some turn =>
        put (← IO.getStdout) turn.output
        match turn.next with
        | none => return 0
        | some after => converse after

end Scriptlet.Main

/-- The exit code of the command that the arguments ask for. -/
def main (arguments : List String) : IO UInt32 :=
  match Scriptlet.Command.ofArguments? arguments with
  | some (.script task path) => Scriptlet.Main.runTask task path
  | some (.dialogue start) => Scriptlet.Main.converse start
  | none => do
    Scriptlet.Main.put (← IO.getStderr) Scriptlet.Main.usage
    return 2
