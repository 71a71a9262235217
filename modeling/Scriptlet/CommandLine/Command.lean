import Scriptlet.CommandLine.Dialogue
import Scriptlet.Script.Basic

/-!
# `CommandLine.Command` — what the program can be asked for

## Contents
- `Task`: what is done with a script file. `Command`: a task with its file, or a dialogue.
- `Command.ofArguments?`: the command that arguments ask for.
- `Task.execute`: what a task prints, where, and what it writes back.
-/

namespace Scriptlet

/-- What is done with a script file. -/
inductive Task where
  | run
  /-- Brings the source into its canonical form, indented by two spaces or by tabs. -/
  | layout (write tabs : Bool)
  /-- Shows the tree as JSON. -/
  | outline
deriving DecidableEq, Repr

/-- What the program is asked for. -/
inductive Command where
  | script (task : Task) (path : String)
  | dialogue (start : Dialogue)

/-! ## Arguments -/

namespace Command

/-- Whether an argument is meant as a flag: it starts with a hyphen and has more than that. -/
def isFlag (argument : String) : Bool :=
  match argument.toList with
  | '-' :: _ :: _ => true
  | _ => false

/-- Arguments divided into flags and others; nothing if a flag is not known. After two hyphens that
    stand alone all are others. -/
def divide? (known : List String) : List String → Option (List String × List String)
  | [] => some ([], [])
  | "--" :: rest => some ([], rest)
  | a :: rest =>
    if known.contains a then (divide? known rest).map fun (flags, others) => (a :: flags, others)
    else if isFlag a then none
    else (divide? known rest).map fun (flags, others) => (flags, a :: others)

/-- A task on the only argument, with the flags before or after it. -/
def onPath? (known : List String) (arguments : List String) (task : List String → Task) :
    Option Command :=
  match divide? known arguments with
  | some (flags, [path]) => some (script (task flags) path)
  | _ => none

/-- A dialogue, which takes no argument. -/
def onNothing? (arguments : List String) (start : Dialogue) : Option Command :=
  match divide? [] arguments with
  | some ([], []) => some (dialogue start)
  | _ => none

/-- The flags that write the canonical form back to its file. -/
def writeFlags : List String := ["-w", "--write"]

/-- The flag for an indentation with tabs. -/
def tabsFlag : String := "--tabs"

/-- The command that arguments ask for. -/
def ofArguments? : List String → Option Command
  | "run" :: rest => onPath? [] rest fun _ => .run
  | "fmt" :: rest => onPath? (tabsFlag :: writeFlags) rest fun flags =>
      .layout (flags.any writeFlags.contains) (flags.contains tabsFlag)
  | "ast" :: rest => onPath? [] rest fun _ => .outline
  | "repl" :: rest => onNothing? rest (.running (Session.start default))
  | "rlpl" :: rest => onNothing? rest .listing
  | "rppl" :: rest => onNothing? rest .reading
  | _ => none

end Command

/-! ## Tasks -/

/-- What a task leaves: whether it failed, the text for the output, the text for the error output
    once the time it took is known, and the new content of its file. -/
structure Execution where
  failed : Bool
  output : String
  errors : String → String
  written : Option String

namespace Execution

/-- A task that went well and printed a text. -/
def printed (text : String) : Execution := ⟨false, text, fun _ => "", none⟩

/-- A task that failed. -/
def ofFailure (f : Failure) : Execution := ⟨true, "", fun _ => f.render .none, none⟩

/-- The exit code. -/
def code (e : Execution) : Nat := if e.failed then 1 else 0

end Execution

namespace Task

/-- A line that says what is being done, the verb ending at a fixed column. -/
def progress (verb object : String) : String :=
  String.ofList (List.replicate (11 - verb.length) ' ') ++ verb ++ " " ++ object ++ "\n"

/-- A time in seconds with two places, given in milliseconds. -/
def elapsedText (milliseconds : Nat) : String :=
  let hundredths := (milliseconds + 5) / 10
  let fraction := toString (hundredths % 100)
  toString (hundredths / 100) ++ "." ++ (if fraction.length < 2 then "0" else "") ++ fraction ++ "s"

/-- A value as the last line of the output; null is not shown. -/
def valueLine : Value → String
  | .null => ""
  | v => v.text ++ "\n"

/-- The indentation of canonical texts. -/
def indent (tabs : Bool) : Indent := if tabs then ⟨'\t', 1⟩ else default

/-- Carries out a task on a file, given its bytes or why they could not be read. Nothing is done only
    if the budget is too small. -/
def execute (budget : Nat) (path : String) (file : Except FileFault (List UInt8)) :
    Task → Option Execution
  | run =>
    let parsing := progress "Parsing" path
    match Script.ofFile path file with
    | .error f => some ⟨true, "", fun _ => parsing ++ f.render .none, none⟩
    | .ok script =>
      let running := parsing ++ progress "Running" path
      (script.run budget).map fun
        | (.error f, text) => ⟨true, text, fun _ => running ++ f.render .none, none⟩
        | (.ok v, text) =>
          ⟨false, text ++ valueLine v,
            fun elapsed => running ++ progress "Finished" ("in " ++ elapsed), none⟩
  | layout write tabs =>
    some <| match Script.ofFile path file with
      | .error f => .ofFailure f
      | .ok script =>
        let text := script.program.layout (indent tabs)
        if write then ⟨false, "", fun _ => "", some text⟩ else .printed text
  | outline =>
    some <| match Script.ofFile path file with
      | .error f => .ofFailure f
      | .ok script => .printed (script.program.outline.pretty ++ "\n")

end Task

end Scriptlet
