import Scriptlet.Session
import Scriptlet.Source.Lines

/-!
# `CommandLine.Dialogue` — lines that are answered one by one

A dialogue prompts for a line, answers it, and goes on until the line that ends it or the end of the
input. There is one that runs its lines, one that lists their tokens and one that shows their trees.

## Contents
- `Dialogue`, `Dialogue.reply`: what a dialogue does with a line.
- `Dialogue.transcript`: all that a dialogue prints for an input.
-/

namespace Scriptlet

/-- A dialogue, with what it remembers. -/
inductive Dialogue where
  /-- Runs every line in one session. -/
  | running (session : Session)
  /-- Lists the tokens of every line. -/
  | listing
  /-- Shows the tree of every line as one-line source. -/
  | reading

/-- What a line is answered, and the dialogue after it unless it is over. -/
structure Turn where
  output : String
  next : Option Dialogue

namespace Dialogue

/-- Printed before every line. -/
def prompt : String := ">> "

/-- A line without the line break at its end. -/
def content (line : String) : String :=
  let dropLast (mark : Char) (cs : List Char) : List Char :=
    if cs.getLast? = some mark then cs.dropLast else cs
  String.ofList (dropLast '\r' (dropLast '\n' line.toList))

/-! ## Answers -/

/-- A text with every line but the first one behind a tab. -/
def hanging (s : String) : String :=
  String.ofList (s.toList.flatMap fun c => if c = '\n' then ['\n', '\t'] else [c])

/-- The answer of a session as a line. -/
def responseLine (r : Response) : String :=
  match r.kind with
  | .faults => "Woops! Parser errors:\n\t" ++ hanging r.value ++ "\n"
  | _ => r.value ++ "\n"

/-- A token as listings show it: what it is called, and the text that it carries. -/
def tokenText (t : Token) : String :=
  match t with
  | .illegal text | .ident text | .int text | .float text | .str text =>
    t.listingName ++ "(" ++ Text.escaped text ++ ")"
  | _ => t.listingName

/-- The tokens of a text, one a line. -/
def tokenLines (source : String) : String :=
  String.join ((tokenize source).map fun x => "[" ++ x.span.text ++ "] " ++ tokenText x.token ++ "\n")

/-- A fault as a line, its explanation on lines of their own. -/
def faultLine (e : SyntaxError) : String :=
  "[at " ++ toString e.span.start ++ "] Parse error: " ++ e.fault.label ++ ".\n\t"
    ++ String.intercalate ";\n\t" e.fault.notes ++ "\n"

/-- The tree of a text as one-line source, or its faults. -/
def treeLines (source : String) : String :=
  let p := parse source
  if p.errors.isEmpty then p.program.render ++ "\n" else String.join (p.errors.map faultLine)

/-- Answers a line. Nothing is answered only if the budget is too small. -/
def reply (budget : Nat) (line : String) (d : Dialogue) : Option Turn :=
  match content line with
  | "" => some ⟨"", some d⟩
  | ".exit" => some ⟨"", none⟩
  | source =>
    match d with
    | running session =>
      if source = ".reset" then some ⟨"", some (running session.reset)⟩
      else (session.run budget source).map fun (r, after) =>
        let (printed, store) := after.store.takeOutput
        ⟨printed ++ responseLine r, some (running { after with store := store })⟩
    | listing => some ⟨tokenLines source, some d⟩
    | reading => some ⟨treeLines source, some d⟩

/-- Printed at the end of the input. -/
def farewell : Dialogue → String
  | running _ => "\n"
  | _ => ""

/-! ## A whole dialogue -/

/-- The lines of an input, each with its line break. -/
def inputLines (input : String) : List String :=
  (((Line.ofSource input).map Line.chars).filter (!·.isEmpty)).map String.ofList

/-- All that is printed for the lines of an input. -/
def transcript (budget : Nat) : Dialogue → List String → Option String
  | d, [] => some (prompt ++ d.farewell)
  | d, line :: lines =>
    (d.reply budget line).bind fun turn =>
      match turn.next with
      | none => some (prompt ++ turn.output)
      | some after => (transcript budget after lines).map fun rest => prompt ++ turn.output ++ rest

end Dialogue

end Scriptlet
