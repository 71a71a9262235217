import Scriptlet.Grammar.Fault
import Scriptlet.Report.Basic

/-!
# `Script.Failure` — why a script gave no value

## Contents
- `FileFault`: what a file can fail at.
- `Failure`: why a script gave no value, `Failure.message`: the failure in a few words.
- `Failure.reports`, `Failure.render`: the failure told at length, one report for each fault.
-/

namespace Scriptlet

/-- What a file can fail at. -/
inductive FileFault where
  | notFound
  | permissionDenied
  /-- The file holds bytes that are no text. -/
  | invalidData
  /-- The file ends inside a character. -/
  | unexpectedEnd
  /-- A directory stands where a file should. -/
  | directory
  /-- A file stands where the path needs a directory. -/
  | notDirectory
  | other
deriving DecidableEq, Repr

/-- The fault in words. -/
def FileFault.text : FileFault → String
  | notFound => "entity not found"
  | permissionDenied => "permission denied"
  | invalidData => "invalid data"
  | unexpectedEnd => "unexpected end of file"
  | directory => "is a directory"
  | notDirectory => "not a directory"
  | other => "other error"

/-- Why a script gave no value. -/
inductive Failure where
  /-- The source is no program. -/
  | grammar (path source : String) (errors : List SyntaxError)
  /-- The program stopped, with a cause in words. -/
  | runtime (path message : String)
  /-- The file could not be read or written. -/
  | file (fault : FileFault)
deriving DecidableEq, Repr

namespace Failure

/-- The failure in a few words. -/
def message : Failure → String
  | grammar .. => "failed to parse source code"
  | runtime _ message => "program failed: " ++ message
  | file _ => "IO operation failed"

/-- The report on one fault of a source. -/
def report (path source : String) (e : SyntaxError) : Report where
  title := "Syntax error"
  text := String.intercalate "\n" e.fault.notes
  location := some ⟨path, source, e.span, e.fault.label⟩

/-- The failure told at length. -/
def reports : Failure → List Report
  | grammar path source errors => errors.map (report path source)
  | runtime path message => [⟨"Runtime error in " ++ path, message, none⟩]
  | file fault => [⟨"Standard IO error", fault.text, none⟩]

/-- The reports as text, one after another. -/
def render (style : Report.Style) (f : Failure) : String :=
  String.join (f.reports.map (Report.render style))

end Failure

end Scriptlet
