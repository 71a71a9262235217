import Scriptlet.Report.Snippet

/-!
# `Report.Basic` — what went wrong, told at length

A report has a title and a text; one that concerns a place in a source shows it between the two.

## Contents
- `Report`, `Report.Location`.
- `Report.render`: the report as text, with or without colours for a terminal.
-/

namespace Scriptlet

/-- A place in a source text and what to say beside it. -/
structure Report.Location where
  path : String
  source : String
  span : Span
  label : String
deriving DecidableEq, Repr

/-- What went wrong. -/
structure Report where
  title : String
  text : String
  location : Option Report.Location
deriving DecidableEq, Repr

namespace Report

/-- How a terminal is told to write. -/
structure Style where
  /-- Before the word that says how grave the report is. -/
  severity : String
  /-- Before the title. -/
  title : String
  /-- After the title. -/
  plain : String

/-- No colours. -/
def Style.none : Style := ⟨"", "", ""⟩

/-- The severity bold and red, the title bold. -/
def Style.colours : Style := ⟨"\x1b[0m\x1b[1m\x1b[31m", "\x1b[0m\x1b[1m", "\x1b[0m"⟩

/-- The report as text, with an empty line at its end. Snippets have no colours. -/
def render (style : Style) (r : Report) : String :=
  let head := match r.location with
    | none => style.severity ++ "error" ++ style.title ++ ": " ++ r.title ++ "\n\n" ++ style.plain
    | some l => "error: " ++ r.title ++ "\n" ++ Snippet.render l.path l.source l.span l.label ++ "\n"
  let body := if r.text.isEmpty then "" else r.text ++ "\n"
  head ++ body ++ "\n"

end Report

end Scriptlet
