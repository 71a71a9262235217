import Scriptlet.Eval.Evaluator
import Scriptlet.Grammar.Parse
import Scriptlet.Syntax.Layout
import Scriptlet.Syntax.Outline

/-!
# `Session` — a conversation with the language

A session keeps one frame alive, so that a text can use what earlier ones bound. It answers every text
with a kind and a value, also one with faults.

## Contents
- `Response`: the answer to a text.
- `Session.run`, `Session.layout`, `Session.outline`: what a session does with a text.
- `Session.reset`: a new frame in place of the old one.
-/

namespace Scriptlet

/-- What an answer holds. -/
inductive ResponseKind where
  /-- The messages of the faults. -/
  | faults
  /-- The text of a value. -/
  | value (kind : Kind)
  /-- The text in its canonical form. -/
  | layout
  /-- The tree as JSON. -/
  | outline
deriving DecidableEq, Repr

/-- The name of what an answer holds. -/
def ResponseKind.name : ResponseKind → String
  | faults => "PARSER_ERROR"
  | value kind => kind.name
  | layout => "FORMATTED"
  | outline => "JSON_AST"

/-- The answer to a text. -/
structure Response where
  kind : ResponseKind
  value : String
deriving DecidableEq, Repr

/-- The messages of faults, one a line. -/
def Response.ofErrors (errors : List SyntaxError) : Response :=
  ⟨.faults, String.intercalate "\n" (errors.map SyntaxError.message)⟩

/-- A store, the frame in which texts are run, and the indentation of canonical texts. -/
structure Session where
  store : Store
  root : Nat
  indent : Indent

namespace Session

/-- A session in which nothing is bound. -/
def start (indent : Indent) : Session :=
  let (root, store) := Store.empty.openFrame none
  ⟨store, root, indent⟩

/-- The answer made from the program that a text is. -/
def answer (source : String) (f : Program → Response) : Response :=
  let parsed := parse source
  if parsed.errors.isEmpty then f parsed.program else .ofErrors parsed.errors

/-- Runs a text. Nothing is answered only if the budget is too small. -/
def run (s : Session) (budget : Nat) (source : String) : Option (Response × Session) :=
  let parsed := parse source
  if parsed.errors.isEmpty then
    match (Eval.program budget parsed.program s.root).settle s.store with
    | .done v store => some (⟨.value v.kind, v.text⟩, { s with store := store })
    | _ => none
  else some (.ofErrors parsed.errors, s)

/-- The canonical form of a text. -/
def layout (s : Session) (source : String) : Response :=
  answer source fun p => ⟨.layout, p.layout s.indent⟩

/-- The tree of a text as JSON over several lines. -/
def outline (source : String) : Response :=
  answer source fun p => ⟨.outline, p.outline.pretty⟩

/-- Opens a frame in which nothing is bound, in place of the old one. -/
def reset (s : Session) : Session :=
  let (root, store) := s.store.openFrame none
  { s with store := store, root := root }

/-- The value of a name in the session's frame. -/
def get? (s : Session) (name : String) : Option Value := s.store.get? s.root name

/-- Binds a name in the session's frame. -/
def set (s : Session) (name : String) (v : Value) : Session :=
  { s with store := s.store.set s.root name v }

end Session

end Scriptlet
