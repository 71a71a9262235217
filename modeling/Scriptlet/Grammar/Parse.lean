import Scriptlet.Grammar.Rules
import Scriptlet.Token.Lexer

/-!
# `Grammar.Parse` — from text to tree

A text always gives a program. Statements with a fault are left out of it, and every fault is listed
in the order of the text.
-/

namespace Scriptlet

/-- A program and the faults found on the way. -/
structure Parsed where
  program : Program
  errors : List SyntaxError

/-- What a rule's reply gives as the reading of a whole text. -/
def Reply.toParsed : Reply Program → Parsed
  | .ok program s => ⟨program, s.errors⟩
  | .error e s => ⟨default, s.errors ++ [e]⟩
  | .starved => ⟨default, []⟩

/-- Reads a list of lexemes as a program. -/
def parseLexemes (xs : List Lexeme) : Parsed :=
  (Grammar.program (Grammar.budgetFor xs.length) (State.ofLexemes xs)).toParsed

/-- Reads a text as a program. -/
def parse (source : String) : Parsed := parseLexemes (tokenize source)

end Scriptlet
