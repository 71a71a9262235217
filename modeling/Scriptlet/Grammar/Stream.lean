import Scriptlet.Grammar.Parse
import Scriptlet.Token.Reader

/-!
# `Grammar.Stream` — a program from characters that are drawn one by one

The grammar looks two lexemes ahead, so a source is drawn as far as those lexemes need it. What was
not drawn when the program was complete is part of the result. The draws of a source come with their
positions (`parseDraws`); a stream of characters alone has them counted (`parseStream`).
-/

namespace Scriptlet

/-- A program with its faults, and the draws that were not made for it. -/
structure StreamParsed extends Parsed where
  undrawn : List PlacedDraw

/-- The lexemes that a rule left. -/
def Reply.rest {α : Type} : Reply α → List Lexeme
  | .ok _ s => s.rest
  | .error _ s => s.rest
  | .starved => []

/-- Reads a source of draws, each with its position, as a program. -/
def parseDraws (source : List PlacedDraw) : StreamParsed :=
  let readings := readLexemes source
  let reply := Grammar.program (Grammar.budgetFor readings.length)
    (State.ofLexemes (readings.map Prod.fst))
  let taken := readings.length - reply.rest.length
  let seen := readings.take (taken + 2)
  { toParsed := reply.toParsed
    undrawn := ((seen.getLast?.map Prod.snd).getD (Reader.ofDraws source)).undrawn }

/-- Reads a source of draws as a program. Positions are counted while characters are drawn. -/
def parseStream (source : List (Option Char)) : StreamParsed := parseDraws (counted 0 source)

end Scriptlet
