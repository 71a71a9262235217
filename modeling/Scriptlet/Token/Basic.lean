import Scriptlet.Source.Span
import Scriptlet.Syntax.Operator

/-!
# `Token.Basic` — the words of the language

## Contents
- `Token`: a word; five of its kinds carry text. `Token.kind` forgets the text.
- `Token.name` and `Token.literal`: what a message calls the word, and how it is written.
- `Token.symbols` and `Token.keyword?`: the words with one fixed spelling.
- `Lexeme`: a token with the bytes it covers.
-/

namespace Scriptlet

/-! ## Tokens -/

/-- A word of the language. A binary operator is one kind of token for each operator, the minus sign
    being the subtraction also where it stands before an operand. -/
inductive Token where
  /-- A character that starts no word. -/
  | illegal (text : String)
  /-- The end of the text. -/
  | eof
  | ident (name : String)
  | int (text : String)
  | float (text : String)
  | str (value : String)
  | operator (op : BinaryOp)
  | bang
  | comma
  | semicolon
  | colon
  | leftParen
  | rightParen
  | leftBrace
  | rightBrace
  | leftBracket
  | rightBracket
  | kwFn
  | kwLet
  | kwTrue
  | kwFalse
  | kwIf
  | kwElse
  | kwWhile
  | kwReturn
  /-- Two or more line breaks between two words. -/
  | blankLine
deriving DecidableEq, Repr, Inhabited

namespace Token

/-- The token without the text it carries. -/
def kind : Token → Token
  | illegal _ => illegal ""
  | ident _ => ident ""
  | int _ => int ""
  | float _ => float ""
  | str _ => str ""
  | t => t

@[simp] theorem kind_kind (t : Token) : t.kind.kind = t.kind := by cases t <;> rfl

/-- What messages call the token. -/
def name : Token → String
  | illegal _ => "ILLEGAL"
  | eof => "EOF"
  | ident _ => "IDENT"
  | int _ => "INT"
  | float _ => "FLOAT"
  | str _ => "STRING"
  | operator op => op.text
  | bang => "!"
  | comma => ","
  | semicolon => ";"
  | colon => ":"
  | leftParen => "("
  | rightParen => ")"
  | leftBrace => "\x7b"
  | rightBrace => "\x7d"
  | leftBracket => "["
  | rightBracket => "]"
  | kwFn => "FUNCTION"
  | kwLet => "LET"
  | kwTrue => "TRUE"
  | kwFalse => "FALSE"
  | kwIf => "IF"
  | kwElse => "ELSE"
  | kwWhile => "WHILE"
  | kwReturn => "RETURN"
  | blankLine => "EMPTY_LINE"

/-- The token as written; a string gives its value. -/
def literal : Token → String
  | illegal text | ident text | int text | float text | str text => text
  | eof => ""
  | blankLine => "\n"
  | kwFn => "fn"
  | kwLet => "let"
  | kwTrue => "true"
  | kwFalse => "false"
  | kwIf => "if"
  | kwElse => "else"
  | kwWhile => "while"
  | kwReturn => "return"
  | t => t.name

/-- The name is the same for two tokens of one kind. -/
theorem name_kind (t : Token) : t.kind.name = t.name := by cases t <;> rfl

/-! ## Words with a fixed spelling -/

/-- The keywords with their spelling. -/
def keywords : List (String × Token) :=
  [("fn", kwFn), ("let", kwLet), ("true", kwTrue), ("false", kwFalse), ("if", kwIf),
   ("else", kwElse), ("while", kwWhile), ("return", kwReturn)]

/-- The keyword that a word is. -/
def keyword? (word : String) : Option Token := keywords.lookup word

/-- Operators and punctuation with their spelling, longer spellings before their beginnings. -/
def symbols : List (List Char × Token) :=
  [(['=', '='], operator .equal), (['!', '='], operator .notEqual), (['&', '&'], operator .and),
   (['|', '|'], operator .or), (['*', '*'], operator .pow), (['/', '/'], operator .floorDiv),
   (['<', '='], operator .lessEqual), (['<', '<'], operator .shiftLeft),
   (['>', '='], operator .greaterEqual), (['>', '>'], operator .shiftRight),
   (['='], operator .assign), (['!'], bang), (['*'], operator .mul), (['/'], operator .div),
   (['<'], operator .less), (['>'], operator .greater), (['+'], operator .add),
   (['-'], operator .sub), (['%'], operator .rem), (['^'], operator .bitXor), ([','], comma),
   ([';'], semicolon), ([':'], colon), (['('], leftParen), ([')'], rightParen),
   (['\x7b'], leftBrace), (['\x7d'], rightBrace), (['['], leftBracket), ([']'], rightBracket)]

/-- The symbol that the text starts with, the longest one, with its spelling. -/
def symbol? (cs : List Char) : Option (List Char × Token) :=
  symbols.find? fun (spelling, _) => spelling.isPrefixOf cs

/-- A symbol's spelling starts the text and has one or two characters. -/
theorem symbol?_eq_some {cs spelling : List Char} {t : Token}
    (h : symbol? cs = some (spelling, t)) :
    spelling <+: cs ∧ 0 < spelling.length ∧ spelling.length ≤ 2 := by
  have hmem := List.mem_of_find?_eq_some h
  have hpre : spelling.isPrefixOf cs = true := by
    simpa using List.find?_some h
  have hlen : ∀ p ∈ symbols, 0 < p.1.length ∧ p.1.length ≤ 2 := by decide
  exact ⟨List.isPrefixOf_iff_prefix.mp hpre, hlen _ hmem⟩

/-! ## What the grammar asks of a token -/

/-- The operator that the token is between two operands. -/
def binaryOp? : Token → Option BinaryOp
  | operator op => some op
  | _ => none

/-- The operator that the token is before an operand. -/
def unaryOp? : Token → Option UnaryOp
  | operator .sub => some .neg
  | bang => some .not
  | _ => none

/-- How tightly the token ties what follows it to the expression before it. -/
def precedence : Token → Precedence
  | operator op => op.precedence
  | leftParen | leftBracket => .call
  | _ => .lowest

/-- A token that binds at all opens a call or an index or is a binary operator. -/
theorem binaryOp?_isSome_of_binds {t : Token} (h : Precedence.lowest.rank < t.precedence.rank) :
    t = leftParen ∨ t = leftBracket ∨ t.binaryOp?.isSome := by
  cases t <;> simp_all [precedence, binaryOp?]

/-- What a listing of tokens calls the token; the text it carries is listed apart. -/
def listingName : Token → String
  | illegal _ => "Illegal"
  | eof => "Eof"
  | ident _ => "Ident"
  | int _ => "Int"
  | float _ => "Float"
  | str _ => "Str"
  | operator op => match op with
    | .assign => "Assign"
    | .or => "Or"
    | .and => "And"
    | .equal => "Equal"
    | .notEqual => "NotEqual"
    | .less => "LessThan"
    | .lessEqual => "LessThanOrEqual"
    | .greater => "GreaterThan"
    | .greaterEqual => "GreaterThanOrEqual"
    | .bitXor => "BitXor"
    | .shiftLeft => "LeftShift"
    | .shiftRight => "RightShift"
    | .add => "Plus"
    | .sub => "Minus"
    | .mul => "Asterisk"
    | .div => "Slash"
    | .floorDiv => "DoubleSlash"
    | .rem => "Percent"
    | .pow => "Exponent"
  | bang => "Bang"
  | comma => "Comma"
  | semicolon => "Semicolon"
  | colon => "Colon"
  | leftParen => "LParen"
  | rightParen => "RParen"
  | leftBrace => "LBrace"
  | rightBrace => "RBrace"
  | leftBracket => "LBracket"
  | rightBracket => "RBracket"
  | kwFn => "Function"
  | kwLet => "Let"
  | kwTrue => "True"
  | kwFalse => "False"
  | kwIf => "If"
  | kwElse => "Else"
  | kwWhile => "While"
  | kwReturn => "Return"
  | blankLine => "EmptyLine"

end Token

/-! ## Lexemes -/

/-- A token with the bytes of the text it covers. -/
structure Lexeme where
  start : Nat
  token : Token
  stop : Nat
deriving DecidableEq, Repr, Inhabited

/-- The bytes that the lexeme covers. -/
def Lexeme.span (x : Lexeme) : Span := ⟨x.start, x.stop⟩

/-- The end of a text that has `n` bytes. -/
def Lexeme.endAt (n : Nat) : Lexeme := ⟨n, .eof, n⟩

end Scriptlet
