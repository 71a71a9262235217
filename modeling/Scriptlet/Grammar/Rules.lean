import Scriptlet.Grammar.Rule
import Scriptlet.Numeral.Reading
import Scriptlet.Syntax.Tree

/-!
# `Grammar.Rules` — the rules of the language

Each rule is written over the two rules that nest without end, expressions and blocks. The last part
ties the knot with a budget that every call makes smaller.

An expression starts with an operand. As long as the token after it binds more tightly than the level
asked for, the expression so far becomes the left operand of a call, an index or a binary operation.
A statement that is broken is noted and passed, and reading goes on after it.

## Contents
- Literals and names; arrays, hashes, operations, conditions, loops, functions, calls, indexes.
- `statement` and its kinds; blocks.
- `expression`, `operators`, `block`, `statements`: the recursive ones.
-/

namespace Scriptlet.Grammar

open Rule

/-- Reads an expression whose operators all bind more tightly than a level. -/
abbrev ExprRule := Precedence → Rule Expr

/-! ## Names and literals -/

/-- A name. -/
def name : Rule Ident := do
  let x ← look
  match x.token with
  | .ident text =>
    let _ ← take
    pure ⟨text, x.span⟩
  | t => fail (.unexpected (.token (.ident "")) t.kind) x.span

/-- An integer literal, made of whatever token is in front. -/
def integer : Rule Expr := do
  let x ← take
  match Numeral.readInteger x.token.literal with
  | some value => pure (.int value x.token.literal x.span)
  | none => fail (.badInteger x.token.literal) x.span

/-- A float literal, made of whatever token is in front. -/
def float : Rule Expr := do
  let x ← take
  match Numeral.readFloat x.token.literal with
  | some value => pure (.float value x.token.literal x.span)
  | none => fail (.badFloat x.token.literal) x.span

/-- A truth value; every token but `true` counts as false. -/
def boolean : Rule Expr := do
  let x ← take
  pure (.bool (x.token = .kwTrue) x.span)

/-- A string literal, made of whatever token is in front. -/
def string : Rule Expr := do
  let x ← take
  pure (.str x.token.literal x.span)

/-! ## Expressions over their parts -/

/-- Elements between brackets. -/
def array (expr : ExprRule) (budget : Nat) : Rule Expr := do
  let opening ← expect .leftBracket
  let (elements, stop) ← listOf .rightBracket (expr .lowest) budget
  pure (.array elements ⟨opening.start, stop⟩)

/-- A key, a colon and a value. -/
def entry (expr : ExprRule) : Rule Entry := do
  let key ← expr .lowest
  skipBlankLines
  let _ ← expect .colon
  let value ← expr .lowest
  pure ⟨key, value⟩

/-- Keys with their values between braces. -/
def hash (expr : ExprRule) (budget : Nat) : Rule Expr := do
  let opening ← expect .leftBrace
  let (entries, stop) ← listOf .rightBrace (entry expr) budget
  pure (.hash entries ⟨opening.start, stop⟩)

/-- An operator before its operand. -/
def unary (expr : ExprRule) : Rule Expr := do
  let x ← take
  match x.token.unaryOp? with
  | some op =>
    let operand ← expr .unary
    pure (.unary op operand ⟨x.start, operand.span.stop⟩)
  | none => fail (.noExpression x.token.kind) x.span

/-- A condition, a block and perhaps another one. -/
def cond (expr : ExprRule) (block : Rule Block) : Rule Expr := do
  let opening ← expect .kwIf
  let condition ← expr .lowest
  let consequence ← block
  if (← look).token = .kwElse then
    let _ ← take
    let alternative ← block
    pure (.cond condition consequence (some alternative) ⟨opening.start, alternative.span.stop⟩)
  else pure (.cond condition consequence none ⟨opening.start, consequence.span.stop⟩)

/-- A condition and the block to repeat. -/
def loop (expr : ExprRule) (block : Rule Block) : Rule Expr := do
  let opening ← expect .kwWhile
  let condition ← expr .lowest
  let body ← block
  pure (.loop condition body ⟨opening.start, body.span.stop⟩)

/-- Parameters and the block of a function. -/
def func (block : Rule Block) (budget : Nat) : Rule Expr := do
  let opening ← expect .kwFn
  let _ ← expect .leftParen
  let (parameters, _) ← listOf .rightParen name budget
  let body ← block
  pure (.func parameters body ⟨opening.start, body.span.stop⟩)

/-- An expression in parentheses, which leave no trace in the tree. -/
def group (expr : ExprRule) : Rule Expr := do
  let _ ← take
  let inner ← expr .lowest
  skipBlankLines
  let _ ← expect .rightParen
  pure inner

/-- What an expression can start with. -/
def operand (expr : ExprRule) (block : Rule Block) (budget : Nat) : Rule Expr := do
  let x ← look
  match x.token with
  | .ident _ => return .ident (← name)
  | .int _ => integer
  | .float _ => float
  | .kwTrue | .kwFalse => boolean
  | .str _ => string
  | .bang | .operator .sub => unary expr
  | .leftBracket => array expr budget
  | .leftBrace => hash expr budget
  | .kwIf => cond expr block
  | .kwWhile => loop expr block
  | .kwFn => func block budget
  | .leftParen => group expr
  | t => fail (.noExpression t.kind) x.span

/-- Arguments after what is called. -/
def call (expr : ExprRule) (budget : Nat) (callee : Expr) : Rule Expr := do
  let _ ← expect .leftParen
  let (arguments, stop) ← listOf .rightParen (expr .lowest) budget
  pure (.call callee arguments ⟨callee.span.start, stop⟩)

/-- A position after what is indexed. -/
def index (expr : ExprRule) (target : Expr) : Rule Expr := do
  let _ ← expect .leftBracket
  let position ← expr .lowest
  skipBlankLines
  let closing ← expect .rightBracket
  pure (.index target position ⟨target.span.start, closing.stop⟩)

/-- An operator and its right operand. -/
def binary (expr : ExprRule) (left : Expr) : Rule Expr := do
  let x ← take
  match x.token.binaryOp? with
  | some op =>
    let right ← expr op.rightPrecedence
    pure (.binary left op right (left.span.merge right.span))
  | none => fail (.unexpected .operator x.token.kind) x.span

/-- What the token in front makes of the expression before it. -/
def continuation (expr : ExprRule) (budget : Nat) (left : Expr) : Rule Expr := do
  match (← look).token with
  | .leftParen => call expr budget left
  | .leftBracket => index expr left
  | _ => binary expr left

/-! ## Statements over their parts -/

/-- A name bound to a value. -/
def letStatement (expr : ExprRule) : Rule Stmt := do
  let opening ← expect .kwLet
  let bound ← name
  let _ ← expect (.operator .assign)
  let value ← expr .lowest
  skipOptional .semicolon
  pure (.bind bound value ⟨opening.start, value.span.stop⟩)

/-- A value to leave the function with. -/
def returnStatement (expr : ExprRule) : Rule Stmt := do
  let opening ← expect .kwReturn
  let value ← expr .lowest
  skipOptional .semicolon
  pure (.ret value ⟨opening.start, value.span.stop⟩)

/-- An expression that stands alone. -/
def expressionStatement (expr : ExprRule) : Rule Stmt := do
  let value ← expr .lowest
  skipOptional .semicolon
  pure (.expr value)

/-- A statement. A brace in front opens a block here, not a hash. -/
def statement (expr : ExprRule) (block : Rule Block) : Rule Stmt := do
  let x ← look
  match x.token with
  | .blankLine =>
    let _ ← take
    pure (.blank x.span)
  | .kwLet => letStatement expr
  | .kwReturn => returnStatement expr
  | .leftBrace => return .block (← block)
  | _ => expressionStatement expr

/-- Whether a list of statements ends before the token. -/
def endsStatements (inBlock : Bool) : Token → Bool
  | .eof => true
  | .rightBrace => inBlock
  | _ => false

/-! ## The recursive rules -/

mutual

/-- An expression whose operators bind more tightly than a level. -/
def expression : Nat → ExprRule
  | 0, _ => starve
  | budget + 1, level => do
    skipBlankLines
    let left ← operand (expression budget) (block budget) budget
    operators budget level left

/-- The operators after an expression, as long as they bind more tightly than a level. -/
def operators : Nat → Precedence → Expr → Rule Expr
  | 0, _, _ => starve
  | budget + 1, level, left => do
    if level.rank < (← look).token.precedence.rank then
      let wider ← continuation (expression budget) budget left
      operators budget level wider
    else pure left

/-- Statements between braces. -/
def block : Nat → Rule Block
  | 0 => starve
  | budget + 1 => do
    let opening ← expect .leftBrace
    let body ← statements budget true
    let closing ← expect .rightBrace
    pure ⟨body, ⟨opening.start, closing.stop⟩⟩

/-- Statements up to the end of the text, in a block up to its closing brace. A broken statement is
    noted and passed. -/
def statements : Nat → Bool → Rule (List Stmt)
  | 0, _ => starve
  | budget + 1, inBlock => fun s =>
    if endsStatements inBlock s.current.token then .ok [] s
    else if s.current.token = .semicolon then statements budget inBlock s.step
    else
      match statement (expression budget) (block budget) s with
      | .ok first s' =>
        (do return first :: (← statements budget inBlock)) s'
      | .error e s' => statements budget inBlock ((s'.note e).recover inBlock)
      | .starved => .starved

end

/-- The statements of a whole text. -/
def program (budget : Nat) : Rule Program := do
  let start := (← look).start
  let body ← statements budget false
  let stop := (← look).stop
  pure ⟨body, ⟨start, stop⟩⟩

/-- A budget that no list of `n` lexemes uses up. -/
def budgetFor (n : Nat) : Nat := 8 * (n + 1)

end Scriptlet.Grammar
