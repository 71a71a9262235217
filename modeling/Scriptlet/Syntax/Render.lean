import Scriptlet.Syntax.Tree
import Scriptlet.Text.Quoted

/-!
# `Syntax.Render` — a tree as source on one line

Each operation stands in its own parentheses, so the text shows the grouping; blank lines are left
out. This is also how a function value is shown. A program has a line for each of its statements.
-/

namespace Scriptlet

/-- A parameter list between its parentheses. -/
def renderParameters (parameters : List Ident) : String :=
  "fn(" ++ String.intercalate ", " (parameters.map Ident.name) ++ ") "

mutual

/-- An expression with every operation in parentheses. -/
def Expr.render : Expr → String
  | .ident name => name.name
  | .int _ spelling _ => spelling
  | .float _ spelling _ => spelling
  | .bool value _ => if value then "true" else "false"
  | .str value _ => Text.quote value
  | .array elements _ => "[" ++ String.intercalate ", " (Expr.renderList elements) ++ "]"
  | .hash entries _ => "\x7b" ++ String.intercalate ", " (Entry.renderList entries) ++ "\x7d"
  | .unary op operand _ => "(" ++ op.text ++ operand.render ++ ")"
  | .binary left op right _ =>
    "(" ++ left.render ++ " " ++ op.text ++ " " ++ right.render ++ ")"
  | .cond condition consequence alternative _ =>
    "if " ++ condition.render ++ " " ++ consequence.render ++ Block.renderElse alternative
  | .loop condition body _ => "while " ++ condition.render ++ " " ++ body.render
  | .func parameters body _ => renderParameters parameters ++ body.render
  | .call callee arguments _ =>
    callee.render ++ "(" ++ String.intercalate ", " (Expr.renderList arguments) ++ ")"
  | .index target position _ => "(" ++ target.render ++ "[" ++ position.render ++ "])"

/-- The texts of several expressions. -/
def Expr.renderList : List Expr → List String
  | [] => []
  | e :: es => e.render :: Expr.renderList es

/-- A key, a colon and a space, and its value. -/
def Entry.render : Entry → String
  | ⟨key, value⟩ => key.render ++ ": " ++ value.render

/-- The texts of several entries. -/
def Entry.renderList : List Entry → List String
  | [] => []
  | p :: ps => p.render :: Entry.renderList ps

/-- The part of a condition after its consequence. -/
def Block.renderElse : Option Block → String
  | none => ""
  | some body => " else " ++ body.render

/-- A statement; a blank line has no text. -/
def Stmt.render : Stmt → String
  | .bind name value _ => "let " ++ name.name ++ " = " ++ value.render ++ ";"
  | .ret value _ => "return " ++ value.render ++ ";"
  | .expr value => value.render
  | .block body => body.render
  | .blank _ => ""

/-- The texts of the statements that are not blank lines. -/
def Stmt.renderList : List Stmt → List String
  | [] => []
  | s :: ss => if s.isBlank then Stmt.renderList ss else s.render :: Stmt.renderList ss

/-- A block with its braces on the same line. -/
def Block.render : Block → String
  | ⟨statements, _⟩ =>
    match Stmt.renderList statements with
    | [] => "\x7b \x7d"
    | texts => "\x7b " ++ String.intercalate " " texts ++ " \x7d"

end

/-- A program with a line for each statement. -/
def Program.render (p : Program) : String := String.intercalate "\n" (Stmt.renderList p.statements)

/-- A function as it is written: its parameters and its body. -/
def renderFunction (parameters : List Ident) (body : Block) : String :=
  renderParameters parameters ++ body.render

end Scriptlet
