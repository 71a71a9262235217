import Scriptlet.Json.Basic
import Scriptlet.Syntax.Tree

/-!
# `Syntax.Outline` — a tree as data

## Contents
- `Program.outline`: the tree as a JSON value. Every node but the program is an object that starts
  with the node's kind; neither spans nor the spelling of numbers are part of it.
- `Program.places`: the kind and the span of every node, parents before children and children from
  left to right.
-/

namespace Scriptlet

/-! ## Kinds -/

/-- What a node is called in listings. -/
inductive NodeKind where
  | program
  | letStatement
  | returnStatement
  | expressionStatement
  | blockStatement
  | emptyStatement
  | identifier
  | integerLiteral
  | floatLiteral
  | boolean
  | stringLiteral
  | arrayLiteral
  | hashLiteral
  | unaryExpression
  | binaryExpression
  | ifExpression
  | whileExpression
  | functionLiteral
  | callExpression
  | indexExpression
deriving DecidableEq, Repr

/-- The kind's name. -/
def NodeKind.name : NodeKind → String
  | .program => "Program"
  | .letStatement => "LetStatement"
  | .returnStatement => "ReturnStatement"
  | .expressionStatement => "ExpressionStatement"
  | .blockStatement => "BlockStatement"
  | .emptyStatement => "EmptyStatement"
  | .identifier => "Identifier"
  | .integerLiteral => "IntegerLiteral"
  | .floatLiteral => "FloatLiteral"
  | .boolean => "Boolean"
  | .stringLiteral => "StringLiteral"
  | .arrayLiteral => "ArrayLiteral"
  | .hashLiteral => "HashLiteral"
  | .unaryExpression => "PrefixExpression"
  | .binaryExpression => "InfixExpression"
  | .ifExpression => "IfExpression"
  | .whileExpression => "WhileExpression"
  | .functionLiteral => "FunctionLiteral"
  | .callExpression => "CallExpression"
  | .indexExpression => "IndexExpression"

/-- The kind of an expression. -/
def Expr.kind : Expr → NodeKind
  | .ident _ => .identifier
  | .int .. => .integerLiteral
  | .float .. => .floatLiteral
  | .bool .. => .boolean
  | .str .. => .stringLiteral
  | .array .. => .arrayLiteral
  | .hash .. => .hashLiteral
  | .unary .. => .unaryExpression
  | .binary .. => .binaryExpression
  | .cond .. => .ifExpression
  | .loop .. => .whileExpression
  | .func .. => .functionLiteral
  | .call .. => .callExpression
  | .index .. => .indexExpression

/-- The kind of a statement. -/
def Stmt.kind : Stmt → NodeKind
  | .bind .. => .letStatement
  | .ret .. => .returnStatement
  | .expr _ => .expressionStatement
  | .block _ => .blockStatement
  | .blank _ => .emptyStatement

/-! ## The tree as JSON -/

/-- The object of a node: its kind and then its parts. -/
def nodeObject (kind : NodeKind) (parts : List Member) : Json :=
  .obj (⟨"Type", .str kind.name⟩ :: parts)

/-- The object of a name. -/
def Ident.outline (name : Ident) : Json := nodeObject .identifier [⟨"Value", .str name.name⟩]

mutual

/-- The object of an expression. -/
def Expr.outline : Expr → Json
  | .ident name => name.outline
  | .int value _ _ => nodeObject .integerLiteral [⟨"Value", .int value.toInt⟩]
  | .float value _ _ => nodeObject .floatLiteral [⟨"Value", .float value⟩]
  | .bool value _ => nodeObject .boolean [⟨"Value", .bool value⟩]
  | .str value _ => nodeObject .stringLiteral [⟨"Value", .str value⟩]
  | .array elements _ =>
    nodeObject .arrayLiteral [⟨"Elements", .arr (Expr.outlineList elements)⟩]
  | .hash entries _ => nodeObject .hashLiteral [⟨"Pairs", .arr (Entry.outlineList entries)⟩]
  | .unary op operand _ =>
    nodeObject .unaryExpression [⟨"Operator", .str op.text⟩, ⟨"Right", operand.outline⟩]
  | .binary left op right _ =>
    nodeObject .binaryExpression
      [⟨"Left", left.outline⟩, ⟨"Operator", .str op.text⟩, ⟨"Right", right.outline⟩]
  | .cond condition consequence alternative _ =>
    nodeObject .ifExpression
      [⟨"Condition", condition.outline⟩, ⟨"Consequence", consequence.outline⟩,
       ⟨"Alternative", Block.outlineOption alternative⟩]
  | .loop condition body _ =>
    nodeObject .whileExpression [⟨"Condition", condition.outline⟩, ⟨"Body", body.outline⟩]
  | .func parameters body _ =>
    nodeObject .functionLiteral
      [⟨"Parameters", .arr (parameters.map Ident.outline)⟩, ⟨"Body", body.outline⟩]
  | .call callee arguments _ =>
    nodeObject .callExpression
      [⟨"Function", callee.outline⟩, ⟨"Arguments", .arr (Expr.outlineList arguments)⟩]
  | .index target position _ =>
    nodeObject .indexExpression [⟨"Left", target.outline⟩, ⟨"Index", position.outline⟩]

/-- The objects of several expressions. -/
def Expr.outlineList : List Expr → List Json
  | [] => []
  | e :: es => e.outline :: Expr.outlineList es

/-- The object of a key and its value, which has no kind of its own. -/
def Entry.outline : Entry → Json
  | ⟨key, value⟩ => .obj [⟨"Key", key.outline⟩, ⟨"Value", value.outline⟩]

/-- The objects of several entries. -/
def Entry.outlineList : List Entry → List Json
  | [] => []
  | p :: ps => p.outline :: Entry.outlineList ps

/-- The object of a block that may be missing. -/
def Block.outlineOption : Option Block → Json
  | none => .null
  | some body => body.outline

/-- The object of a statement. -/
def Stmt.outline : Stmt → Json
  | .bind name value _ =>
    nodeObject .letStatement [⟨"Name", .str name.name⟩, ⟨"Value", value.outline⟩]
  | .ret value _ => nodeObject .returnStatement [⟨"ReturnValue", value.outline⟩]
  | .expr value => nodeObject .expressionStatement [⟨"Expression", value.outline⟩]
  | .block body => body.outline
  | .blank _ => nodeObject .emptyStatement []

/-- The objects of several statements. -/
def Stmt.outlineList : List Stmt → List Json
  | [] => []
  | s :: ss => s.outline :: Stmt.outlineList ss

/-- The object of a block. -/
def Block.outline : Block → Json
  | ⟨statements, _⟩ =>
    nodeObject .blockStatement [⟨"Statements", .arr (Stmt.outlineList statements)⟩]

end

/-- The object of a program. -/
def Program.outline (p : Program) : Json :=
  .obj [⟨"Statements", .arr (Stmt.outlineList p.statements)⟩]

/-! ## Where the nodes stand -/

/-- A node's kind and span. -/
structure Place where
  kind : NodeKind
  span : Span
deriving DecidableEq, Repr

/-- The place of a name. -/
def Ident.place (name : Ident) : Place := ⟨.identifier, name.span⟩

mutual

/-- The places inside an expression, its own first. -/
def Expr.places : Expr → List Place
  | .ident name => [name.place]
  | .int _ _ s => [⟨.integerLiteral, s⟩]
  | .float _ _ s => [⟨.floatLiteral, s⟩]
  | .bool _ s => [⟨.boolean, s⟩]
  | .str _ s => [⟨.stringLiteral, s⟩]
  | .array elements s => ⟨.arrayLiteral, s⟩ :: Expr.placesList elements
  | .hash entries s => ⟨.hashLiteral, s⟩ :: Entry.placesList entries
  | .unary _ operand s => ⟨.unaryExpression, s⟩ :: operand.places
  | .binary left _ right s => ⟨.binaryExpression, s⟩ :: (left.places ++ right.places)
  | .cond condition consequence alternative s =>
    ⟨.ifExpression, s⟩ ::
      (condition.places ++ consequence.places ++ Block.placesOption alternative)
  | .loop condition body s => ⟨.whileExpression, s⟩ :: (condition.places ++ body.places)
  | .func parameters body s =>
    ⟨.functionLiteral, s⟩ :: (parameters.map Ident.place ++ body.places)
  | .call callee arguments s =>
    ⟨.callExpression, s⟩ :: (callee.places ++ Expr.placesList arguments)
  | .index target position s => ⟨.indexExpression, s⟩ :: (target.places ++ position.places)

/-- The places inside several expressions. -/
def Expr.placesList : List Expr → List Place
  | [] => []
  | e :: es => e.places ++ Expr.placesList es

/-- The places of a key and its value. -/
def Entry.places : Entry → List Place
  | ⟨key, value⟩ => key.places ++ value.places

/-- The places inside several entries. -/
def Entry.placesList : List Entry → List Place
  | [] => []
  | p :: ps => p.places ++ Entry.placesList ps

/-- The places inside a block that may be missing. -/
def Block.placesOption : Option Block → List Place
  | none => []
  | some body => body.places

/-- The places inside a statement, its own first. -/
def Stmt.places : Stmt → List Place
  | .bind name value s => ⟨.letStatement, s⟩ :: name.place :: value.places
  | .ret value s => ⟨.returnStatement, s⟩ :: value.places
  | .expr value => ⟨.expressionStatement, value.span⟩ :: value.places
  | .block body => body.places
  | .blank s => [⟨.emptyStatement, s⟩]

/-- The places inside several statements. -/
def Stmt.placesList : List Stmt → List Place
  | [] => []
  | s :: ss => s.places ++ Stmt.placesList ss

/-- The places inside a block, its own first. -/
def Block.places : Block → List Place
  | ⟨statements, s⟩ => ⟨.blockStatement, s⟩ :: Stmt.placesList statements

end

/-- The places inside a program, its own first. -/
def Program.places (p : Program) : List Place :=
  ⟨.program, p.span⟩ :: Stmt.placesList p.statements

end Scriptlet
