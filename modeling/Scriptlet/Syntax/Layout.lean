import Scriptlet.Syntax.Render
import Scriptlet.Syntax.Tree
import Scriptlet.Text.Quoted

/-!
# `Syntax.Layout` — a tree as source in its canonical form

One statement stands on each line and ends in a semicolon, the statements of a block one step further
in than its braces. Parentheses stand only where leaving them out would group the operands another
way. Where blank lines stand between two statements, one is kept.

## Contents
- `Indent`: what a step of indentation is.
- `needsParens`, `isOperation`, `startsWithHash`: where parentheses are kept.
- `trimGaps`: a list of statements with at most one blank line between two. It keeps everything else
  in its order (`filter_trimGaps`).
- `Program.layout`: the canonical text.
-/

namespace Scriptlet

/-- A step of indentation: a character and how often it stands. -/
structure Indent where
  char : Char
  size : Nat
deriving DecidableEq, Repr

/-- Two spaces a step. -/
instance : Inhabited Indent := ⟨' ', 2⟩

/-- The characters before a statement at a depth. -/
def Indent.text (indent : Indent) (depth : Nat) : String :=
  String.ofList (List.replicate (depth * indent.size) indent.char)

/-! ## Parentheses -/

/-- Whether an operand of `parent` has to stand in parentheses: a binary operation that binds less,
    or one of the same level on the side to which `parent` does not group. -/
def needsParens (operand : Expr) (parent : BinaryOp) (onRight : Bool) : Bool :=
  match operand with
  | .binary _ op _ _ =>
    let inner := op.precedence.rank
    let outer := parent.precedence.rank
    inner < outer || (inner = outer && onRight != parent.rightAssociative)
  | _ => false

/-- Whether the expression is an operation, which cannot be called or indexed without
    parentheses. -/
def isOperation : Expr → Bool
  | .binary .. | .unary .. => true
  | _ => false

/-- Whether the operand of a unary operator needs parentheses. -/
def isBinary : Expr → Bool
  | .binary .. => true
  | _ => false

/-- Whether the expression's text starts with the brace of a hash, which would open a block at the
    start of a statement. -/
def startsWithHash : Expr → Bool
  | .hash .. => true
  | .binary left _ _ _ => startsWithHash left
  | .call callee _ _ => startsWithHash callee
  | .index target _ _ => startsWithHash target
  | _ => false

/-- A text in parentheses where they are wanted. -/
def wrapIf (wanted : Bool) (text : String) : String :=
  if wanted then "(" ++ text ++ ")" else text

/-! ## Blank lines -/

/-- A list with its gaps at the end left out and every run of gaps shortened to its last one. -/
def squeezeGaps {α : Type} (isGap : α → Bool) : List α → List α
  | [] => []
  | x :: xs =>
    match isGap x, squeezeGaps isGap xs with
    | true, [] => []
    | true, y :: ys => if isGap y then y :: ys else x :: y :: ys
    | false, ys => x :: ys

/-- A list with no gap at either end and never two in a row. -/
def trimGaps {α : Type} (isGap : α → Bool) (xs : List α) : List α :=
  squeezeGaps isGap (xs.dropWhile isGap)

/-- What is not a gap stays, in its order. -/
theorem filter_squeezeGaps {α : Type} (isGap : α → Bool) (xs : List α) :
    (squeezeGaps isGap xs).filter (!isGap ·) = xs.filter (!isGap ·) := by
  induction xs with
  | nil => rfl
  | cons x xs ih =>
    unfold squeezeGaps
    split
    · next hx h => simp_all
    · next y ys hx h =>
      split <;> simp_all
    · next hx => simp_all

/-- What is not a gap stays, in its order. -/
theorem filter_trimGaps {α : Type} (isGap : α → Bool) (xs : List α) :
    (trimGaps isGap xs).filter (!isGap ·) = xs.filter (!isGap ·) := by
  unfold trimGaps
  rw [filter_squeezeGaps]
  induction xs with
  | nil => rfl
  | cons x xs ih => by_cases hx : isGap x <;> simp [List.dropWhile, hx, ih]

/-! ## The canonical text -/

/-- The lines of statements whose texts are known, `none` standing for a blank line. -/
def linesOf (margin : String) : List (Option String) → String
  | [] => ""
  | none :: rest => "\n" ++ linesOf margin rest
  | some text :: rest => margin ++ text ++ ";\n" ++ linesOf margin rest

mutual

/-- An expression at a depth of blocks. -/
def Expr.layout (indent : Indent) (depth : Nat) : Expr → String
  | .ident name => name.name
  | .int _ spelling _ => spelling
  | .float _ spelling _ => spelling
  | .bool value _ => if value then "true" else "false"
  | .str value _ => Text.quote value
  | .array elements _ => "[" ++ String.intercalate ", " (Expr.layoutList indent depth elements) ++ "]"
  | .hash entries _ => "\x7b" ++ String.intercalate ", " (Entry.layoutList indent depth entries) ++ "\x7d"
  | .unary op operand _ =>
    op.text ++ wrapIf (isBinary operand) (operand.layout indent depth)
  | .binary left op right _ =>
    wrapIf (needsParens left op false) (left.layout indent depth) ++ " " ++ op.text ++ " "
      ++ wrapIf (needsParens right op true) (right.layout indent depth)
  | .cond condition consequence alternative _ =>
    "if (" ++ condition.layout indent depth ++ ") " ++ consequence.layout indent depth
      ++ Block.layoutElse indent depth alternative
  | .loop condition body _ =>
    "while (" ++ condition.layout indent depth ++ ") " ++ body.layout indent depth
  | .func parameters body _ => renderParameters parameters ++ body.layout indent depth
  | .call callee arguments _ =>
    wrapIf (isOperation callee) (callee.layout indent depth) ++ "("
      ++ String.intercalate ", " (Expr.layoutList indent depth arguments) ++ ")"
  | .index target position _ =>
    wrapIf (isOperation target) (target.layout indent depth) ++ "["
      ++ position.layout indent depth ++ "]"

/-- The texts of several expressions. -/
def Expr.layoutList (indent : Indent) (depth : Nat) : List Expr → List String
  | [] => []
  | e :: es => e.layout indent depth :: Expr.layoutList indent depth es

/-- A key, a colon and a space, and its value. -/
def Entry.layout (indent : Indent) (depth : Nat) : Entry → String
  | ⟨key, value⟩ => key.layout indent depth ++ ": " ++ value.layout indent depth

/-- The texts of several entries. -/
def Entry.layoutList (indent : Indent) (depth : Nat) : List Entry → List String
  | [] => []
  | p :: ps => p.layout indent depth :: Entry.layoutList indent depth ps

/-- The part of a condition after its consequence. -/
def Block.layoutElse (indent : Indent) (depth : Nat) : Option Block → String
  | none => ""
  | some body => " else " ++ body.layout indent depth

/-- A statement without its indentation and its semicolon; nothing for a blank line. -/
def Stmt.layout? (indent : Indent) (depth : Nat) : Stmt → Option String
  | .bind name value _ => some ("let " ++ name.name ++ " = " ++ value.layout indent depth)
  | .ret value _ => some ("return " ++ value.layout indent depth)
  | .expr value => some (wrapIf (startsWithHash value) (value.layout indent depth))
  | .block body => some (body.layout indent depth)
  | .blank _ => none

/-- The texts of several statements, nothing for blank lines. -/
def Stmt.layoutList (indent : Indent) (depth : Nat) : List Stmt → List (Option String)
  | [] => []
  | s :: ss => s.layout? indent depth :: Stmt.layoutList indent depth ss

/-- A block: its braces alone where it has no statement, else a line for each one. -/
def Block.layout (indent : Indent) (depth : Nat) : Block → String
  | ⟨statements, _⟩ =>
    match trimGaps Option.isNone (Stmt.layoutList indent (depth + 1) statements) with
    | [] => "\x7b\x7d"
    | lines =>
      "\x7b\n" ++ linesOf (indent.text (depth + 1)) lines ++ indent.text depth ++ "\x7d"

end

/-- The canonical text of a program. -/
def Program.layout (indent : Indent) (p : Program) : String :=
  linesOf (indent.text 0) (trimGaps Option.isNone (Stmt.layoutList indent 0 p.statements))

end Scriptlet
