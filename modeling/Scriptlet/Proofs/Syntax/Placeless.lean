import Scriptlet.Proofs.Syntax.Normal

/-!
# `Proofs.Syntax.Placeless` — trees without their places

A tree that is read again from lexemes at other places differs from the first one in its spans alone.
Unlike a normal form (`Expr.normal`), a tree without its places keeps every blank line.

## Contents
- `Expr.placeless`, `Stmt.placeless`, `Block.placeless`, `Program.placeless`.
- `Expr.placelessList_eq`, `Entry.placelessList_eq`: lists are mapped one by one.
-/

namespace Scriptlet

mutual

/-- The expression with no span in it. -/
def Expr.placeless : Expr → Expr
  | .ident name => .ident name.normal
  | .int value spelling _ => .int value spelling .none
  | .float value spelling _ => .float value spelling .none
  | .bool value _ => .bool value .none
  | .str value _ => .str value .none
  | .array elements _ => .array (Expr.placelessList elements) .none
  | .hash entries _ => .hash (Entry.placelessList entries) .none
  | .unary op operand _ => .unary op operand.placeless .none
  | .binary left op right _ => .binary left.placeless op right.placeless .none
  | .cond condition consequence alternative _ =>
    .cond condition.placeless consequence.placeless (Block.placelessOption alternative) .none
  | .loop condition body _ => .loop condition.placeless body.placeless .none
  | .func parameters body _ => .func (parameters.map Ident.normal) body.placeless .none
  | .call callee arguments _ => .call callee.placeless (Expr.placelessList arguments) .none
  | .index target position _ => .index target.placeless position.placeless .none

/-- Expressions with no span in them. -/
def Expr.placelessList : List Expr → List Expr
  | [] => []
  | e :: es => e.placeless :: Expr.placelessList es

/-- The entry with no span in it. -/
def Entry.placeless : Entry → Entry
  | ⟨key, value⟩ => ⟨key.placeless, value.placeless⟩

/-- Entries with no span in them. -/
def Entry.placelessList : List Entry → List Entry
  | [] => []
  | p :: ps => p.placeless :: Entry.placelessList ps

/-- The block with no span in it, if there is one. -/
def Block.placelessOption : Option Block → Option Block
  | none => none
  | some b => some b.placeless

/-- The statement with no span in it. -/
def Stmt.placeless : Stmt → Stmt
  | .bind name value _ => .bind name.normal value.placeless .none
  | .ret value _ => .ret value.placeless .none
  | .expr value => .expr value.placeless
  | .block body => .block body.placeless
  | .blank _ => .blank .none

/-- Statements with no span in them. -/
def Stmt.placelessList : List Stmt → List Stmt
  | [] => []
  | s :: ss => s.placeless :: Stmt.placelessList ss

/-- The block with no span in it. Blank lines stay as they are. -/
def Block.placeless : Block → Block
  | ⟨statements, _⟩ => ⟨Stmt.placelessList statements, .none⟩

end

/-- The program with no span in it. -/
def Program.placeless (p : Program) : Program := ⟨Stmt.placelessList p.statements, .none⟩

theorem Expr.placelessList_eq (es : List Expr) :
    Expr.placelessList es = es.map Expr.placeless := by
  induction es with
  | nil => rfl
  | cons e es ih => exact congrArg (e.placeless :: ·) ih

theorem Entry.placelessList_eq (ps : List Entry) :
    Entry.placelessList ps = ps.map Entry.placeless := by
  induction ps with
  | nil => rfl
  | cons p ps ih => exact congrArg (p.placeless :: ·) ih

end Scriptlet
