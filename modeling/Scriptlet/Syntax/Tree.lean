import Scriptlet.Source.Span
import Scriptlet.Syntax.Operator

/-!
# `Syntax.Tree` — programs as trees

Every node knows the span of the source it was read from. Number literals also keep their spelling,
because writing a program gives each number back as it was spelled. Blank lines between statements are
statements of their own, so that writing can keep them.

## Contents
- `Ident`, `Expr`, `Entry`, `Stmt`, `Block`, `Program`: the nodes.
- `Expr.span`, `Stmt.span`: where a node stands.
- `Expr.same`, `Block.same`: equality of trees, spans and spellings included. Floats are compared as
  numbers.
-/

namespace Scriptlet

/-! ## Nodes -/

/-- A name where it is written. -/
structure Ident where
  name : String
  span : Span
deriving DecidableEq, Repr, Inhabited

mutual

/-- An expression. -/
inductive Expr where
  | ident (name : Ident)
  | int (value : Int64) (spelling : String) (span : Span)
  | float (value : Float) (spelling : String) (span : Span)
  | bool (value : Bool) (span : Span)
  | str (value : String) (span : Span)
  | array (elements : List Expr) (span : Span)
  | hash (entries : List Entry) (span : Span)
  | unary (op : UnaryOp) (operand : Expr) (span : Span)
  | binary (left : Expr) (op : BinaryOp) (right : Expr) (span : Span)
  | cond (condition : Expr) (consequence : Block) (alternative : Option Block) (span : Span)
  | loop (condition : Expr) (body : Block) (span : Span)
  | func (parameters : List Ident) (body : Block) (span : Span)
  | call (callee : Expr) (arguments : List Expr) (span : Span)
  | index (target : Expr) (position : Expr) (span : Span)

/-- A key and its value in a hash literal. -/
structure Entry where
  key : Expr
  value : Expr

/-- A statement. -/
inductive Stmt where
  | bind (name : Ident) (value : Expr) (span : Span)
  | ret (value : Expr) (span : Span)
  | expr (value : Expr)
  | block (body : Block)
  | blank (span : Span)

/-- Statements between braces. -/
structure Block where
  statements : List Stmt
  span : Span

end

instance : Inhabited Expr := ⟨.bool false default⟩
instance : Inhabited Stmt := ⟨.blank default⟩
instance : Inhabited Block := ⟨⟨[], default⟩⟩

/-- The statements of a whole text. -/
structure Program where
  statements : List Stmt
  span : Span

instance : Inhabited Program := ⟨⟨[], ⟨0, 0⟩⟩⟩

/-! ## Places -/

/-- Where the expression stands. -/
def Expr.span : Expr → Span
  | .ident name => name.span
  | .int _ _ s | .float _ _ s | .bool _ s | .str _ s | .array _ s | .hash _ s | .unary _ _ s
  | .binary _ _ _ s | .cond _ _ _ s | .loop _ _ s | .func _ _ s | .call _ _ s | .index _ _ s => s

/-- Where the statement stands. -/
def Stmt.span : Stmt → Span
  | .bind _ _ s | .ret _ s | .blank s => s
  | .expr e => e.span
  | .block b => b.span

/-- Whether the statement stands for a blank line. -/
def Stmt.isBlank : Stmt → Bool
  | .blank _ => true
  | _ => false

/-! ## Equality -/

mutual

/-- Whether two expressions are the same tree at the same place. -/
def Expr.same : Expr → Expr → Bool
  | .ident a, .ident b => a = b
  | .int v t s, .int v' t' s' => v = v' && t = t' && s = s'
  | .float v t s, .float v' t' s' => v == v' && t = t' && s = s'
  | .bool v s, .bool v' s' => v = v' && s = s'
  | .str v s, .str v' s' => v = v' && s = s'
  | .array es s, .array es' s' => Expr.sameList es es' && s = s'
  | .hash ps s, .hash ps' s' => Entry.sameList ps ps' && s = s'
  | .unary op e s, .unary op' e' s' => op = op' && e.same e' && s = s'
  | .binary l op r s, .binary l' op' r' s' => op = op' && l.same l' && r.same r' && s = s'
  | .cond c t e s, .cond c' t' e' s' =>
    c.same c' && t.same t' && Block.sameOption e e' && s = s'
  | .loop c b s, .loop c' b' s' => c.same c' && b.same b' && s = s'
  | .func ps b s, .func ps' b' s' => ps = ps' && b.same b' && s = s'
  | .call f es s, .call f' es' s' => f.same f' && Expr.sameList es es' && s = s'
  | .index e i s, .index e' i' s' => e.same e' && i.same i' && s = s'
  | _, _ => false

/-- Whether expressions are the same one by one. -/
def Expr.sameList : List Expr → List Expr → Bool
  | [], [] => true
  | e :: es, e' :: es' => e.same e' && Expr.sameList es es'
  | _, _ => false

/-- Whether two entries have the same key and the same value. -/
def Entry.same : Entry → Entry → Bool
  | ⟨k, v⟩, ⟨k', v'⟩ => k.same k' && v.same v'

/-- Whether entries are the same one by one. -/
def Entry.sameList : List Entry → List Entry → Bool
  | [], [] => true
  | p :: ps, p' :: ps' => p.same p' && Entry.sameList ps ps'
  | _, _ => false

/-- Whether two blocks are the same or both missing. -/
def Block.sameOption : Option Block → Option Block → Bool
  | none, none => true
  | some b, some b' => b.same b'
  | _, _ => false

/-- Whether two statements are the same tree at the same place. -/
def Stmt.same : Stmt → Stmt → Bool
  | .bind n v s, .bind n' v' s' => n = n' && v.same v' && s = s'
  | .ret v s, .ret v' s' => v.same v' && s = s'
  | .expr v, .expr v' => v.same v'
  | .block b, .block b' => b.same b'
  | .blank s, .blank s' => s = s'
  | _, _ => false

/-- Whether statements are the same one by one. -/
def Stmt.sameList : List Stmt → List Stmt → Bool
  | [], [] => true
  | a :: as, b :: bs => a.same b && Stmt.sameList as bs
  | _, _ => false

/-- Whether two blocks are the same tree at the same place. -/
def Block.same : Block → Block → Bool
  | ⟨ss, s⟩, ⟨ss', s'⟩ => Stmt.sameList ss ss' && s = s'

end

end Scriptlet
