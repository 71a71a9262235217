import Scriptlet.Eval.Arithmetic
import Scriptlet.Eval.Run

/-!
# `Eval.Evaluator` — running programs

Operands, elements, arguments and statements are run from left to right, each at most once. Blocks
open a frame inside the one they stand in; a call opens one inside the frame in which the function was
made and binds the arguments there. A budget bounds how deep the rules below nest; a run with a larger
budget ends in the same way.

## Contents
- `elements`, `pairs`, `sequence`: lists of expressions, entries and statements, over the rules for
  one.
- `expression`, `block`, `apply`, `repeatWhile`: the recursive rules.
- `statement`, `program`: one statement, and a whole program.
-/

namespace Scriptlet.Eval

open Run

/-- Runs an expression in a frame. -/
abbrev ExprRun := Expr → Nat → Run Value

/-- Runs a block inside a frame. -/
abbrev BlockRun := Block → Nat → Run Value

/-! ## Lists -/

/-- The values of expressions, from left to right. -/
def elements (expr : Expr → Run Value) : List Expr → Run (List Value)
  | [] => pure []
  | e :: es => do
    let v ← expr e
    let vs ← elements expr es
    pure (v :: vs)

/-- Pairs with those of further entries put in; a key and its value are run before they are put. -/
def pairs (expr : Expr → Run Value) (sofar : Pairs) : List Entry → Run Pairs
  | [] => pure sofar
  | ⟨k, v⟩ :: rest => do
    let key ← expr k
    let value ← expr v
    match sofar.insert? key value with
    | some more => pairs expr more rest
    | none => fail (.unhashable key.kind)

/-- The value of the last statement that is not a blank line, `last` if there is none. -/
def sequence (stmt : Stmt → Run Value) (last : Value) : List Stmt → Run Value
  | [] => pure last
  | s :: ss =>
    if s.isBlank then sequence stmt last ss
    else do
      let v ← stmt s
      sequence stmt v ss

/-! ## Statements and expressions over their parts -/

/-- One statement in a frame. Only an expression or a block gives a value other than `null`. -/
def statementWith (expr : ExprRun) (block : BlockRun) (frame : Nat) : Stmt → Run Value
  | .bind name value _ => do
    let v ← expr value frame
    change fun s => (.null, s.set frame name.name v)
  | .ret value _ => do leave (← expr value frame)
  | .expr value => expr value frame
  | .block body => block body frame
  | .blank _ => pure .null

/-- Statements in a frame. -/
def statementsWith (expr : ExprRun) (block : BlockRun) (frame : Nat) (ss : List Stmt) : Run Value :=
  sequence (statementWith expr block frame) .null ss

/-- The value of a name: that of the frame's chain, else a builtin function. -/
def nameValue (frame : Nat) (name : String) : Run Value := do
  match ← look fun s => s.get? frame name with
  | some v => pure v
  | none =>
    match Builtin.ofName? name with
    | some b => pure (.builtin b)
    | none => fail (.unbound name)

/-- A value given to a name that is bound already. What is no name is refused before the value is
    run. -/
def assignment (expr : ExprRun) (frame : Nat) (target value : Expr) : Run Value :=
  match target with
  | .ident name => do
    let v ← expr value frame
    fun s =>
      match s.holder? frame name.name with
      | some j => .done v (s.set j name.name v)
      | none => .failed (.unbound name.name) s
  | _ => fail (.badTarget target.render)

/-- An operator between two operands. *And* and *or* run the second one only if it matters, and give
    a truth value. -/
def operation (expr : ExprRun) (frame : Nat) (left : Expr) (op : BinaryOp) (right : Expr) :
    Run Value :=
  match op with
  | .assign => assignment expr frame left right
  | .and => do
    if (← expr left frame).isTruthy then pure (.bool (← expr right frame).isTruthy)
    else pure (.bool false)
  | .or => do
    if (← expr left frame).isTruthy then pure (.bool true)
    else pure (.bool (← expr right frame).isTruthy)
  | op => do
    let v ← expr left frame
    let w ← expr right frame
    ofExcept (applyBinary op v w)

/-- The element of an array at a position or the value of a hash's key, `null` where there is
    none. -/
def indexValue (target position : Value) : Run Value :=
  match target, position with
  | .array _ vs, .int i => pure (((element? i vs.length).bind (vs[·]?)).getD .null)
  | .hash _ ps, key =>
    match ps.find? key with
    | some found => pure ((found.map Pair.value).getD .null)
    | none => fail (.unhashable key.kind)
  | v, w => fail (.notIndexable v.kind w.kind)

/-! ## The recursive rules -/

mutual

/-- The value of an expression in a frame. -/
def expression : Nat → ExprRun
  | 0, _, _ => starve
  | budget + 1, e, frame =>
    match e with
    | .ident name => nameValue frame name.name
    | .int value _ _ => pure (.int value)
    | .float value _ _ => pure (.float value)
    | .bool value _ => pure (.bool value)
    | .str value _ => pure (.str value)
    | .array es _ => do
      let vs ← elements (expression budget · frame) es
      change fun s => s.makeArray vs
    | .hash es _ => do
      let ps ← pairs (expression budget · frame) .empty es
      change fun s => s.makeHash ps
    | .unary op operand _ => do
      let v ← expression budget operand frame
      ofExcept (applyUnary op v)
    | .binary left op right _ => operation (expression budget) frame left op right
    | .cond condition consequence alternative _ => do
      let v ← expression budget condition frame
      if v.isTruthy then block budget consequence frame
      else
        match alternative with
        | some body => block budget body frame
        | none => pure .null
    | .loop condition body _ => repeatWhile budget condition body frame
    | .func parameters body _ =>
      fun s => .done (.func s.fresh parameters body frame) { s with fresh := s.fresh + 1 }
    | .call callee arguments _ => do
      let f ← expression budget callee frame
      let args ← elements (expression budget · frame) arguments
      apply budget f args
    | .index target position _ => do
      let v ← expression budget target frame
      let w ← expression budget position frame
      indexValue v w

/-- The value of a block, which opens a frame inside the one it stands in. -/
def block : Nat → BlockRun
  | 0, _, _ => starve
  | budget + 1, body, frame => do
    let scope ← change fun s => s.openFrame (some frame)
    statementsWith (expression budget) (block budget) scope body.statements

/-- The value of a call. -/
def apply : Nat → Value → List Value → Run Value
  | 0, _, _ => starve
  | budget + 1, f, args =>
    match f with
    | .func _ parameters body frame =>
      if parameters.length = args.length then do
        let scope ← change fun s => s.openFrame (some frame)
        change fun s => ((), s.setAll scope ((parameters.map Ident.name).zip args))
        call (statementsWith (expression budget) (block budget) scope body.statements)
      else fail (.argumentCount parameters.length args.length)
    | .builtin b => do
      let answer ← ofExcept (b.answer args)
      change fun s => s.make answer
    | v => fail (.notCallable v.kind)

/-- Runs a block as long as a condition holds. -/
def repeatWhile : Nat → Expr → Block → Nat → Run Value
  | 0, _, _, _ => starve
  | budget + 1, condition, body, frame => do
    let v ← expression budget condition frame
    if v.isTruthy then
      let _ ← block budget body frame
      repeatWhile budget condition body frame
    else pure .null

end

/-- The value of a statement in a frame. -/
def statement (budget : Nat) (s : Stmt) (frame : Nat) : Run Value :=
  statementWith (expression budget) (block budget) frame s

/-- The value of statements in a frame. -/
def statements (budget : Nat) (ss : List Stmt) (frame : Nat) : Run Value :=
  statementsWith (expression budget) (block budget) frame ss

/-- The value of a program in a frame. It can be left like a function. -/
def program (budget : Nat) (p : Program) (frame : Nat) : Run Value :=
  call (statements budget p.statements frame)

end Scriptlet.Eval
