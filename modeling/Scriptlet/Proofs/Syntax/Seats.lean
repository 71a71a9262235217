import Scriptlet.Proofs.Syntax.Grouping
import Scriptlet.Proofs.Syntax.Nodes
import Scriptlet.Proofs.Syntax.Words

/-!
# `Proofs.Syntax.Seats` — operands and the operations around them

An operand stands in one of five seats: behind an operator, on the left or on the right of one, in
front of arguments, or in front of a position. A seat knows everything of the operation but this one
operand, so the text of the operation can be written with parentheses around it and without.

## Contents
- `Seat`, `Seat.fill`: an operation without one of its operands, and with it.
- `Seat.encloses`, `Seat.layout`, `Seat.words`: whether the canonical form encloses the operand, and
  what it writes around the operand's own text.
- `Seat.Fits`, `Seat.encloses_eq_false_iff`: the operands that stand in a seat without parentheses, by
  their heads and tails.
- `Seat.layout_readAs`: the text around an operand is read as the words around it.
- `Node.Spelled`, `Node.Under.spelled`: spellings are those of all nodes below.
-/

namespace Scriptlet

/-- An operation without one of its operands. -/
inductive Seat where
  | operand (op : UnaryOp) (span : Span)
  | left (op : BinaryOp) (right : Expr) (span : Span)
  | right (left : Expr) (op : BinaryOp) (span : Span)
  | callee (arguments : List Expr) (span : Span)
  | target (position : Expr) (span : Span)

namespace Seat

/-- The operation with its operand. -/
def fill : Seat → Expr → Expr
  | operand op span, x => .unary op x span
  | left op r span, x => .binary x op r span
  | right l op span, x => .binary l op x span
  | callee arguments span, x => .call x arguments span
  | target position span, x => .index x position span

/-- Whether the canonical form encloses the operand in parentheses. -/
def encloses : Seat → Expr → Bool
  | operand .., x => isBinary x
  | left op .., x => needsParens x op false
  | right _ op _, x => needsParens x op true
  | callee .., x | target .., x => isOperation x

/-- The canonical text of the operation, the operand's part of it being given. -/
def layout (indent : Indent) (depth : Nat) : Seat → String → String
  | operand op _, text => op.text ++ text
  | left op r _, text =>
    text ++ " " ++ op.text ++ " " ++ wrapIf (needsParens r op true) (r.layout indent depth)
  | right l op _, text =>
    wrapIf (needsParens l op false) (l.layout indent depth) ++ " " ++ op.text ++ " " ++ text
  | callee arguments _, text =>
    text ++ "(" ++ String.intercalate ", " (Expr.layoutList indent depth arguments) ++ ")"
  | target position _, text => text ++ "[" ++ position.layout indent depth ++ "]"

/-- The words of the operation, the operand's among them being given. -/
def words : Seat → List Token → List Token
  | operand op _, ts => [op.token] ++ ts
  | left op r _, ts => ts ++ [.operator op] ++ wrapWords (needsParens r op true) r.words
  | right l op _, ts => wrapWords (needsParens l op false) l.words ++ [.operator op] ++ ts
  | callee arguments _, ts =>
    ts ++ [.leftParen] ++ commaWords (Expr.wordsList arguments) ++ [.rightParen]
  | target position _, ts => ts ++ [.leftBracket] ++ position.words ++ [.rightBracket]

/-- What an expression without parentheses needs in the seat: to be out of reach of the operator on
    one side or on the other, or to be closed. -/
def Fits : Seat → (head tail : Nat) → Prop
  | operand .., head, _ => Precedence.unary.rank < head
  | left op .., head, tail => op.precedence.rank ≤ head ∧ op.precedence.rank ≤ tail
  | right _ op _, head, _ => op.rightPrecedence.rank < head
  | callee .., head, tail | target .., head, tail =>
    Precedence.call.rank ≤ head ∧ Precedence.call.rank ≤ tail

theorem Fits.mono {seat : Seat} {head tail tail' : Nat} (h : seat.Fits head tail)
    (htail : tail ≤ tail') : seat.Fits head tail' := by
  cases seat with
  | operand | right => exact h
  | left | callee | target => exact ⟨h.1, Nat.le_trans h.2 htail⟩

/-- The canonical form leaves out the parentheses of those operands that stand in the seat without
    them. -/
theorem encloses_eq_false_iff (seat : Seat) (x : Expr) :
    seat.encloses x = false ↔ seat.Fits x.head x.tail := by
  cases seat with
  | operand => exact Expr.isBinary_eq_false_iff x
  | left op => exact Expr.needsParens_left_iff x op
  | right _ op => exact Expr.needsParens_right_iff x op
  | callee | target => exact Expr.isOperation_eq_false_iff x

/-- What the canonical form encloses is an operation. -/
theorem isOperation_of_encloses {seat : Seat} {x : Expr} (h : seat.encloses x = true) :
    isOperation x = true := by
  cases x with
  | binary | unary => rfl
  | ident | int | float | bool | str | array | hash | cond | loop | func | call | index =>
    cases seat <;> cases h

section Texts

variable (seat : Seat) (x : Expr)

theorem layout_fill (indent : Indent) (depth : Nat) : (seat.fill x).layout indent depth =
    seat.layout indent depth (wrapIf (seat.encloses x) (x.layout indent depth)) := by
  cases seat <;> rfl

/-- A text is longer with parentheses around the operand than without. -/
theorem layout_enclosed_ne (indent : Indent) (depth : Nat) (text : String) :
    seat.layout indent depth ("(" ++ text ++ ")") ≠ seat.layout indent depth text := by
  intro heq
  have hopen : "(".length = 1 := rfl
  have hlength := congrArg String.length heq
  cases seat <;> simp only [layout, String.length_append] at hlength <;> omega

variable {seat x}

theorem spelled_operand (h : (seat.fill x).Spelled) : x.Spelled := by
  cases seat with
  | operand => exact h
  | right => exact h.2
  | left | callee | target => exact h.1

/-- The text around an operand is read as the words around it. -/
theorem layout_readAs {indent : Indent} (hi : isSpacing indent.char = true) (depth : Nat)
    (h : (seat.fill x).Spelled) {text : String} {ts : List Token} (htext : ReadAs text ts) :
    ReadAs (seat.layout indent depth text) (seat.words ts) := by
  cases seat with
  | operand op => exact readAs_unary op htext
  | left op r => exact readAs_binary op htext ((Expr.layout_readAs hi r depth h.2).wrapIf _)
  | right l op => exact readAs_binary op ((Expr.layout_readAs hi l depth h.1).wrapIf _) htext
  | callee arguments =>
    simp only [layout, words, Expr.layoutList_eq, Expr.wordsList_eq]
    exact readAs_behind htext
      (fun r hr => intercalate_spells (Expr.layoutList_readAs hi arguments depth h.2) hr)
      rfl rfl (by decide) rfl rfl (by decide)
  | target position =>
    exact readAs_behind htext (Expr.layout_readAs hi position depth h.2).spells rfl rfl (by decide)
      rfl rfl (by decide)

end Texts

end Seat

/-! ## Spellings below a node -/

/-- The names and numbers of a node are spelled as the lexer reads them. -/
def Node.Spelled : Node → Prop
  | program p => Stmt.SpelledList p.statements
  | stmt s => s.Spelled
  | block b => b.Spelled
  | expr e => e.Spelled
  | name i => (Token.ident i.name).Spelled

namespace Node

theorem spelled_stmts {ss : List Stmt} (h : Stmt.SpelledList ss) :
    ∀ c ∈ ss.map Node.stmt, c.Spelled :=
  List.forall_mem_map.mpr ((Stmt.spelledList_iff ss).mp h)

theorem spelled_exprs {es : List Expr} (h : Expr.SpelledList es) :
    ∀ c ∈ es.map Node.expr, c.Spelled :=
  List.forall_mem_map.mpr ((Expr.spelledList_iff es).mp h)

theorem spelled_pair {a b : Node} (ha : a.Spelled) (hb : b.Spelled) : ∀ c ∈ [a, b], c.Spelled :=
  List.forall_mem_cons.mpr ⟨ha, List.forall_mem_singleton.mpr hb⟩

end Node

theorem Expr.spelled_children {e : Expr} (h : e.Spelled) : ∀ c ∈ e.children, c.Spelled := by
  cases e with
  | ident | int | float | bool | str => exact fun _ hc => absurd hc List.not_mem_nil
  | array elements => exact Node.spelled_exprs h
  | hash entries =>
    intro c hc
    obtain ⟨⟨key, value⟩, hp, hc⟩ := List.mem_flatMap.mp hc
    have hentry : key.Spelled ∧ value.Spelled := (Entry.spelledList_iff entries).mp h ⟨key, value⟩ hp
    exact Node.spelled_pair (a := .expr key) (b := .expr value) hentry.1 hentry.2 c hc
  | unary => exact List.forall_mem_singleton.mpr h
  | binary | loop | index => exact Node.spelled_pair h.1 h.2
  | cond condition consequence alternative =>
    obtain ⟨hcondition, hconsequence, halternative⟩ := h
    refine List.forall_mem_cons.mpr ⟨hcondition, List.forall_mem_cons.mpr ⟨hconsequence, ?_⟩⟩
    cases alternative with
    | none => exact fun _ hc => absurd hc List.not_mem_nil
    | some body => exact List.forall_mem_singleton.mpr halternative
  | func parameters body =>
    exact List.forall_mem_append.mpr
      ⟨List.forall_mem_map.mpr h.1, List.forall_mem_singleton.mpr h.2⟩
  | call callee arguments => exact List.forall_mem_cons.mpr ⟨h.1, Node.spelled_exprs h.2⟩

theorem Stmt.spelled_children {s : Stmt} (h : s.Spelled) : ∀ c ∈ s.children, c.Spelled := by
  cases s with
  | bind => exact Node.spelled_pair h.1 h.2
  | ret | expr => exact List.forall_mem_singleton.mpr h
  | block body =>
    obtain ⟨statements, span⟩ := body
    exact Node.spelled_stmts h
  | blank => exact fun _ hc => absurd hc List.not_mem_nil

namespace Node

theorem Spelled.child {n c : Node} (h : n.Spelled) (hc : c ∈ n.children) : c.Spelled := by
  cases n with
  | program p => exact spelled_stmts h c hc
  | stmt s => exact Stmt.spelled_children h c hc
  | block b =>
    obtain ⟨statements, span⟩ := b
    exact spelled_stmts h c hc
  | expr e => exact Expr.spelled_children h c hc
  | name => exact absurd hc List.not_mem_nil

theorem Under.spelled {n m : Node} (h : n.Under m) (hn : n.Spelled) : m.Spelled := by
  induction h with
  | refl => exact hn
  | child hc _ ih => exact ih (hn.child hc)

end Node

end Scriptlet
