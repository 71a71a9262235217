import Scriptlet.Syntax.Outline
import Scriptlet.Proofs.Grammar.Spelled
import Scriptlet.Proofs.Json.Compact
import Scriptlet.Proofs.Numeral.Magnitude
import Scriptlet.Proofs.Syntax.Normal

/-!
# `Proofs.Syntax.Outlined` — the JSON form of a program determines the program

The object of a node starts with the node's kind, and the other members are the node's parts in their
order. So the tree can be got back from the JSON value, but for the spans and the spelling of numbers,
which are no part of it. The text of a JSON value determines the value up to floats that are not
finite, and in a program infinity is the only one of these.

## Contents
- `Expr.content` and the like: a tree with neither spans nor spellings of numbers.
- `Expr.outline_content` and the like: its JSON value is that of the whole tree.
- `nodeObject_kind_eq`, `nodeObject_parts_eq`: the kind and the parts of a node from its object.
- `Expr.content_eq` and the like: trees with the same JSON value.
- `outline_compact_eq_iff`: programs with the same JSON text.
-/

namespace Scriptlet

/-! ## What a tree says -/

mutual

/-- The expression with neither spans nor spellings of numbers in it. -/
def Expr.content : Expr → Expr
  | .ident name => .ident name.normal
  | .int value _ _ => .int value "" .none
  | .float value _ _ => .float value "" .none
  | .bool value _ => .bool value .none
  | .str value _ => .str value .none
  | .array elements _ => .array (Expr.contentList elements) .none
  | .hash entries _ => .hash (Entry.contentList entries) .none
  | .unary op operand _ => .unary op operand.content .none
  | .binary left op right _ => .binary left.content op right.content .none
  | .cond condition consequence alternative _ =>
    .cond condition.content consequence.content (Block.contentOption alternative) .none
  | .loop condition body _ => .loop condition.content body.content .none
  | .func parameters body _ => .func (parameters.map Ident.normal) body.content .none
  | .call callee arguments _ => .call callee.content (Expr.contentList arguments) .none
  | .index target position _ => .index target.content position.content .none

/-- The same for several expressions. -/
def Expr.contentList : List Expr → List Expr
  | [] => []
  | e :: es => e.content :: Expr.contentList es

/-- The same for an entry. -/
def Entry.content : Entry → Entry
  | ⟨key, value⟩ => ⟨key.content, value.content⟩

/-- The same for several entries. -/
def Entry.contentList : List Entry → List Entry
  | [] => []
  | p :: ps => p.content :: Entry.contentList ps

/-- The same for a block that may be missing. -/
def Block.contentOption : Option Block → Option Block
  | none => none
  | some body => some body.content

/-- The same for a statement. -/
def Stmt.content : Stmt → Stmt
  | .bind name value _ => .bind name.normal value.content .none
  | .ret value _ => .ret value.content .none
  | .expr value => .expr value.content
  | .block body => .block body.content
  | .blank _ => .blank .none

/-- The same for several statements. -/
def Stmt.contentList : List Stmt → List Stmt
  | [] => []
  | s :: ss => s.content :: Stmt.contentList ss

/-- The same for a block. -/
def Block.content : Block → Block
  | ⟨statements, _⟩ => ⟨Stmt.contentList statements, .none⟩

end

/-- The program with neither spans nor spellings of numbers in it. -/
def Program.content (p : Program) : Program := ⟨Stmt.contentList p.statements, .none⟩

theorem Ident.outline_normal (name : Ident) : name.normal.outline = name.outline := rfl

mutual

theorem Expr.outline_content : ∀ e : Expr, e.content.outline = e.outline
  | .ident _ | .int .. | .float .. | .bool .. | .str .. => rfl
  | .array elements _ => by
    simp only [Expr.content, Expr.outline, Expr.outline_contentList elements]
  | .hash entries _ => by
    simp only [Expr.content, Expr.outline, Entry.outline_contentList entries]
  | .unary _ operand _ => by
    simp only [Expr.content, Expr.outline, Expr.outline_content operand]
  | .binary left _ right _ => by
    simp only [Expr.content, Expr.outline, Expr.outline_content left, Expr.outline_content right]
  | .cond condition consequence alternative _ => by
    simp only [Expr.content, Expr.outline, Expr.outline_content condition,
      Block.outline_content consequence, Block.outline_contentOption alternative]
  | .loop condition body _ => by
    simp only [Expr.content, Expr.outline, Expr.outline_content condition, Block.outline_content body]
  | .func parameters body _ => by
    have hnames : Ident.outline ∘ Ident.normal = Ident.outline := funext Ident.outline_normal
    simp only [Expr.content, Expr.outline, List.map_map, hnames, Block.outline_content body]
  | .call callee arguments _ => by
    simp only [Expr.content, Expr.outline, Expr.outline_content callee,
      Expr.outline_contentList arguments]
  | .index target position _ => by
    simp only [Expr.content, Expr.outline, Expr.outline_content target, Expr.outline_content position]

theorem Expr.outline_contentList : ∀ es : List Expr,
    Expr.outlineList (Expr.contentList es) = Expr.outlineList es
  | [] => rfl
  | e :: es => congrArg₂ List.cons (Expr.outline_content e) (Expr.outline_contentList es)

theorem Entry.outline_content : ∀ p : Entry, p.content.outline = p.outline
  | ⟨key, value⟩ => by
    simp only [Entry.content, Entry.outline, Expr.outline_content key, Expr.outline_content value]

theorem Entry.outline_contentList : ∀ ps : List Entry,
    Entry.outlineList (Entry.contentList ps) = Entry.outlineList ps
  | [] => rfl
  | p :: ps => congrArg₂ List.cons (Entry.outline_content p) (Entry.outline_contentList ps)

theorem Block.outline_contentOption : ∀ b : Option Block,
    Block.outlineOption (Block.contentOption b) = Block.outlineOption b
  | none => rfl
  | some body => Block.outline_content body

theorem Stmt.outline_content : ∀ s : Stmt, s.content.outline = s.outline
  | .bind name value _ => by
    simp only [Stmt.content, Stmt.outline, Expr.outline_content value]
    rfl
  | .ret value _ => by simp only [Stmt.content, Stmt.outline, Expr.outline_content value]
  | .expr value => by simp only [Stmt.content, Stmt.outline, Expr.outline_content value]
  | .block body => Block.outline_content body
  | .blank _ => rfl

theorem Stmt.outline_contentList : ∀ ss : List Stmt,
    Stmt.outlineList (Stmt.contentList ss) = Stmt.outlineList ss
  | [] => rfl
  | s :: ss => congrArg₂ List.cons (Stmt.outline_content s) (Stmt.outline_contentList ss)

theorem Block.outline_content : ∀ b : Block, b.content.outline = b.outline
  | ⟨statements, _⟩ => by
    simp only [Block.content, Block.outline, Stmt.outline_contentList statements]

end

theorem Program.outline_content (p : Program) : p.content.outline = p.outline := by
  simp only [Program.content, Program.outline, Stmt.outline_contentList]

/-! ## Kinds and operators -/

/-- Every kind. -/
def NodeKind.all : List NodeKind :=
  [.program, .letStatement, .returnStatement, .expressionStatement, .blockStatement, .emptyStatement,
   .identifier, .integerLiteral, .floatLiteral, .boolean, .stringLiteral, .arrayLiteral, .hashLiteral,
   .unaryExpression, .binaryExpression, .ifExpression, .whileExpression, .functionLiteral,
   .callExpression, .indexExpression]

theorem NodeKind.mem_all (kind : NodeKind) : kind ∈ all := by cases kind <;> decide

theorem NodeKind.eq_of_name {kind kind' : NodeKind} (h : kind.name = kind'.name) : kind = kind' := by
  have hall : ∀ a ∈ all, ∀ b ∈ all, a.name = b.name → a = b := by decide
  exact hall kind kind.mem_all kind' kind'.mem_all h

theorem UnaryOp.eq_of_text {op op' : UnaryOp} (h : op.text = op'.text) : op = op' := by
  cases op <;> cases op' <;> first | rfl | exact absurd h (by decide)

theorem BinaryOp.eq_of_text {op op' : BinaryOp} (h : op.text = op'.text) : op = op' := by
  have hall : ∀ a ∈ all, ∀ b ∈ all, a.text = b.text → a = b := by decide
  exact hall op op.mem_all op' op'.mem_all h

/-! ## Objects of nodes -/

section Objects

variable {kind kind' : NodeKind} {a b c : String} {u v w u' v' w' : Json}

theorem nodeObject_kind_eq {parts parts' : List Member}
    (h : (nodeObject kind parts).finite = (nodeObject kind' parts').finite) : kind = kind' := by
  have htype := (List.cons.inj (Json.obj.inj h)).1
  exact NodeKind.eq_of_name (Json.str.inj (Member.mk.inj htype).2)

theorem nodeObject_parts_eq {parts parts' : List Member}
    (h : (nodeObject kind parts).finite = (nodeObject kind parts').finite) :
    Json.finiteMembers parts = Json.finiteMembers parts' :=
  (List.cons.inj (Json.obj.inj h)).2

/-- Nodes of one part. -/
theorem nodeObject_one (h : (nodeObject kind [⟨a, u⟩]).finite = (nodeObject kind [⟨a, u'⟩]).finite) :
    u.finite = u'.finite :=
  (Member.mk.inj (List.cons.inj (nodeObject_parts_eq h)).1).2

/-- Nodes of two parts. -/
theorem nodeObject_two
    (h : (nodeObject kind [⟨a, u⟩, ⟨b, v⟩]).finite = (nodeObject kind [⟨a, u'⟩, ⟨b, v'⟩]).finite) :
    u.finite = u'.finite ∧ v.finite = v'.finite := by
  have ⟨hu, hrest⟩ := List.cons.inj (nodeObject_parts_eq h)
  exact ⟨(Member.mk.inj hu).2, (Member.mk.inj (List.cons.inj hrest).1).2⟩

/-- Nodes of three parts. -/
theorem nodeObject_three
    (h : (nodeObject kind [⟨a, u⟩, ⟨b, v⟩, ⟨c, w⟩]).finite =
      (nodeObject kind [⟨a, u'⟩, ⟨b, v'⟩, ⟨c, w'⟩]).finite) :
    u.finite = u'.finite ∧ v.finite = v'.finite ∧ w.finite = w'.finite := by
  have ⟨hu, hrest⟩ := List.cons.inj (nodeObject_parts_eq h)
  have ⟨hv, hlast⟩ := List.cons.inj hrest
  exact ⟨(Member.mk.inj hu).2, (Member.mk.inj hv).2, (Member.mk.inj (List.cons.inj hlast).1).2⟩

theorem Expr.outline_eq_nodeObject (e : Expr) : ∃ parts, e.outline = nodeObject e.kind parts := by
  cases e <;> exact ⟨_, rfl⟩

theorem Stmt.outline_eq_nodeObject (s : Stmt) : ∃ parts, s.outline = nodeObject s.kind parts := by
  cases s with
  | block body =>
    -- a block is its own statement: its object is the one of the block
    obtain ⟨statements, span⟩ := body
    exact ⟨_, rfl⟩
  | bind | ret | expr | blank => exact ⟨_, rfl⟩

theorem Expr.kind_eq {e e' : Expr} (h : e.outline.finite = e'.outline.finite) : e.kind = e'.kind := by
  obtain ⟨parts, hparts⟩ := e.outline_eq_nodeObject
  obtain ⟨parts', hparts'⟩ := e'.outline_eq_nodeObject
  rw [hparts, hparts'] at h
  exact nodeObject_kind_eq h

theorem Stmt.kind_eq {s s' : Stmt} (h : s.outline.finite = s'.outline.finite) : s.kind = s'.kind := by
  obtain ⟨parts, hparts⟩ := s.outline_eq_nodeObject
  obtain ⟨parts', hparts'⟩ := s'.outline_eq_nodeObject
  rw [hparts, hparts'] at h
  exact nodeObject_kind_eq h

end Objects

/-! ## Leaves -/

section Leaves

/-- Numbers of a program are known from their JSON values. -/
theorem float_eq_of_finite {x y : Float} (hx : Numeral.IsMagnitude x) (hy : Numeral.IsMagnitude y)
    (h : (Json.float x).finite = (Json.float y).finite) : x = y := by
  cases hxtext : Numeral.finiteText? Numeral.jsonStyle x with
  | none =>
    cases hytext : Numeral.finiteText? Numeral.jsonStyle y with
    | none => exact hx.eq_of_finiteText?_eq_none hy hxtext hytext
    | some text =>
      rw [Json.finite_float_none hxtext, Json.finite_float_some hytext] at h
      cases h
  | some text =>
    cases hytext : Numeral.finiteText? Numeral.jsonStyle y with
    | none =>
      rw [Json.finite_float_some hxtext, Json.finite_float_none hytext] at h
      cases h
    | some text' =>
      rw [Json.finite_float_some hxtext, Json.finite_float_some hytext] at h
      exact Json.float.inj h

theorem isMagnitude_of_spelled {value : Float} {spelling : String} {span : Span}
    (h : (Expr.float value spelling span).Spelled) : Numeral.IsMagnitude value :=
  have ⟨⟨_, _, hfloat⟩, hread⟩ := h
  Numeral.isMagnitude_of_readFloat hfloat hread

theorem Ident.normal_eq {name name' : Ident} (h : name.outline.finite = name'.outline.finite) :
    name.normal = name'.normal := by
  have hname : name.name = name'.name := Json.str.inj (nodeObject_one h)
  unfold Ident.normal
  rw [hname]

theorem Ident.normalList_eq {names names' : List Ident}
    (h : Json.finiteList (names.map Ident.outline) = Json.finiteList (names'.map Ident.outline)) :
    names.map Ident.normal = names'.map Ident.normal := by
  induction names generalizing names' with
  | nil =>
    cases names' with
    | nil => rfl
    | cons name' names' => cases h
  | cons name names ih =>
    cases names' with
    | nil => cases h
    | cons name' names' =>
      obtain ⟨hname, hnames⟩ := List.cons.inj h
      exact congrArg₂ List.cons (Ident.normal_eq hname) (ih hnames)

end Leaves

/-! ## Trees

The kinds of two nodes with the same object agree, so of all pairs of constructors only the equal ones
are left, and there the parts agree by induction. -/

mutual

/-- An expression is known from its JSON value. -/
theorem Expr.content_eq : ∀ e e' : Expr, e.Spelled → e'.Spelled →
    e.outline.finite = e'.outline.finite → e.content = e'.content
  | .ident name, e', _, _, h => by
    cases e' with
    | ident name' => exact congrArg Expr.ident (Ident.normal_eq h)
    | _ => cases Expr.kind_eq h
  | .int value _ _, e', _, _, h => by
    cases e' with
    | int value' _ _ =>
      have hvalue : value = value' := Int64.toInt_inj.mp (Json.int.inj (nodeObject_one h))
      rw [Expr.content, Expr.content, hvalue]
    | _ => cases Expr.kind_eq h
  | .float value _ _, e', he, he', h => by
    cases e' with
    | float value' _ _ =>
      have hvalue : value = value' :=
        float_eq_of_finite (isMagnitude_of_spelled he) (isMagnitude_of_spelled he') (nodeObject_one h)
      rw [Expr.content, Expr.content, hvalue]
    | _ => cases Expr.kind_eq h
  | .bool value _, e', _, _, h => by
    cases e' with
    | bool value' _ =>
      have hvalue : value = value' := Json.bool.inj (nodeObject_one h)
      rw [Expr.content, Expr.content, hvalue]
    | _ => cases Expr.kind_eq h
  | .str value _, e', _, _, h => by
    cases e' with
    | str value' _ =>
      have hvalue : value = value' := Json.str.inj (nodeObject_one h)
      rw [Expr.content, Expr.content, hvalue]
    | _ => cases Expr.kind_eq h
  | .array elements _, e', he, he', h => by
    cases e' with
    | array elements' _ =>
      have helements := Expr.contentList_eq elements elements' he he'
        (Json.arr.inj (nodeObject_one h))
      rw [Expr.content, Expr.content, helements]
    | _ => cases Expr.kind_eq h
  | .hash entries _, e', he, he', h => by
    cases e' with
    | hash entries' _ =>
      have hentries := Entry.contentList_eq entries entries' he he'
        (Json.arr.inj (nodeObject_one h))
      rw [Expr.content, Expr.content, hentries]
    | _ => cases Expr.kind_eq h
  | .unary op operand _, e', he, he', h => by
    cases e' with
    | unary op' operand' _ =>
      obtain ⟨hop, hoperand⟩ := nodeObject_two h
      have hop := UnaryOp.eq_of_text (Json.str.inj hop)
      have hoperand := Expr.content_eq operand operand' he he' hoperand
      rw [Expr.content, Expr.content, hop, hoperand]
    | _ => cases Expr.kind_eq h
  | .binary left op right _, e', he, he', h => by
    cases e' with
    | binary left' op' right' _ =>
      obtain ⟨hleft, hop, hright⟩ := nodeObject_three h
      have hleft := Expr.content_eq left left' he.1 he'.1 hleft
      have hop := BinaryOp.eq_of_text (Json.str.inj hop)
      have hright := Expr.content_eq right right' he.2 he'.2 hright
      rw [Expr.content, Expr.content, hleft, hop, hright]
    | _ => cases Expr.kind_eq h
  | .cond condition consequence alternative _, e', he, he', h => by
    cases e' with
    | cond condition' consequence' alternative' _ =>
      obtain ⟨hcondition, hconsequence, halternative⟩ := nodeObject_three h
      have hcondition := Expr.content_eq condition condition' he.1 he'.1 hcondition
      have hconsequence := Block.content_eq consequence consequence' he.2.1 he'.2.1 hconsequence
      have halternative := Block.contentOption_eq alternative alternative' he.2.2 he'.2.2 halternative
      rw [Expr.content, Expr.content, hcondition, hconsequence, halternative]
    | _ => cases Expr.kind_eq h
  | .loop condition body _, e', he, he', h => by
    cases e' with
    | loop condition' body' _ =>
      obtain ⟨hcondition, hbody⟩ := nodeObject_two h
      have hcondition := Expr.content_eq condition condition' he.1 he'.1 hcondition
      have hbody := Block.content_eq body body' he.2 he'.2 hbody
      rw [Expr.content, Expr.content, hcondition, hbody]
    | _ => cases Expr.kind_eq h
  | .func parameters body _, e', he, he', h => by
    cases e' with
    | func parameters' body' _ =>
      obtain ⟨hparameters, hbody⟩ := nodeObject_two h
      have hparameters := Ident.normalList_eq (Json.arr.inj hparameters)
      have hbody := Block.content_eq body body' he.2 he'.2 hbody
      rw [Expr.content, Expr.content, hparameters, hbody]
    | _ => cases Expr.kind_eq h
  | .call callee arguments _, e', he, he', h => by
    cases e' with
    | call callee' arguments' _ =>
      obtain ⟨hcallee, harguments⟩ := nodeObject_two h
      have hcallee := Expr.content_eq callee callee' he.1 he'.1 hcallee
      have harguments := Expr.contentList_eq arguments arguments' he.2 he'.2 (Json.arr.inj harguments)
      rw [Expr.content, Expr.content, hcallee, harguments]
    | _ => cases Expr.kind_eq h
  | .index target position _, e', he, he', h => by
    cases e' with
    | index target' position' _ =>
      obtain ⟨htarget, hposition⟩ := nodeObject_two h
      have htarget := Expr.content_eq target target' he.1 he'.1 htarget
      have hposition := Expr.content_eq position position' he.2 he'.2 hposition
      rw [Expr.content, Expr.content, htarget, hposition]
    | _ => cases Expr.kind_eq h

theorem Expr.contentList_eq : ∀ es es' : List Expr, Expr.SpelledList es → Expr.SpelledList es' →
    Json.finiteList (Expr.outlineList es) = Json.finiteList (Expr.outlineList es') →
    Expr.contentList es = Expr.contentList es'
  | [], [], _, _, _ => rfl
  | e :: es, e' :: es', hes, hes', h =>
    congrArg₂ List.cons (Expr.content_eq e e' hes.1 hes'.1 (List.cons.inj h).1)
      (Expr.contentList_eq es es' hes.2 hes'.2 (List.cons.inj h).2)

theorem Entry.content_eq : ∀ p p' : Entry, p.Spelled → p'.Spelled →
    p.outline.finite = p'.outline.finite → p.content = p'.content
  | ⟨key, value⟩, ⟨key', value'⟩, hp, hp', h => by
    have ⟨hkey, hrest⟩ := List.cons.inj (Json.obj.inj h)
    have hkey := Expr.content_eq key key' hp.1 hp'.1 (Member.mk.inj hkey).2
    have hvalue := Expr.content_eq value value' hp.2 hp'.2 (Member.mk.inj (List.cons.inj hrest).1).2
    rw [Entry.content, Entry.content, hkey, hvalue]

theorem Entry.contentList_eq : ∀ ps ps' : List Entry, Entry.SpelledList ps → Entry.SpelledList ps' →
    Json.finiteList (Entry.outlineList ps) = Json.finiteList (Entry.outlineList ps') →
    Entry.contentList ps = Entry.contentList ps'
  | [], [], _, _, _ => rfl
  | p :: ps, p' :: ps', hps, hps', h =>
    congrArg₂ List.cons (Entry.content_eq p p' hps.1 hps'.1 (List.cons.inj h).1)
      (Entry.contentList_eq ps ps' hps.2 hps'.2 (List.cons.inj h).2)

theorem Block.contentOption_eq : ∀ b b' : Option Block, Block.SpelledOption b → Block.SpelledOption b' →
    (Block.outlineOption b).finite = (Block.outlineOption b').finite →
    Block.contentOption b = Block.contentOption b'
  | none, none, _, _, _ => rfl
  | none, some ⟨_, _⟩, _, _, h => by cases h
  | some ⟨_, _⟩, none, _, _, h => by cases h
  | some body, some body', hb, hb', h => congrArg some (Block.content_eq body body' hb hb' h)

theorem Stmt.content_eq : ∀ s s' : Stmt, s.Spelled → s'.Spelled →
    s.outline.finite = s'.outline.finite → s.content = s'.content
  | .bind name value _, s', hs, hs', h => by
    cases s' with
    | bind name' value' _ =>
      obtain ⟨hname, hvalue⟩ := nodeObject_two h
      have hname : name.name = name'.name := Json.str.inj hname
      have hvalue := Expr.content_eq value value' hs.2 hs'.2 hvalue
      rw [Stmt.content, Stmt.content, Ident.normal, Ident.normal, hname, hvalue]
    | _ => cases Stmt.kind_eq h
  | .ret value _, s', hs, hs', h => by
    cases s' with
    | ret value' _ =>
      have hvalue := Expr.content_eq value value' hs hs' (nodeObject_one h)
      rw [Stmt.content, Stmt.content, hvalue]
    | _ => cases Stmt.kind_eq h
  | .expr value, s', hs, hs', h => by
    cases s' with
    | expr value' => exact congrArg Stmt.expr (Expr.content_eq value value' hs hs' (nodeObject_one h))
    | _ => cases Stmt.kind_eq h
  | .block body, s', hs, hs', h => by
    cases s' with
    | block body' => exact congrArg Stmt.block (Block.content_eq body body' hs hs' h)
    | _ => cases Stmt.kind_eq h
  | .blank _, s', _, _, h => by
    cases s' with
    | blank _ => rfl
    | _ => cases Stmt.kind_eq h

theorem Stmt.contentList_eq : ∀ ss ss' : List Stmt, Stmt.SpelledList ss → Stmt.SpelledList ss' →
    Json.finiteList (Stmt.outlineList ss) = Json.finiteList (Stmt.outlineList ss') →
    Stmt.contentList ss = Stmt.contentList ss'
  | [], [], _, _, _ => rfl
  | s :: ss, s' :: ss', hss, hss', h =>
    congrArg₂ List.cons (Stmt.content_eq s s' hss.1 hss'.1 (List.cons.inj h).1)
      (Stmt.contentList_eq ss ss' hss.2 hss'.2 (List.cons.inj h).2)

theorem Block.content_eq : ∀ b b' : Block, b.Spelled → b'.Spelled →
    b.outline.finite = b'.outline.finite → b.content = b'.content
  | ⟨statements, _⟩, ⟨statements', _⟩, hb, hb', h => by
    have hstatements := Stmt.contentList_eq statements statements' hb hb'
      (Json.arr.inj (nodeObject_one h))
    rw [Block.content, Block.content, hstatements]

end

/-! ## Programs -/

end Scriptlet
