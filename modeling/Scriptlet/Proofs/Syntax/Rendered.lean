import Scriptlet.Proofs.Syntax.Words

/-!
# `Proofs.Syntax.Rendered` — the text on one line as tokens

The text on one line puts every operation in parentheses, so an expression in it is as closed as a
name. Statements are another matter. Only bindings and returns have a semicolon; everything else is
kept apart by a blank or a line break, which no token stands for. So an expression goes on into a
parenthesis or a bracket behind it, and where a statement starts, the brace of a hash opens a block.
A tree in which neither happens has its statements told apart.

## Contents
- `Expr.bare`, `Stmt.bare`, `Program.bare`: trees without places and blank lines.
- `Expr.opensBrace`, `Expr.opensBracket`: how the text of an expression starts.
- `Program.toldApart`: no statement's text is taken for something else.
- `Expr.renderWords` and the like: the words of the text.
- `Expr.render_readAs` and the like, `Program.tokens_render`: the text is read as these words.
-/

namespace Scriptlet

/-! ## What the text tells -/

mutual

/-- The expression without its places and its blank lines. -/
def Expr.bare : Expr → Expr
  | .ident name => .ident name.normal
  | .int value spelling _ => .int value spelling .none
  | .float value spelling _ => .float value spelling .none
  | .bool value _ => .bool value .none
  | .str value _ => .str value .none
  | .array elements _ => .array (Expr.bareList elements) .none
  | .hash entries _ => .hash (Entry.bareList entries) .none
  | .unary op operand _ => .unary op operand.bare .none
  | .binary left op right _ => .binary left.bare op right.bare .none
  | .cond condition consequence alternative _ =>
    .cond condition.bare consequence.bare (Block.bareOption alternative) .none
  | .loop condition body _ => .loop condition.bare body.bare .none
  | .func parameters body _ => .func (parameters.map Ident.normal) body.bare .none
  | .call callee arguments _ => .call callee.bare (Expr.bareList arguments) .none
  | .index target position _ => .index target.bare position.bare .none

/-- Expressions without their places and blank lines. -/
def Expr.bareList : List Expr → List Expr
  | [] => []
  | e :: es => e.bare :: Expr.bareList es

/-- The entry without its places and blank lines. -/
def Entry.bare : Entry → Entry
  | ⟨key, value⟩ => ⟨key.bare, value.bare⟩

/-- Entries without their places and blank lines. -/
def Entry.bareList : List Entry → List Entry
  | [] => []
  | p :: ps => p.bare :: Entry.bareList ps

/-- The block without its places and blank lines, if there is one. -/
def Block.bareOption : Option Block → Option Block
  | none => none
  | some b => some b.bare

/-- The statement without its places and the blank lines in it. -/
def Stmt.bare : Stmt → Stmt
  | .bind name value _ => .bind name.normal value.bare .none
  | .ret value _ => .ret value.bare .none
  | .expr value => .expr value.bare
  | .block body => .block body.bare
  | .blank _ => .blank .none

/-- Statements without their places, and no blank line among them. -/
def Stmt.bareList : List Stmt → List Stmt
  | [] => []
  | s :: ss => if s.isBlank then Stmt.bareList ss else s.bare :: Stmt.bareList ss

/-- The block without its places and blank lines. -/
def Block.bare : Block → Block
  | ⟨statements, _⟩ => ⟨Stmt.bareList statements, .none⟩

end

/-- The program without its places and blank lines. -/
def Program.bare (p : Program) : Program := ⟨Stmt.bareList p.statements, .none⟩

theorem Expr.bareList_eq (es : List Expr) : Expr.bareList es = es.map Expr.bare := by
  induction es with
  | nil => rfl
  | cons e es ih => exact congrArg (e.bare :: ·) ih

theorem Entry.bareList_eq (ps : List Entry) : Entry.bareList ps = ps.map Entry.bare := by
  induction ps with
  | nil => rfl
  | cons p ps ih => exact congrArg (p.bare :: ·) ih

theorem Stmt.isBlank_bare (s : Stmt) : s.bare.isBlank = s.isBlank := by cases s <;> rfl

theorem Stmt.isBlank_bareList (ss : List Stmt) : ∀ s ∈ Stmt.bareList ss, s.isBlank = false := by
  induction ss with
  | nil => exact fun _ hs => absurd hs List.not_mem_nil
  | cons s ss ih =>
    unfold Stmt.bareList
    by_cases hs : s.isBlank = true
    · rw [if_pos hs]
      exact ih
    · rw [if_neg hs]
      refine List.forall_mem_cons.mpr ⟨?_, ih⟩
      rw [Stmt.isBlank_bare]
      simpa using hs

/-! ## Statements that are told apart -/

/-- The text of the expression starts with a brace: it is a hash, or calls of one. -/
def Expr.opensBrace : Expr → Bool
  | .hash .. => true
  | .call callee _ _ => callee.opensBrace
  | _ => false

/-- The text of the expression starts with a parenthesis or a bracket. -/
def Expr.opensBracket : Expr → Bool
  | .array .. | .unary .. | .binary .. | .index .. => true
  | .call callee _ _ => callee.opensBracket
  | _ => false

namespace Stmt

def isExpr : Stmt → Bool
  | .expr _ => true
  | _ => false

/-- Whether the statement is told from the one before it, which may be an expression, and from a
    block. -/
def standsOut (afterExpr : Bool) : Stmt → Bool
  | .expr value => !value.opensBrace && !(afterExpr && value.opensBracket)
  | _ => true

end Stmt

mutual

/-- The statements inside the expression are told apart. -/
def Expr.toldApart : Expr → Bool
  | .ident _ | .int .. | .float .. | .bool .. | .str .. => true
  | .array elements _ => Expr.toldApartList elements
  | .hash entries _ => Entry.toldApartList entries
  | .unary _ operand _ => operand.toldApart
  | .binary left _ right _ => left.toldApart && right.toldApart
  | .cond condition consequence alternative _ =>
    condition.toldApart && consequence.toldApart && Block.toldApartOption alternative
  | .loop condition body _ => condition.toldApart && body.toldApart
  | .func _ body _ => body.toldApart
  | .call callee arguments _ => callee.toldApart && Expr.toldApartList arguments
  | .index target position _ => target.toldApart && position.toldApart

/-- The same for several expressions. -/
def Expr.toldApartList : List Expr → Bool
  | [] => true
  | e :: es => e.toldApart && Expr.toldApartList es

/-- The same for an entry. -/
def Entry.toldApart : Entry → Bool
  | ⟨key, value⟩ => key.toldApart && value.toldApart

/-- The same for several entries. -/
def Entry.toldApartList : List Entry → Bool
  | [] => true
  | p :: ps => p.toldApart && Entry.toldApartList ps

/-- The same for a block that may be missing. -/
def Block.toldApartOption : Option Block → Bool
  | none => true
  | some body => body.toldApart

/-- The same for a statement. -/
def Stmt.toldApart : Stmt → Bool
  | .bind _ value _ => value.toldApart
  | .ret value _ => value.toldApart
  | .expr value => value.toldApart
  | .block body => body.toldApart
  | .blank _ => true

/-- Statements are told apart, those inside them too. The first one may follow an expression. -/
def Stmt.toldApartList : Bool → List Stmt → Bool
  | _, [] => true
  | afterExpr, s :: ss =>
    if s.isBlank then Stmt.toldApartList afterExpr ss
    else s.toldApart && s.standsOut afterExpr && Stmt.toldApartList s.isExpr ss

/-- The statements of the block are told apart. -/
def Block.toldApart : Block → Bool
  | ⟨statements, _⟩ => Stmt.toldApartList false statements

end

/-- The statements of the program are told apart. -/
def Program.toldApart (p : Program) : Bool := Stmt.toldApartList false p.statements

/-! ## Words -/

mutual

/-- The words of an expression's text. -/
def Expr.renderWords : Expr → List Token
  | .ident name => [.ident name.name]
  | .int _ spelling _ => [.int spelling]
  | .float _ spelling _ => [.float spelling]
  | .bool value _ => [if value then .kwTrue else .kwFalse]
  | .str value _ => [.str value]
  | .array elements _ =>
    [.leftBracket] ++ commaWords (Expr.renderWordsList elements) ++ [.rightBracket]
  | .hash entries _ => [.leftBrace] ++ commaWords (Entry.renderWordsList entries) ++ [.rightBrace]
  | .unary op operand _ => wrapWords true ([op.token] ++ operand.renderWords)
  | .binary left op right _ =>
    wrapWords true (left.renderWords ++ [.operator op] ++ right.renderWords)
  | .cond condition consequence alternative _ =>
    [.kwIf] ++ condition.renderWords ++ consequence.renderWords ++ Block.renderWordsElse alternative
  | .loop condition body _ => [.kwWhile] ++ condition.renderWords ++ body.renderWords
  | .func parameters body _ =>
    [.kwFn, .leftParen] ++ commaWords (parameters.map fun p => [.ident p.name]) ++ [.rightParen]
      ++ body.renderWords
  | .call callee arguments _ =>
    callee.renderWords ++ [.leftParen] ++ commaWords (Expr.renderWordsList arguments)
      ++ [.rightParen]
  | .index target position _ =>
    wrapWords true (target.renderWords ++ [.leftBracket] ++ position.renderWords ++ [.rightBracket])

/-- The words of several expressions. -/
def Expr.renderWordsList : List Expr → List (List Token)
  | [] => []
  | e :: es => e.renderWords :: Expr.renderWordsList es

/-- The words of a key, a colon and those of its value. -/
def Entry.renderWords : Entry → List Token
  | ⟨key, value⟩ => key.renderWords ++ [.colon] ++ value.renderWords

/-- The words of several entries. -/
def Entry.renderWordsList : List Entry → List (List Token)
  | [] => []
  | p :: ps => p.renderWords :: Entry.renderWordsList ps

/-- The words of a condition after its consequence. -/
def Block.renderWordsElse : Option Block → List Token
  | none => []
  | some body => [.kwElse] ++ body.renderWords

/-- The words of a statement, with a semicolon where its text has one. -/
def Stmt.renderWords : Stmt → List Token
  | .bind name value _ =>
    [.kwLet, .ident name.name, .operator .assign] ++ value.renderWords ++ [.semicolon]
  | .ret value _ => [.kwReturn] ++ value.renderWords ++ [.semicolon]
  | .expr value => value.renderWords
  | .block body => body.renderWords
  | .blank _ => []

/-- The words of several statements, with nothing between them. -/
def Stmt.renderWordsList : List Stmt → List Token
  | [] => []
  | s :: ss => s.renderWords ++ Stmt.renderWordsList ss

/-- The words of a block. -/
def Block.renderWords : Block → List Token
  | ⟨statements, _⟩ => [.leftBrace] ++ Stmt.renderWordsList statements ++ [.rightBrace]

end

theorem Expr.renderWordsList_eq (es : List Expr) :
    Expr.renderWordsList es = es.map Expr.renderWords := by
  induction es with
  | nil => rfl
  | cons e es ih => exact congrArg (e.renderWords :: ·) ih

theorem Entry.renderWordsList_eq (ps : List Entry) :
    Entry.renderWordsList ps = ps.map Entry.renderWords := by
  induction ps with
  | nil => rfl
  | cons p ps ih => exact congrArg (p.renderWords :: ·) ih

theorem Expr.renderList_eq (es : List Expr) : Expr.renderList es = es.map Expr.render := by
  induction es with
  | nil => rfl
  | cons e es ih => exact congrArg (e.render :: ·) ih

theorem Entry.renderList_eq (ps : List Entry) : Entry.renderList ps = ps.map Entry.render := by
  induction ps with
  | nil => rfl
  | cons p ps ih => exact congrArg (p.render :: ·) ih

/-- Blank lines have no words. -/
theorem Stmt.renderWords_of_isBlank {s : Stmt} (h : s.isBlank = true) : s.renderWords = [] := by
  cases s with
  | blank => rfl
  | bind | ret | expr | block => cases h

theorem intercalate_nil_cons (ts : List Token) (tss : List (List Token)) :
    List.intercalate [] (ts :: tss) = ts ++ List.intercalate [] tss := by
  cases tss with
  | nil => simp [List.intercalate]
  | cons us tss => simp [List.intercalate_cons_cons]

/-- Nothing stands between the words of two statements. -/
theorem Stmt.renderWordsList_eq (ss : List Stmt) :
    Stmt.renderWordsList ss =
      List.intercalate [] ((ss.filter (!Stmt.isBlank ·)).map Stmt.renderWords) := by
  induction ss with
  | nil => rfl
  | cons s ss ih =>
    unfold Stmt.renderWordsList
    by_cases hs : s.isBlank = true
    · rw [Stmt.renderWords_of_isBlank hs, ih, List.filter_cons_of_neg (by simp [hs])]
      rfl
    · rw [ih, List.filter_cons_of_pos (by simpa using hs), List.map_cons,
        intercalate_nil_cons]

/-! ## The text -/

section Texts

variable {a b : String} {ts us : List Token}

theorem ReadAs.parens (h : ReadAs a ts) : ReadAs ("(" ++ a ++ ")") (wrapWords true ts) :=
  h.wrapIf true

theorem ReadAs.semicolon (h : ReadAs a ts) : ReadAs (a ++ ";") (ts ++ [.semicolon]) :=
  .of_spells (h.starts.append ";") fun r =>
    (h.spells _ (apart_text rfl (by decide) r)).append (spells_mark rfl rfl r)

/-- A keyword, a condition and a block. -/
theorem readAs_headed {text word : String} {t : Token} (h : (word, t) ∈ Token.keywords)
    (hstart : Starts text) (htext : text.toList = word.toList ++ [' ']) (ha : ReadAs a ts)
    (hb : ReadAs b us) : ReadAs (text ++ a ++ " " ++ b) ([t] ++ ts ++ us) := by
  refine ⟨((hstart.append a).append " ").append b, fun r hr => ?_⟩
  refine Spells.append (Spells.append_blank ?_) (hb.spells r hr)
  exact (spells_keyword_blank h htext _).append (ha.spells _ (apart_text rfl (by decide) _))

theorem spells_blank (r : List Char) : Spells " " [] r := tokensOf_spacing rfl r

/-- A line break in front of a text is no word. -/
theorem spells_newline (h : Starts a) (r : List Char) : Spells "\n" [] (a.toList ++ r) := by
  obtain ⟨c, cs, ha, hc, -⟩ := h
  have hmargin : ∀ d ∈ ([] : List Char), isSpacing d = true := fun d hd => absurd hd List.not_mem_nil
  unfold Spells
  rw [ha]
  exact tokensOf_newline hmargin hc (cs ++ r)

/-- A text between braces, a blank on either side. -/
theorem readAs_braced (h : ∀ r, Apart r → Spells a ts r) :
    ReadAs ("\x7b " ++ a ++ " \x7d") ([.leftBrace] ++ ts ++ [.rightBrace]) := by
  have hstart : Starts "\x7b " := ⟨'\x7b', _, rfl, by decide⟩
  refine .of_spells ((hstart.append a).append _) fun r => ?_
  have hopen : Spells "\x7b " [.leftBrace] (a.toList ++ (" \x7d".toList ++ r)) := by
    show tokensOf ('\x7b' :: ' ' :: (a.toList ++ (" \x7d".toList ++ r))) = _
    rw [tokensOf_mark '\x7b' rfl, tokensOf_spacing rfl]
    rfl
  have hclose : Spells " \x7d" [.rightBrace] r := by
    show tokensOf (' ' :: '\x7d' :: r) = _
    rw [tokensOf_spacing rfl, tokensOf_mark '\x7d' rfl]
    rfl
  exact (hopen.append (h _ (apart_text rfl (by decide) r))).append hclose

/-- Every statement but the blank lines has a text, which is read as its words. -/
theorem readAs_kept {ss : List Stmt}
    (h : ∀ s ∈ ss, s.isBlank = false → ReadAs s.render s.renderWords) :
    ∀ s ∈ ss.filter (!Stmt.isBlank ·), ReadAs s.render s.renderWords := by
  intro s hs
  obtain ⟨hmem, hblank⟩ := List.mem_filter.mp hs
  exact h s hmem (by simpa using hblank)

/-- Statements on one line between braces. -/
theorem readAs_renderBlock {ss : List Stmt} {span : Span}
    (h : ∀ s ∈ ss, s.isBlank = false → ReadAs s.render s.renderWords) :
    ReadAs (Block.render ⟨ss, span⟩) (Block.renderWords ⟨ss, span⟩) := by
  have hkept := readAs_kept h
  have hjoined : ∀ r, Apart r → Spells
      (String.intercalate " " ((ss.filter (!Stmt.isBlank ·)).map Stmt.render))
      (List.intercalate [] ((ss.filter (!Stmt.isBlank ·)).map Stmt.renderWords)) r :=
    fun _ hr => separated_spells (fun _ _ _ => spells_blank _) (apart_text rfl (by decide)) hkept hr
  unfold Block.render Block.renderWords
  rw [Stmt.renderList_eq, Stmt.renderWordsList_eq]
  cases hss : ss.filter (!Stmt.isBlank ·) with
  | nil =>
    show ReadAs "\x7b \x7d" [.leftBrace, .rightBrace]
    refine .of_spells ⟨'\x7b', _, rfl, by decide⟩ fun r => ?_
    show tokensOf ('\x7b' :: ' ' :: '\x7d' :: r) = .leftBrace :: .rightBrace :: tokensOf r
    rw [tokensOf_mark '\x7b' rfl, tokensOf_spacing rfl, tokensOf_mark '\x7d' rfl]
  | cons s rest =>
    rw [hss] at hjoined
    exact readAs_braced hjoined

end Texts

/-- What stands behind the consequence of a condition is no part of a word before it. -/
theorem apart_renderElse (b : Option Block) {r : List Char} (hr : Apart r) :
    Apart ((Block.renderElse b).toList ++ r) := by
  cases b with
  | none => exact hr
  | some body => exact apart_else body.render r

mutual

theorem Expr.render_readAs : ∀ e : Expr, e.Spelled → ReadAs e.render e.renderWords
  | .ident name, h => readAs_ident h
  | .int _ spelling _, h => readAs_int h.1
  | .float _ spelling _, h => readAs_float h.1
  | .bool value _, _ => readAs_bool value
  | .str value _, _ => readAs_quote value
  | .array elements _, h => by
    unfold Expr.render Expr.renderWords
    rw [Expr.renderList_eq, Expr.renderWordsList_eq]
    exact readAs_list (Expr.renderList_readAs elements h) rfl rfl (by decide) rfl rfl (by decide)
  | .hash entries _, h => by
    unfold Expr.render Expr.renderWords
    rw [Entry.renderList_eq, Entry.renderWordsList_eq]
    exact readAs_list (Entry.renderList_readAs entries h) rfl rfl (by decide) rfl rfl (by decide)
  | .unary op operand _, h => by
    have hunary := (readAs_unary op (Expr.render_readAs operand h)).parens
    unfold Expr.render Expr.renderWords
    simpa only [String.append_assoc] using hunary
  | .binary left op right _, h => by
    have hbinary := readAs_binary op (Expr.render_readAs left h.1) (Expr.render_readAs right h.2)
    have hparens := hbinary.parens
    unfold Expr.render Expr.renderWords
    simpa only [String.append_assoc] using hparens
  | .cond condition consequence alternative _, h => by
    have hkey : ("if", Token.kwIf) ∈ Token.keywords := by decide
    have hif : ReadAs ("if " ++ condition.render ++ " " ++ consequence.render)
        ([.kwIf] ++ condition.renderWords ++ consequence.renderWords) :=
      readAs_headed hkey ⟨'i', _, rfl, by decide⟩ rfl (Expr.render_readAs condition h.1)
        (Block.render_readAs consequence h.2.1)
    unfold Expr.render Expr.renderWords
    refine ⟨hif.starts.append _, fun r hr => ?_⟩
    exact (hif.spells _ (apart_renderElse alternative hr)).append
      (Block.renderElse_spells alternative h.2.2 r hr)
  | .loop condition body _, h => by
    have hkey : ("while", Token.kwWhile) ∈ Token.keywords := by decide
    unfold Expr.render Expr.renderWords
    exact readAs_headed hkey ⟨'w', _, rfl, by decide⟩ rfl (Expr.render_readAs condition h.1)
      (Block.render_readAs body h.2)
  | .func parameters body _, h => by
    unfold Expr.render Expr.renderWords renderParameters
    exact readAs_keyword ⟨'f', _, rfl, by decide⟩ spells_fn
      (fun r hr => intercalate_spells (fun p hp => readAs_ident (h.1 p hp)) hr)
      (Block.render_readAs body h.2).spells
  | .call callee arguments _, h => by
    unfold Expr.render Expr.renderWords
    rw [Expr.renderList_eq, Expr.renderWordsList_eq]
    exact readAs_behind (Expr.render_readAs callee h.1)
      (fun r hr => intercalate_spells (Expr.renderList_readAs arguments h.2) hr)
      rfl rfl (by decide) rfl rfl (by decide)
  | .index target position _, h => by
    have hindex : ReadAs (target.render ++ "[" ++ position.render ++ "]")
        (target.renderWords ++ [.leftBracket] ++ position.renderWords ++ [.rightBracket]) :=
      readAs_behind (Expr.render_readAs target h.1) (Expr.render_readAs position h.2).spells rfl rfl
        (by decide) rfl rfl (by decide)
    have hparens := hindex.parens
    have hclose : "])" = "]" ++ ")" := rfl
    unfold Expr.render Expr.renderWords
    rw [hclose]
    simpa only [String.append_assoc] using hparens

theorem Expr.renderList_readAs : ∀ es : List Expr, Expr.SpelledList es →
    ∀ e ∈ es, ReadAs e.render e.renderWords
  | [], _ => fun _ he => absurd he List.not_mem_nil
  | e :: es, h =>
    List.forall_mem_cons.mpr ⟨Expr.render_readAs e h.1, Expr.renderList_readAs es h.2⟩

theorem Entry.render_readAs : ∀ p : Entry, p.Spelled → ReadAs p.render p.renderWords
  | ⟨key, value⟩, h => by
    unfold Entry.render Entry.renderWords
    exact readAs_entry (Expr.render_readAs key h.1) (Expr.render_readAs value h.2)

theorem Entry.renderList_readAs : ∀ ps : List Entry, Entry.SpelledList ps →
    ∀ p ∈ ps, ReadAs p.render p.renderWords
  | [], _ => fun _ hp => absurd hp List.not_mem_nil
  | p :: ps, h =>
    List.forall_mem_cons.mpr ⟨Entry.render_readAs p h.1, Entry.renderList_readAs ps h.2⟩

theorem Block.renderElse_spells : ∀ b : Option Block, Block.SpelledOption b →
    ∀ r, Apart r → Spells (Block.renderElse b) (Block.renderWordsElse b) r
  | none, _ => fun _ _ => rfl
  | some body, h => fun r hr => by
    unfold Block.renderElse Block.renderWordsElse
    exact spells_else (Block.render_readAs body h) hr

theorem Stmt.render_readAs : ∀ s : Stmt, s.Spelled → s.isBlank = false →
    ReadAs s.render s.renderWords
  | .bind name value _, h, _ => by
    unfold Stmt.render Stmt.renderWords
    exact (readAs_let h.1 (Expr.render_readAs value h.2)).semicolon
  | .ret value _, h, _ => by
    unfold Stmt.render Stmt.renderWords
    exact (readAs_return (Expr.render_readAs value h)).semicolon
  | .expr value, h, _ => by
    unfold Stmt.render Stmt.renderWords
    exact Expr.render_readAs value h
  | .block body, h, _ => by
    unfold Stmt.render Stmt.renderWords
    exact Block.render_readAs body h
  | .blank _, _, hblank => nomatch hblank

theorem Stmt.renderList_readAs : ∀ ss : List Stmt, Stmt.SpelledList ss →
    ∀ s ∈ ss, s.isBlank = false → ReadAs s.render s.renderWords
  | [], _ => fun _ hs => absurd hs List.not_mem_nil
  | s :: ss, h =>
    List.forall_mem_cons.mpr ⟨Stmt.render_readAs s h.1, Stmt.renderList_readAs ss h.2⟩

theorem Block.render_readAs : ∀ b : Block, b.Spelled → ReadAs b.render b.renderWords
  | ⟨statements, _⟩, h => readAs_renderBlock (Stmt.renderList_readAs statements h)

end

/-- The text of a program is read as its words. -/
theorem Program.tokens_render {p : Program} (h : Stmt.SpelledList p.statements) :
    (tokenize p.render).map Lexeme.token = Stmt.renderWordsList p.statements ++ [.eof] := by
  have hkept := readAs_kept (Stmt.renderList_readAs p.statements h)
  unfold Program.render
  rw [Stmt.renderList_eq, Stmt.renderWordsList_eq]
  generalize p.statements.filter (!Stmt.isBlank ·) = kept at hkept ⊢
  cases kept with
  | nil =>
    show (Lexer.ofChars []).lexemes.map Lexeme.token = [.eof]
    rw [Lexer.lexemes_eq]
    rfl
  | cons s kept =>
    have hend : Apart [] := fun _ hc => nomatch hc
    have hread : Spells (String.intercalate "\n" ((s :: kept).map Stmt.render))
        (List.intercalate [] ((s :: kept).map Stmt.renderWords)) [] :=
      separated_spells (fun _ r ha => spells_newline ha r) (apart_text rfl (by decide)) hkept hend
    have hstart := (hkept s List.mem_cons_self).starts.intercalate "\n" kept
    obtain ⟨c, cs, htext, hc, -⟩ := hstart
    unfold Spells at hread
    rw [List.append_nil, htext] at hread
    unfold tokenize
    rw [htext, tokens_start hc, hread, tokensOf_nil]

end Scriptlet
