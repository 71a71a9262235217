import Scriptlet.Numeral.Reading
import Scriptlet.Proofs.Syntax.Normal
import Scriptlet.Proofs.Token.Spelling

/-!
# `Proofs.Syntax.Words` — the canonical text as tokens

The canonical text of a tree leaves no doubt about its tokens: where a word ends, something follows
that cannot belong to it. So the text is read as the words that the tree is made of, with parentheses
where the text has them, and nothing is left of its margins.

## Contents
- `Expr.words`, `Stmt.words?`, `Block.words`: the words of a tree.
- `Expr.Spelled` and the like: its names and numbers are spelled as the lexer reads them, and its
  numbers have the value of their spelling.
- `ReadAs`: a text that is read as some words wherever it stands.
- `Expr.layout_readAs` and the like, `Program.tokenize_layout`: the canonical text is read as the words.
-/

namespace Scriptlet

/-! ## Words -/

/-- Words in parentheses where they are wanted. -/
def wrapWords (wanted : Bool) (ts : List Token) : List Token :=
  if wanted then [.leftParen] ++ ts ++ [.rightParen] else ts

/-- Pieces with commas between them. -/
def commaWords (pieces : List (List Token)) : List Token := List.intercalate [.comma] pieces

/-- The words of statements, nothing standing for a blank line. -/
def linesWords : List (Option (List Token)) → List Token
  | [] => []
  | none :: rest => [.blankLine] ++ linesWords rest
  | some ts :: rest => ts ++ [.semicolon] ++ linesWords rest

mutual

/-- The words of an expression. -/
def Expr.words : Expr → List Token
  | .ident name => [.ident name.name]
  | .int _ spelling _ => [.int spelling]
  | .float _ spelling _ => [.float spelling]
  | .bool value _ => [if value then .kwTrue else .kwFalse]
  | .str value _ => [.str value]
  | .array elements _ => [.leftBracket] ++ commaWords (Expr.wordsList elements) ++ [.rightBracket]
  | .hash entries _ => [.leftBrace] ++ commaWords (Entry.wordsList entries) ++ [.rightBrace]
  | .unary op operand _ => [op.token] ++ wrapWords (isBinary operand) operand.words
  | .binary left op right _ =>
    wrapWords (needsParens left op false) left.words ++ [.operator op]
      ++ wrapWords (needsParens right op true) right.words
  | .cond condition consequence alternative _ =>
    [.kwIf, .leftParen] ++ condition.words ++ [.rightParen] ++ consequence.words
      ++ Block.wordsElse alternative
  | .loop condition body _ =>
    [.kwWhile, .leftParen] ++ condition.words ++ [.rightParen] ++ body.words
  | .func parameters body _ =>
    [.kwFn, .leftParen] ++ commaWords (parameters.map fun p => [.ident p.name]) ++ [.rightParen]
      ++ body.words
  | .call callee arguments _ =>
    wrapWords (isOperation callee) callee.words ++ [.leftParen]
      ++ commaWords (Expr.wordsList arguments) ++ [.rightParen]
  | .index target position _ =>
    wrapWords (isOperation target) target.words ++ [.leftBracket] ++ position.words
      ++ [.rightBracket]

/-- The words of several expressions. -/
def Expr.wordsList : List Expr → List (List Token)
  | [] => []
  | e :: es => e.words :: Expr.wordsList es

/-- The words of a key, a colon and those of its value. -/
def Entry.words : Entry → List Token
  | ⟨key, value⟩ => key.words ++ [.colon] ++ value.words

/-- The words of several entries. -/
def Entry.wordsList : List Entry → List (List Token)
  | [] => []
  | p :: ps => p.words :: Entry.wordsList ps

/-- The words of a condition after its consequence. -/
def Block.wordsElse : Option Block → List Token
  | none => []
  | some body => [.kwElse] ++ body.words

/-- The words of a statement without its semicolon; nothing for a blank line. -/
def Stmt.words? : Stmt → Option (List Token)
  | .bind name value _ => some ([.kwLet, .ident name.name, .operator .assign] ++ value.words)
  | .ret value _ => some ([.kwReturn] ++ value.words)
  | .expr value => some (wrapWords (startsWithHash value) value.words)
  | .block body => some body.words
  | .blank _ => none

/-- The words of several statements, nothing for blank lines. -/
def Stmt.wordsList : List Stmt → List (Option (List Token))
  | [] => []
  | s :: ss => s.words? :: Stmt.wordsList ss

/-- The words of a block. -/
def Block.words : Block → List Token
  | ⟨statements, _⟩ =>
    [.leftBrace] ++ linesWords (trimGaps Option.isNone (Stmt.wordsList statements)) ++ [.rightBrace]

end

theorem Expr.wordsList_eq (es : List Expr) : Expr.wordsList es = es.map Expr.words := by
  induction es with
  | nil => rfl
  | cons e es ih => exact congrArg (e.words :: ·) ih

theorem Entry.wordsList_eq (ps : List Entry) : Entry.wordsList ps = ps.map Entry.words := by
  induction ps with
  | nil => rfl
  | cons p ps ih => exact congrArg (p.words :: ·) ih

theorem Stmt.wordsList_eq (ss : List Stmt) : Stmt.wordsList ss = ss.map Stmt.words? := by
  induction ss with
  | nil => rfl
  | cons s ss ih => exact congrArg (s.words? :: ·) ih

/-- The words of the statements that are kept. -/
theorem Stmt.trimGaps_wordsList (ss : List Stmt) :
    trimGaps Option.isNone (Stmt.wordsList ss) = (trimGaps Stmt.isBlank ss).map Stmt.words? := by
  rw [Stmt.wordsList_eq]
  exact trimGaps_map (fun s => by cases s <;> rfl) ss

/-- The texts of the statements that are kept. -/
theorem Stmt.trimGaps_layoutList (indent : Indent) (depth : Nat) (ss : List Stmt) :
    trimGaps Option.isNone (Stmt.layoutList indent depth ss) =
      (trimGaps Stmt.isBlank ss).map (Stmt.layout? indent depth) := by
  rw [Stmt.layoutList_eq]
  exact trimGaps_map (Stmt.isNone_layout? indent depth) ss

/-! ## Spelling -/

mutual

/-- The names and numbers of an expression are spelled as the lexer reads them, and the numbers have
    the value of their spelling. -/
def Expr.Spelled : Expr → Prop
  | .ident name => (Token.ident name.name).Spelled
  | .int value spelling _ =>
    (Token.int spelling).Spelled ∧ Numeral.readInteger spelling = some value
  | .float value spelling _ =>
    (Token.float spelling).Spelled ∧ Numeral.readFloat spelling = some value
  | .bool .. | .str .. => True
  | .array elements _ => Expr.SpelledList elements
  | .hash entries _ => Entry.SpelledList entries
  | .unary _ operand _ => operand.Spelled
  | .binary left _ right _ => left.Spelled ∧ right.Spelled
  | .cond condition consequence alternative _ =>
    condition.Spelled ∧ consequence.Spelled ∧ Block.SpelledOption alternative
  | .loop condition body _ => condition.Spelled ∧ body.Spelled
  | .func parameters body _ =>
    (∀ p ∈ parameters, (Token.ident p.name).Spelled) ∧ body.Spelled
  | .call callee arguments _ => callee.Spelled ∧ Expr.SpelledList arguments
  | .index target position _ => target.Spelled ∧ position.Spelled

/-- The same for several expressions. -/
def Expr.SpelledList : List Expr → Prop
  | [] => True
  | e :: es => e.Spelled ∧ Expr.SpelledList es

/-- The same for an entry. -/
def Entry.Spelled : Entry → Prop
  | ⟨key, value⟩ => key.Spelled ∧ value.Spelled

/-- The same for several entries. -/
def Entry.SpelledList : List Entry → Prop
  | [] => True
  | p :: ps => p.Spelled ∧ Entry.SpelledList ps

/-- The same for a block that may be missing. -/
def Block.SpelledOption : Option Block → Prop
  | none => True
  | some body => body.Spelled

/-- The same for a statement. -/
def Stmt.Spelled : Stmt → Prop
  | .bind name value _ => (Token.ident name.name).Spelled ∧ value.Spelled
  | .ret value _ => value.Spelled
  | .expr value => value.Spelled
  | .block body => body.Spelled
  | .blank _ => True

/-- The same for several statements. -/
def Stmt.SpelledList : List Stmt → Prop
  | [] => True
  | s :: ss => s.Spelled ∧ Stmt.SpelledList ss

/-- The same for a block. -/
def Block.Spelled : Block → Prop
  | ⟨statements, _⟩ => Stmt.SpelledList statements

end

theorem Expr.spelledList_iff (es : List Expr) : Expr.SpelledList es ↔ ∀ e ∈ es, e.Spelled := by
  induction es with
  | nil => simp [Expr.SpelledList]
  | cons e es ih => simp [Expr.SpelledList, ih]

theorem Entry.spelledList_iff (ps : List Entry) : Entry.SpelledList ps ↔ ∀ p ∈ ps, p.Spelled := by
  induction ps with
  | nil => simp [Entry.SpelledList]
  | cons p ps ih => simp [Entry.SpelledList, ih]

theorem Stmt.spelledList_iff (ss : List Stmt) : Stmt.SpelledList ss ↔ ∀ s ∈ ss, s.Spelled := by
  induction ss with
  | nil => simp [Stmt.SpelledList]
  | cons s ss ih => simp [Stmt.SpelledList, ih]

/-! ## Texts that are read as words -/

/-- In front of `r` the text is read as the words. -/
def Spells (text : String) (ts : List Token) (r : List Char) : Prop :=
  tokensOf (text.toList ++ r) = ts ++ tokensOf r

theorem Spells.append {a b : String} {ts us : List Token} {r : List Char}
    (ha : Spells a ts (b.toList ++ r)) (hb : Spells b us r) : Spells (a ++ b) (ts ++ us) r := by
  unfold Spells at ha hb ⊢
  rw [String.toList_append, List.append_assoc, ha, hb, List.append_assoc]

/-- Blanks behind a text are no words. -/
theorem Spells.append_blank {a : String} {ts : List Token} {r : List Char}
    (ha : Spells a ts (" ".toList ++ r)) : Spells (a ++ " ") ts r := by
  have hblank : Spells " " [] r := tokensOf_spacing rfl r
  have happend := ha.append hblank
  rwa [List.append_nil] at happend

theorem spells_mark {c : Char} {text : String} (htext : text.toList = [c]) {t : Token}
    (ht : mark? c = some t) (r : List Char) : Spells text [t] r := by
  unfold Spells
  rw [htext]
  exact tokensOf_mark c ht r

theorem spells_keyword {word : String} {t : Token} (h : (word, t) ∈ Token.keywords) {r : List Char}
    (hr : Apart r) : Spells word [t] r :=
  tokensOf_keyword h hr

/-- The text starts with a character that is no blank and makes no operator of an exclamation
    mark before it. -/
def Starts (text : String) : Prop := ∃ c r, text.toList = c :: r ∧ isBlank c = false ∧ c ≠ '='

theorem Starts.append {a : String} (h : Starts a) (b : String) : Starts (a ++ b) := by
  obtain ⟨c, r, ha, hc⟩ := h
  refine ⟨c, r ++ b.toList, ?_, hc⟩
  rw [String.toList_append, ha]
  rfl

/-- The text is read as the words in front of everything that cannot belong to its last word. -/
structure ReadAs (text : String) (ts : List Token) : Prop where
  starts : Starts text
  spells : ∀ r, Apart r → Spells text ts r

theorem apart_text {text : String} {c : Char} {cs : List Char} (htext : text.toList = c :: cs)
    (hc : isNameChar c = false ∧ c.isDigit = false ∧ c ≠ '.') (r : List Char) :
    Apart (text.toList ++ r) := by
  rw [htext]
  exact apart_cons (cs ++ r) hc

/-- A text that is one character. -/
theorem starts_singleton {text : String} {c : Char} (htext : text.toList = [c])
    (hc : isBlank c = false ∧ c ≠ '=') : Starts text :=
  ⟨c, [], htext, hc⟩

theorem ReadAs.wrapIf {text : String} {ts : List Token} (h : ReadAs text ts) (wanted : Bool) :
    ReadAs (wrapIf wanted text) (wrapWords wanted ts) := by
  cases wanted with
  | false => exact h
  | true =>
    have hstart : Starts "(" := starts_singleton rfl (by decide)
    refine ⟨(hstart.append text).append ")", fun r _ => ?_⟩
    refine Spells.append (Spells.append ?_ (h.spells _ ?_)) ?_
    · exact spells_mark rfl rfl _
    · exact apart_text rfl (by decide) r
    · exact spells_mark rfl rfl r

/-- A text whose tokens do not depend on what stands behind it. -/
theorem ReadAs.of_spells {text : String} {ts : List Token} (hstart : Starts text)
    (h : ∀ r, Spells text ts r) : ReadAs text ts :=
  ⟨hstart, fun r _ => h r⟩

/-! ### Pieces with something between them -/

section Pieces

variable {α : Type} {f : α → String} {g : α → List Token}

/-- Pieces start as the first of them. -/
theorem Starts.intercalate {x : α} (h : Starts (f x)) (sep : String) (xs : List α) :
    Starts (String.intercalate sep ((x :: xs).map f)) := by
  cases xs with
  | nil =>
    rw [List.map_singleton, String.intercalate_singleton]
    exact h
  | cons y ys =>
    rw [List.map_cons, List.map_cons, String.intercalate_cons_cons]
    exact (h.append sep).append _

/-- Pieces with a separator between them, which has words of its own in front of a piece. -/
theorem separated_spells {sep : String} {us : List Token}
    (hsep : ∀ b r, Starts b → Spells sep us (b.toList ++ r)) (hapart : ∀ r, Apart (sep.toList ++ r))
    {xs : List α} (h : ∀ x ∈ xs, ReadAs (f x) (g x)) {r : List Char} (hr : Apart r) :
    Spells (String.intercalate sep (xs.map f)) (List.intercalate us (xs.map g)) r := by
  induction xs with
  | nil => rfl
  | cons x xs ih =>
    have hx := h x List.mem_cons_self
    have hxs := ih fun y hy => h y (List.mem_cons_of_mem x hy)
    cases xs with
    | nil =>
      rw [List.map_singleton, List.map_singleton, String.intercalate_singleton,
        List.intercalate_singleton]
      exact hx.spells r hr
    | cons y ys =>
      have hy : Starts (f y) := (h y (List.mem_cons_of_mem x List.mem_cons_self)).starts
      rw [List.map_cons, List.map_cons, List.map_cons, List.map_cons,
        String.intercalate_cons_cons, List.intercalate_cons_cons]
      exact ((hx.spells _ (hapart _)).append (hsep _ r (hy.intercalate sep ys))).append hxs

theorem spells_comma (r : List Char) : Spells ", " [.comma] r := by
  show tokensOf (',' :: ' ' :: r) = .comma :: tokensOf r
  rw [tokensOf_mark ',' rfl, tokensOf_spacing rfl]

theorem intercalate_spells {xs : List α} (h : ∀ x ∈ xs, ReadAs (f x) (g x)) {r : List Char}
    (hr : Apart r) : Spells (String.intercalate ", " (xs.map f)) (commaWords (xs.map g)) r :=
  separated_spells (fun _ _ _ => spells_comma _) (apart_text rfl (by decide)) h hr

/-- Pieces with commas between two marks. -/
theorem readAs_list {xs : List α} (h : ∀ x ∈ xs, ReadAs (f x) (g x)) {opening closing : String}
    {c d : Char} {t u : Token} (ho : opening.toList = [c]) (ht : mark? c = some t)
    (hc : isBlank c = false ∧ c ≠ '=') (hcl : closing.toList = [d]) (hu : mark? d = some u)
    (hd : isNameChar d = false ∧ d.isDigit = false ∧ d ≠ '.') :
    ReadAs (opening ++ String.intercalate ", " (xs.map f) ++ closing)
      ([t] ++ commaWords (xs.map g) ++ [u]) := by
  refine .of_spells (((starts_singleton ho hc).append _).append _) fun r => ?_
  refine Spells.append (Spells.append (spells_mark ho ht _) (intercalate_spells h ?_)) ?_
  · exact apart_text hcl hd r
  · exact spells_mark hcl hu r

end Pieces

/-! ### Lines -/

/-- A line of statements and its words. -/
def LineAs : Option String → Option (List Token) → Prop
  | none, none => True
  | some text, some ts => ReadAs text ts
  | _, _ => False

theorem LineAs.cases {line : Option String} {ts : Option (List Token)} (h : LineAs line ts) :
    (line = none ∧ ts = none) ∨ ∃ text us, line = some text ∧ ts = some us ∧ ReadAs text us := by
  cases line with
  | none =>
    cases ts with
    | none => exact Or.inl ⟨rfl, rfl⟩
    | some us => cases h
  | some text =>
    cases ts with
    | none => cases h
    | some us => exact Or.inr ⟨text, us, rfl, rfl, h⟩

section Lines

variable {α : Type} {f : α → Option String} {g : α → Option (List Token)} (margin : String)

/-- The characters of a line and of the lines after it. -/
theorem toList_line (text : String) (rest : List (Option String)) (r : List Char) :
    (linesOf margin (some text :: rest)).toList ++ r =
      margin.toList ++ (text.toList ++ (";\n".toList ++ ((linesOf margin rest).toList ++ r))) := by
  show (margin ++ text ++ ";\n" ++ linesOf margin rest).toList ++ r = _
  rw [String.toList_append, String.toList_append, String.toList_append, List.append_assoc,
    List.append_assoc, List.append_assoc]

/-- A line that is no blank one starts with its margin and a word. -/
theorem line_starts {x : α} {text : String} {ts : List Token} (hf : f x = some text)
    (hread : ReadAs text ts) (xs : List α) (r : List Char) :
    ∃ c cs, (linesOf margin ((x :: xs).map f)).toList ++ r = margin.toList ++ c :: cs ∧
      isBlank c = false := by
  obtain ⟨c, cs, htext, hc, -⟩ := hread.starts
  rw [List.map_cons, hf, toList_line, htext]
  exact ⟨c, _, rfl, hc⟩

variable {margin}

/-- The lines behind a line break, with another line break behind them, are read as their words. -/
theorem tokensOf_linesOf (hm : ∀ c ∈ margin.toList, isSpacing c = true) {xs : List α}
    (h : ∀ x ∈ xs, LineAs (f x) (g x)) (htidy : Tidy Option.isNone (xs.map f)) (r : List Char) :
    tokensOf ('\n' :: ((linesOf margin (xs.map f)).toList ++ r)) =
      linesWords (xs.map g) ++ tokensOf ('\n' :: r) := by
  induction xs with
  | nil => rfl
  | cons x xs ih =>
    have ih := ih (fun y hy => h y (List.mem_cons_of_mem x hy)) htidy.2
    rcases (h x List.mem_cons_self).cases with ⟨hf, hg⟩ | ⟨text, ts, hf, hg, hread⟩
    · -- a blank line stands in front of a line that is none
      obtain ⟨line, lines, hlines, hline⟩ := htidy.1 (by rw [hf]; rfl)
      cases xs with
      | nil => cases hlines
      | cons y ys =>
        obtain ⟨rfl, -⟩ := List.cons.inj hlines
        rcases (h y (List.mem_cons_of_mem x List.mem_cons_self)).cases with
          ⟨hnone, -⟩ | ⟨text, ts, hf', -, hread⟩
        · rw [hnone] at hline
          exact absurd hline (by simp)
        · obtain ⟨c, cs, hcs, hc⟩ := line_starts margin hf' hread ys r
          rw [hcs, tokensOf_newline hm hc] at ih
          rw [List.map_cons, List.map_cons (f := g), hf, hg]
          show tokensOf ('\n' :: (("\n" ++ linesOf margin ((y :: ys).map f)).toList ++ r)) =
            .blankLine :: (linesWords ((y :: ys).map g) ++ tokensOf ('\n' :: r))
          rw [String.toList_append, List.append_assoc, hcs, ← ih]
          exact tokensOf_blankLine hm hc cs
    · -- the line break and the margin in front of a word are passed in silence
      obtain ⟨c, cs, htext, hc, -⟩ := hread.starts
      have hrest : ∀ rest, tokensOf ('\n' :: (margin.toList ++ (text.toList ++ rest))) =
          tokensOf (text.toList ++ rest) := by
        intro rest
        rw [htext]
        exact tokensOf_newline hm hc (cs ++ rest)
      have hbehind : Apart (";\n".toList ++ ((linesOf margin (xs.map f)).toList ++ r)) :=
        apart_text rfl (by decide) _
      rw [List.map_cons, List.map_cons (f := g), hf, hg, toList_line, hrest]
      calc tokensOf (text.toList ++ (";\n".toList ++ ((linesOf margin (xs.map f)).toList ++ r)))
          = ts ++ tokensOf (';' :: '\n' :: ((linesOf margin (xs.map f)).toList ++ r)) :=
            hread.spells _ hbehind
        _ = ts ++ .semicolon :: (linesWords (xs.map g) ++ tokensOf ('\n' :: r)) := by
            rw [tokensOf_mark ';' rfl, ih]
        _ = linesWords (some ts :: xs.map g) ++ tokensOf ('\n' :: r) := by
            show _ = ts ++ [.semicolon] ++ linesWords (xs.map g) ++ tokensOf ('\n' :: r)
            rw [List.append_assoc, List.append_assoc]
            rfl

end Lines

/-! ## The canonical text -/

section Layout

variable {indent : Indent} (hi : isSpacing indent.char = true)

theorem readAs_ident {name : String} (h : (Token.ident name).Spelled) : ReadAs name [.ident name] := by
  obtain ⟨c, w, hcw⟩ := List.exists_cons_of_ne_nil h.ne_nil
  have hc : isNameChar c = true := h.chars c (by rw [hcw]; exact List.mem_cons_self)
  refine ⟨⟨c, w, hcw, not_isBlank hc (by decide), ?_⟩, fun r hr => tokensOf_name h hr⟩
  rintro rfl
  exact absurd hc (by decide)

theorem readAs_int {text : String} (h : (Token.int text).Spelled) : ReadAs text [.int text] := by
  obtain ⟨c, w, hcw⟩ := List.exists_cons_of_ne_nil h.ne_nil
  have hc : c.isDigit = true := h.digits c (by rw [hcw]; exact List.mem_cons_self)
  refine ⟨⟨c, w, hcw, not_isBlank hc (by decide), ?_⟩, fun r hr => tokensOf_int h hr⟩
  rintro rfl
  exact absurd hc (by decide)

theorem readAs_float {text : String} (h : (Token.float text).Spelled) :
    ReadAs text [.float text] := by
  obtain ⟨whole, places, h⟩ := h
  refine ⟨?_, fun r hr => tokensOf_float h hr⟩
  cases whole with
  | nil => exact ⟨'.', places, h.eq, by decide⟩
  | cons c whole =>
    have hc : c.isDigit = true := h.digits c List.mem_cons_self
    refine ⟨c, whole ++ '.' :: places, h.eq, not_isBlank hc (by decide), ?_⟩
    rintro rfl
    exact absurd hc (by decide)

theorem readAs_bool (value : Bool) :
    ReadAs (if value then "true" else "false") [if value then .kwTrue else .kwFalse] := by
  cases value with
  | false => exact ⟨⟨'f', _, rfl, by decide⟩, fun r hr => spells_keyword (by decide) hr⟩
  | true => exact ⟨⟨'t', _, rfl, by decide⟩, fun r hr => spells_keyword (by decide) hr⟩

theorem readAs_quote (value : String) : ReadAs (Text.quote value) [.str value] :=
  .of_spells ⟨'"', _, Text.toList_quote value, by decide⟩ (tokensOf_quote value)

theorem readAs_unary (op : UnaryOp) {text : String} {ts : List Token} (h : ReadAs text ts) :
    ReadAs (op.text ++ text) ([op.token] ++ ts) := by
  have hstart : Starts op.text := by
    cases op with
    | neg => exact starts_singleton rfl (by decide)
    | not => exact starts_singleton rfl (by decide)
  refine ⟨hstart.append text, fun r hr => Spells.append ?_ (h.spells r hr)⟩
  obtain ⟨c, cs, htext, -, hc⟩ := h.starts
  unfold Spells
  rw [htext]
  exact tokensOf_unaryOp op hc (cs ++ r)

theorem readAs_binary (op : BinaryOp) {a b : String} {ts us : List Token} (ha : ReadAs a ts)
    (hb : ReadAs b us) :
    ReadAs (a ++ " " ++ op.text ++ " " ++ b) (ts ++ [.operator op] ++ us) := by
  refine ⟨(((ha.starts.append " ").append op.text).append " ").append b, fun r hr => ?_⟩
  refine Spells.append (Spells.append_blank ?_) (hb.spells r hr)
  refine Spells.append (Spells.append_blank (ha.spells _ ?_)) ?_
  · exact apart_text rfl (by decide) _
  · exact tokensOf_operator op (b.toList ++ r)

theorem readAs_entry {a b : String} {ts us : List Token} (ha : ReadAs a ts) (hb : ReadAs b us) :
    ReadAs (a ++ ": " ++ b) (ts ++ [.colon] ++ us) := by
  refine ⟨(ha.starts.append ": ").append b, fun r hr => ?_⟩
  refine Spells.append (Spells.append (ha.spells _ ?_) ?_) (hb.spells r hr)
  · exact apart_text rfl (by decide) _
  · show tokensOf (':' :: ' ' :: (b.toList ++ r)) = .colon :: tokensOf (b.toList ++ r)
    rw [tokensOf_mark ':' rfl, tokensOf_spacing rfl]

/-- A target, and something between brackets behind it. -/
theorem readAs_behind {a b opening closing : String} {ts us : List Token} {c d : Char} {t u : Token}
    (ha : ReadAs a ts) (hb : ∀ r, Apart r → Spells b us r) (ho : opening.toList = [c])
    (ht : mark? c = some t) (hc : isNameChar c = false ∧ c.isDigit = false ∧ c ≠ '.')
    (hcl : closing.toList = [d]) (hu : mark? d = some u)
    (hd : isNameChar d = false ∧ d.isDigit = false ∧ d ≠ '.') :
    ReadAs (a ++ opening ++ b ++ closing) (ts ++ [t] ++ us ++ [u]) := by
  -- what is inside is followed by the closing mark, so its last word ends there
  refine .of_spells (((ha.starts.append _).append _).append _) fun r => ?_
  refine Spells.append (Spells.append (Spells.append (ha.spells _ ?_) ?_) (hb _ ?_)) ?_
  · exact apart_text ho hc _
  · exact spells_mark ho ht _
  · exact apart_text hcl hd _
  · exact spells_mark hcl hu r

/-- What stands between a keyword and a block: something in parentheses. -/
theorem readAs_keyword {opening a b : String} {ts us vs : List Token}
    (hstart : Starts opening) (ho : ∀ r, Spells opening ts r) (ha : ∀ r, Apart r → Spells a us r)
    (hb : ∀ r, Apart r → Spells b vs r) :
    ReadAs (opening ++ a ++ ") " ++ b) (ts ++ us ++ [.rightParen] ++ vs) := by
  refine ⟨((hstart.append _).append _).append _, fun r hr => ?_⟩
  refine Spells.append (Spells.append (Spells.append (ho _) (ha _ ?_)) ?_) (hb r hr)
  · exact apart_text rfl (by decide) _
  · show tokensOf (')' :: ' ' :: (b.toList ++ r)) = .rightParen :: tokensOf (b.toList ++ r)
    rw [tokensOf_mark ')' rfl, tokensOf_spacing rfl]

/-- A keyword, a blank and an opening parenthesis. -/
theorem spells_keyword_paren {text word : String} {t : Token} (h : (word, t) ∈ Token.keywords)
    (htext : text.toList = word.toList ++ [' ', '(']) (r : List Char) :
    Spells text [t, .leftParen] r := by
  unfold Spells
  rw [htext, List.append_assoc]
  show tokensOf (word.toList ++ ' ' :: '(' :: r) = t :: .leftParen :: tokensOf r
  rw [tokensOf_keyword h (apart_cons _ (by decide)), tokensOf_spacing rfl, tokensOf_mark '(' rfl]

theorem spells_fn (r : List Char) : Spells "fn(" [.kwFn, .leftParen] r := by
  show tokensOf ("fn".toList ++ '(' :: r) = .kwFn :: .leftParen :: tokensOf r
  have hkey : ("fn", Token.kwFn) ∈ Token.keywords := by decide
  rw [tokensOf_keyword hkey (apart_cons _ (by decide)), tokensOf_mark '(' rfl]

theorem Indent.isSpacing_text (hi : isSpacing indent.char = true) (depth : Nat) :
    ∀ c ∈ (indent.text depth).toList, isSpacing c = true := by
  intro c hc
  unfold Indent.text at hc
  rw [String.toList_ofList] at hc
  rw [List.eq_of_mem_replicate hc]
  exact hi

/-- Lines between braces. -/
theorem readAs_braces {inner outer : String} (ho : ∀ c ∈ outer.toList, isSpacing c = true)
    {lines : List (Option String)} {ts : List Token}
    (h : ∀ r, tokensOf ('\n' :: ((linesOf inner lines).toList ++ r)) = ts ++ tokensOf ('\n' :: r)) :
    ReadAs ("\x7b\n" ++ linesOf inner lines ++ outer ++ "\x7d")
      ([.leftBrace] ++ ts ++ [.rightBrace]) := by
  have hopen : Starts "\x7b\n" := ⟨'\x7b', _, rfl, by decide⟩
  refine .of_spells (((hopen.append _).append _).append _) fun r => ?_
  have hlast : tokensOf ('\n' :: (outer.toList ++ '\x7d' :: r)) = .rightBrace :: tokensOf r := by
    rw [tokensOf_newline ho rfl, tokensOf_mark '\x7d' rfl]
  unfold Spells
  rw [String.toList_append, String.toList_append, String.toList_append, List.append_assoc,
    List.append_assoc, List.append_assoc]
  show tokensOf ('\x7b' :: '\n' ::
    ((linesOf inner lines).toList ++ (outer.toList ++ '\x7d' :: r))) = _
  rw [tokensOf_mark '\x7b' rfl, h, hlast, List.append_assoc, List.append_assoc]
  rfl

/-- A block whose statements have the texts and words of its lines. -/
theorem readAs_block (hi : isSpacing indent.char = true) {ss : List Stmt} {span : Span} {depth : Nat}
    (h : ∀ s ∈ ss, LineAs (s.layout? indent (depth + 1)) s.words?) :
    ReadAs (Block.layout indent depth ⟨ss, span⟩) (Block.words ⟨ss, span⟩) := by
  have hlines : ∀ s ∈ trimGaps Stmt.isBlank ss, LineAs (s.layout? indent (depth + 1)) s.words? :=
    fun s hs => h s (mem_of_mem_trimGaps hs)
  have htidy : Tidy Option.isNone
      (trimGaps Option.isNone (Stmt.layoutList indent (depth + 1) ss)) := trimGaps_tidy _
  unfold Block.layout Block.words
  rw [Stmt.trimGaps_layoutList] at htidy ⊢
  rw [Stmt.trimGaps_wordsList]
  generalize trimGaps Stmt.isBlank ss = kept at hlines htidy ⊢
  cases kept with
  | nil =>
    -- a block without statements is written in one line
    show ReadAs "\x7b\x7d" [.leftBrace, .rightBrace]
    refine .of_spells ⟨'\x7b', _, rfl, by decide⟩ fun r => ?_
    show tokensOf ('\x7b' :: '\x7d' :: r) = .leftBrace :: .rightBrace :: tokensOf r
    rw [tokensOf_mark '\x7b' rfl, tokensOf_mark '\x7d' rfl]
  | cons s kept =>
    exact readAs_braces (Indent.isSpacing_text hi depth)
      (tokensOf_linesOf (Indent.isSpacing_text hi (depth + 1)) hlines htidy)

/-- A keyword and a blank. -/
theorem spells_keyword_blank {text word : String} {t : Token} (h : (word, t) ∈ Token.keywords)
    (htext : text.toList = word.toList ++ [' ']) (r : List Char) : Spells text [t] r := by
  unfold Spells
  rw [htext, List.append_assoc]
  show tokensOf (word.toList ++ ' ' :: r) = t :: tokensOf r
  rw [tokensOf_keyword h (apart_cons _ (by decide)), tokensOf_spacing rfl]

theorem readAs_let {name text : String} {ts : List Token} (hn : (Token.ident name).Spelled)
    (h : ReadAs text ts) :
    ReadAs ("let " ++ name ++ " = " ++ text) ([.kwLet, .ident name, .operator .assign] ++ ts) := by
  have hstart : Starts "let " := ⟨'l', _, rfl, by decide⟩
  have hkey : ("let", Token.kwLet) ∈ Token.keywords := by decide
  have hassign (r : List Char) : Spells " = " [.operator .assign] r := by
    show tokensOf (' ' :: (BinaryOp.assign.text.toList ++ ' ' :: r)) =
      .operator .assign :: tokensOf r
    rw [tokensOf_spacing rfl, tokensOf_operator, tokensOf_spacing rfl]
  refine ⟨((hstart.append _).append _).append _, fun r hr => ?_⟩
  have hbound : Spells ("let " ++ name) [.kwLet, .ident name] (" = ".toList ++ (text.toList ++ r)) :=
    (spells_keyword_blank hkey rfl _).append
      ((readAs_ident hn).spells _ (apart_text rfl (by decide) _))
  exact (hbound.append (hassign _)).append (h.spells r hr)

theorem readAs_return {text : String} {ts : List Token} (h : ReadAs text ts) :
    ReadAs ("return " ++ text) ([.kwReturn] ++ ts) := by
  have hstart : Starts "return " := ⟨'r', _, rfl, by decide⟩
  have hkey : ("return", Token.kwReturn) ∈ Token.keywords := by decide
  exact ⟨hstart.append _, fun r hr => (spells_keyword_blank hkey rfl _).append (h.spells r hr)⟩

theorem apart_else (text : String) (r : List Char) : Apart ((" else " ++ text).toList ++ r) := by
  rw [String.toList_append, List.append_assoc]
  exact apart_text rfl (by decide) _

theorem spells_else {text : String} {ts : List Token} (h : ReadAs text ts) {r : List Char}
    (hr : Apart r) : Spells (" else " ++ text) ([.kwElse] ++ ts) r := by
  refine Spells.append ?_ (h.spells r hr)
  have hkey : ("else", Token.kwElse) ∈ Token.keywords := by decide
  show tokensOf (' ' :: ("else".toList ++ ' ' :: (text.toList ++ r))) =
    .kwElse :: tokensOf (text.toList ++ r)
  rw [tokensOf_spacing rfl, tokensOf_keyword hkey (apart_cons _ (by decide)), tokensOf_spacing rfl]

end Layout

section Trees

variable {indent : Indent}

/-- What stands behind the consequence of a condition is no part of a word before it. -/
theorem apart_layoutElse (b : Option Block) (depth : Nat) {r : List Char} (hr : Apart r) :
    Apart ((Block.layoutElse indent depth b).toList ++ r) := by
  cases b with
  | none => exact hr
  | some body => exact apart_else (body.layout indent depth) r

mutual

theorem Expr.layout_readAs (hi : isSpacing indent.char = true) :
    ∀ (e : Expr) (depth : Nat), e.Spelled →
      ReadAs (e.layout indent depth) e.words
  | .ident name, _, h => readAs_ident h
  | .int _ spelling _, _, h => readAs_int h.1
  | .float _ spelling _, _, h => readAs_float h.1
  | .bool value _, _, _ => readAs_bool value
  | .str value _, _, _ => readAs_quote value
  | .array elements _, depth, h => by
    unfold Expr.layout Expr.words
    rw [Expr.layoutList_eq, Expr.wordsList_eq]
    exact readAs_list (Expr.layoutList_readAs hi elements depth h) rfl rfl (by decide) rfl rfl
      (by decide)
  | .hash entries _, depth, h => by
    unfold Expr.layout Expr.words
    rw [Entry.layoutList_eq, Entry.wordsList_eq]
    exact readAs_list (Entry.layoutList_readAs hi entries depth h) rfl rfl (by decide) rfl rfl
      (by decide)
  | .unary op operand _, depth, h => by
    unfold Expr.layout Expr.words
    exact readAs_unary op ((Expr.layout_readAs hi operand depth h).wrapIf (isBinary operand))
  | .binary left op right _, depth, h => by
    unfold Expr.layout Expr.words
    exact readAs_binary op
      ((Expr.layout_readAs hi left depth h.1).wrapIf (needsParens left op false))
      ((Expr.layout_readAs hi right depth h.2).wrapIf (needsParens right op true))
  | .cond condition consequence alternative _, depth, h => by
    have hkey : ("if", Token.kwIf) ∈ Token.keywords := by decide
    have hopen : ∀ r, Spells "if (" [.kwIf, .leftParen] r := spells_keyword_paren hkey rfl
    have hif := readAs_keyword ⟨'i', _, rfl, by decide⟩ hopen
      (Expr.layout_readAs hi condition depth h.1).spells
      (Block.layout_readAs hi consequence depth h.2.1).spells
    unfold Expr.layout Expr.words
    refine ⟨hif.starts.append _, fun r hr => ?_⟩
    exact (hif.spells _ (apart_layoutElse alternative depth hr)).append
      (Block.layoutElse_spells hi alternative depth h.2.2 r hr)
  | .loop condition body _, depth, h => by
    have hkey : ("while", Token.kwWhile) ∈ Token.keywords := by decide
    unfold Expr.layout Expr.words
    exact readAs_keyword ⟨'w', _, rfl, by decide⟩ (spells_keyword_paren hkey rfl)
      (Expr.layout_readAs hi condition depth h.1).spells
      (Block.layout_readAs hi body depth h.2).spells
  | .func parameters body _, depth, h => by
    unfold Expr.layout Expr.words renderParameters
    exact readAs_keyword ⟨'f', _, rfl, by decide⟩ spells_fn
      (fun r hr => intercalate_spells (fun p hp => readAs_ident (h.1 p hp)) hr)
      (Block.layout_readAs hi body depth h.2).spells
  | .call callee arguments _, depth, h => by
    unfold Expr.layout Expr.words
    rw [Expr.layoutList_eq, Expr.wordsList_eq]
    exact readAs_behind ((Expr.layout_readAs hi callee depth h.1).wrapIf (isOperation callee))
      (fun r hr => intercalate_spells (Expr.layoutList_readAs hi arguments depth h.2) hr)
      rfl rfl (by decide) rfl rfl (by decide)
  | .index target position _, depth, h => by
    unfold Expr.layout Expr.words
    exact readAs_behind ((Expr.layout_readAs hi target depth h.1).wrapIf (isOperation target))
      (Expr.layout_readAs hi position depth h.2).spells rfl rfl (by decide) rfl rfl (by decide)

theorem Expr.layoutList_readAs (hi : isSpacing indent.char = true) :
    ∀ (es : List Expr) (depth : Nat), Expr.SpelledList es →
      ∀ e ∈ es, ReadAs (e.layout indent depth) e.words
  | [], _, _ => fun _ he => absurd he List.not_mem_nil
  | e :: es, depth, h =>
    List.forall_mem_cons.mpr
      ⟨Expr.layout_readAs hi e depth h.1, Expr.layoutList_readAs hi es depth h.2⟩

theorem Entry.layout_readAs (hi : isSpacing indent.char = true) :
    ∀ (p : Entry) (depth : Nat), p.Spelled →
      ReadAs (p.layout indent depth) p.words
  | ⟨key, value⟩, depth, h => by
    unfold Entry.layout Entry.words
    exact readAs_entry (Expr.layout_readAs hi key depth h.1) (Expr.layout_readAs hi value depth h.2)

theorem Entry.layoutList_readAs (hi : isSpacing indent.char = true) :
    ∀ (ps : List Entry) (depth : Nat), Entry.SpelledList ps →
      ∀ p ∈ ps, ReadAs (p.layout indent depth) p.words
  | [], _, _ => fun _ hp => absurd hp List.not_mem_nil
  | p :: ps, depth, h =>
    List.forall_mem_cons.mpr
      ⟨Entry.layout_readAs hi p depth h.1, Entry.layoutList_readAs hi ps depth h.2⟩

theorem Block.layoutElse_spells (hi : isSpacing indent.char = true) :
    ∀ (b : Option Block) (depth : Nat), Block.SpelledOption b →
      ∀ r, Apart r → Spells (Block.layoutElse indent depth b) (Block.wordsElse b) r
  | none, _, _ => fun _ _ => rfl
  | some body, depth, h => fun r hr => by
    unfold Block.layoutElse Block.wordsElse
    exact spells_else (Block.layout_readAs hi body depth h) hr

theorem Stmt.layout?_lineAs (hi : isSpacing indent.char = true) :
    ∀ (s : Stmt) (depth : Nat), s.Spelled →
      LineAs (s.layout? indent depth) s.words?
  | .bind name value _, depth, h => by
    unfold Stmt.layout? Stmt.words?
    exact readAs_let h.1 (Expr.layout_readAs hi value depth h.2)
  | .ret value _, depth, h => by
    unfold Stmt.layout? Stmt.words?
    exact readAs_return (Expr.layout_readAs hi value depth h)
  | .expr value, depth, h => by
    unfold Stmt.layout? Stmt.words?
    exact (Expr.layout_readAs hi value depth h).wrapIf (startsWithHash value)
  | .block body, depth, h => by
    unfold Stmt.layout? Stmt.words?
    exact Block.layout_readAs hi body depth h
  | .blank _, _, _ => trivial

theorem Stmt.layoutList_lineAs (hi : isSpacing indent.char = true) :
    ∀ (ss : List Stmt) (depth : Nat), Stmt.SpelledList ss →
      ∀ s ∈ ss, LineAs (s.layout? indent depth) s.words?
  | [], _, _ => fun _ hs => absurd hs List.not_mem_nil
  | s :: ss, depth, h =>
    List.forall_mem_cons.mpr
      ⟨Stmt.layout?_lineAs hi s depth h.1, Stmt.layoutList_lineAs hi ss depth h.2⟩

theorem Block.layout_readAs (hi : isSpacing indent.char = true) :
    ∀ (b : Block) (depth : Nat), b.Spelled →
      ReadAs (b.layout indent depth) b.words
  | ⟨statements, _⟩, depth, h => readAs_block hi (Stmt.layoutList_lineAs hi statements (depth + 1) h)

end

theorem Indent.text_zero (indent : Indent) : indent.text 0 = "" := by
  unfold Indent.text
  rw [Nat.zero_mul]
  rfl

/-- The lines of a program: the first one is no blank line, and there is no margin. -/
theorem tokens_linesOf {α : Type} {f : α → Option String} {g : α → Option (List Token)} {xs : List α}
    (h : ∀ x ∈ xs, LineAs (f x) (g x)) (htidy : Tidy Option.isNone (xs.map f))
    (hfull : StartsFull Option.isNone (xs.map f)) :
    (tokenize (linesOf "" (xs.map f))).map Lexeme.token = linesWords (xs.map g) ++ [.eof] := by
  have hmargin : ∀ c ∈ "".toList, isSpacing c = true := fun c hc => absurd hc List.not_mem_nil
  have hread := tokensOf_linesOf hmargin h htidy []
  rw [List.append_nil, tokensOf_end] at hread
  cases xs with
  | nil =>
    -- an empty program has an empty text
    show (Lexer.ofChars []).lexemes.map Lexeme.token = [.eof]
    rw [Lexer.lexemes_eq]
    rfl
  | cons x xs =>
    rcases (h x List.mem_cons_self).cases with ⟨hf, -⟩ | ⟨text, ts, hf, -, hx⟩
    · exact absurd (hfull (f x) rfl) (by simp [hf])
    · obtain ⟨c, cs, hcs, hc⟩ := line_starts "" hf hx xs []
      have hcs : (linesOf "" ((x :: xs).map f)).toList = c :: cs :=
        (List.append_nil _).symm.trans hcs
      have hnewline : tokensOf ('\n' :: c :: cs) = tokensOf (c :: cs) :=
        tokensOf_newline hmargin hc cs
      unfold tokenize
      rw [← hread, hcs, hnewline, tokens_start hc]

/-- The canonical text of a program is read as its words. -/
theorem Program.tokens_layout (hi : isSpacing indent.char = true) {p : Program}
    (h : Stmt.SpelledList p.statements) :
    (tokenize (p.layout indent)).map Lexeme.token =
      linesWords ((trimGaps Stmt.isBlank p.statements).map Stmt.words?) ++ [.eof] := by
  have hlines : ∀ s ∈ trimGaps Stmt.isBlank p.statements, LineAs (s.layout? indent 0) s.words? :=
    fun s hs => Stmt.layoutList_lineAs hi p.statements 0 h s (mem_of_mem_trimGaps hs)
  unfold Program.layout
  rw [Indent.text_zero, Stmt.trimGaps_layoutList]
  refine tokens_linesOf hlines ?_ ?_
  · rw [← Stmt.trimGaps_layoutList]
    exact trimGaps_tidy _
  · rw [← Stmt.trimGaps_layoutList]
    exact trimGaps_startsFull _

end Trees

end Scriptlet
