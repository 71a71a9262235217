import Scriptlet.Proofs.Syntax.Marked

/-!
# `Proofs.Syntax.Writing` — writing the canonical text line by line

The canonical text is followed mark by mark. At each place it is known how many blocks are open and how
far the line is written, and the rules say what may come next. A blank line comes behind a statement
only. A statement starts where the margin is as wide as the depth asks for, and a line ends behind a
semicolon or behind the brace of a block that is not empty.

An expression keeps the depth whatever blocks it holds. So its text fits at the start of a statement as
well as later on a line, and so do the texts of its parts.

## Contents
- `Phase`, `Spot`, `Step`, `Runs`: places in a text, and the marks that lead from one to another.
- `Flows`, `Follows`: marked texts that keep the depth, from the start of a statement on or later.
- `runs_keptLines`: the lines of statements. `Block.marks_flows_of_stmts`: a block around them.
- `Expr.marks_flows`, `Program.marks_runs`: trees whose names and numbers are spelled as the lexer reads
  them are written by the rules.
-/

namespace Scriptlet

/-! ## Steps -/

/-- What stands above a line. -/
inductive Above where
  | nothing
  | opening
  | statement
  | blank

/-- What stands last on a line. -/
inductive Last where
  | text
  | semicolon
  | opening
deriving DecidableEq

/-- How far a line is written: so many characters of its margin, the start of a statement behind it, or
    more than that. -/
inductive Phase where
  | margin (width : Nat) (above : Above)
  | start
  | inside (last : Last)

/-- How many blocks are open, and how far the line is written. -/
structure Spot where
  depth : Nat
  phase : Phase

/-- A character as the last one of a line. -/
def Last.ofChar (c : Char) : Last := if c = ';' then .semicolon else .text

/-- The next mark. -/
inductive Step (indent : Indent) : Spot → Mark → Spot → Prop
  | indentation {d width : Nat} {above : Above} :
    Step indent ⟨d, .margin width above⟩ (.char indent.char) ⟨d, .margin (width + 1) above⟩
  | blank {d : Nat} : Step indent ⟨d, .margin 0 .statement⟩ (.char '\n') ⟨d, .margin 0 .blank⟩
  | starts {d : Nat} {above : Above} {s : Stmt} :
    Step indent ⟨d, .margin (d * indent.size) above⟩ (.starts s) ⟨d, .start⟩
  | firstCloses {d : Nat} :
    Step indent ⟨d + 1, .margin (d * indent.size) .statement⟩ .closes ⟨d, .inside .text⟩
  | first {d : Nat} {c : Char} (hline : c ≠ '\n') (hmargin : c ≠ indent.char) (hbrace : c ≠ '\x7d') :
    Step indent ⟨d, .start⟩ (.char c) ⟨d, .inside (.ofChar c)⟩
  | firstOpens {d : Nat} : Step indent ⟨d, .start⟩ .opens ⟨d + 1, .inside .opening⟩
  | next {d : Nat} {last : Last} {c : Char} (hlast : last ≠ .opening) (hline : c ≠ '\n') :
    Step indent ⟨d, .inside last⟩ (.char c) ⟨d, .inside (.ofChar c)⟩
  | opens {d : Nat} {last : Last} (hlast : last ≠ .opening) :
    Step indent ⟨d, .inside last⟩ .opens ⟨d + 1, .inside .opening⟩
  | closes {d : Nat} : Step indent ⟨d + 1, .inside .opening⟩ .closes ⟨d, .inside .text⟩
  | ends {d : Nat} {last : Last} {s : Stmt} (hlast : last ≠ .opening) :
    Step indent ⟨d, .inside last⟩ (.ends s) ⟨d, .inside .text⟩
  | statement {d : Nat} :
    Step indent ⟨d, .inside .semicolon⟩ (.char '\n') ⟨d, .margin 0 .statement⟩
  | opening {d : Nat} : Step indent ⟨d, .inside .opening⟩ (.char '\n') ⟨d, .margin 0 .opening⟩

/-- Several marks, the last one taken off first. -/
inductive Runs (indent : Indent) (x : Spot) : List Mark → Spot → Prop
  | nil : Runs indent x [] x
  | snoc {ms : List Mark} {m : Mark} {y z : Spot} (h : Runs indent x ms y) (hm : Step indent y m z) :
    Runs indent x (ms ++ [m]) z

theorem Step.runs {indent : Indent} {x y : Spot} {m : Mark} (h : Step indent x m y) :
    Runs indent x [m] y := Runs.nil.snoc h

theorem Runs.append {indent : Indent} {x y z : Spot} {ms ns : List Mark} (h : Runs indent x ms y)
    (h' : Runs indent y ns z) : Runs indent x (ms ++ ns) z := by
  induction h' with
  | nil => rwa [List.append_nil]
  | snoc _ hm ih =>
    rw [← List.append_assoc]
    exact ih.snoc hm

theorem Last.ofChar_ne (c : Char) : Last.ofChar c ≠ .opening := by
  unfold ofChar
  split <;> decide

/-! ## Texts that keep the depth -/

/-- A statement starts, or the line is begun and does not end with an open block. -/
def Phase.Ready : Phase → Prop
  | margin .. => False
  | start => True
  | inside last => last ≠ .opening

/-- Within a line the text leads on in that line or in another one at the same depth. -/
def Follows (indent : Indent) (depth : Nat) (ms : List Mark) : Prop :=
  ∀ last, last ≠ .opening →
    ∃ last', last' ≠ .opening ∧ Runs indent ⟨depth, .inside last⟩ ms ⟨depth, .inside last'⟩

/-- The same holds at the start of a statement. -/
def Flows (indent : Indent) (depth : Nat) (ms : List Mark) : Prop :=
  ∀ phase : Phase, phase.Ready →
    ∃ last, last ≠ .opening ∧ Runs indent ⟨depth, phase⟩ ms ⟨depth, .inside last⟩

section Texts

variable {indent : Indent} {depth : Nat} {ms ns : List Mark}

theorem Flows.follows (h : Flows indent depth ms) : Follows indent depth ms :=
  fun last hlast => h (.inside last) hlast

theorem Flows.append (h : Flows indent depth ms) (h' : Follows indent depth ns) :
    Flows indent depth (ms ++ ns) := by
  intro phase hphase
  obtain ⟨last, hlast, hruns⟩ := h phase hphase
  obtain ⟨last', hlast', hruns'⟩ := h' last hlast
  exact ⟨last', hlast', hruns.append hruns'⟩

theorem Follows.append (h : Follows indent depth ms) (h' : Follows indent depth ns) :
    Follows indent depth (ms ++ ns) := by
  intro last hlast
  obtain ⟨last', hlast', hruns⟩ := h last hlast
  obtain ⟨last'', hlast'', hruns'⟩ := h' last' hlast'
  exact ⟨last'', hlast'', hruns.append hruns'⟩

theorem follows_nil : Follows indent depth [] := fun last hlast => ⟨last, hlast, .nil⟩

/-! ### Characters -/

theorem follows_chars {cs : List Char} (h : '\n' ∉ cs) : Follows indent depth (cs.map .char) := by
  induction cs with
  | nil => exact follows_nil
  | cons c cs ih =>
    have hc : c ≠ '\n' := fun heq => h (heq ▸ List.mem_cons_self)
    have hfirst : Follows indent depth [.char c] := fun last hlast =>
      ⟨.ofChar c, Last.ofChar_ne c, (Step.next hlast hc).runs⟩
    exact hfirst.append (ih fun hmem => h (List.mem_cons_of_mem c hmem))

theorem follows_text {text : String} (h : '\n' ∉ text.toList) :
    Follows indent depth (textMarks text) := follows_chars h

variable (hi : isSpacing indent.char = true)

include hi

/-- A text that starts neither with a blank nor with a brace that could close a block. -/
theorem flows_text {text : String} {c : Char} {cs : List Char} (htext : text.toList = c :: cs)
    (hc : isBlank c = false) (hbrace : c ≠ '\x7d') (hcs : '\n' ∉ cs) :
    Flows indent depth (textMarks text) := by
  have hline : c ≠ '\n' := by
    rintro rfl
    cases hc
  have hmargin : c ≠ indent.char := by
    rintro rfl
    rw [not_isSpacing hc] at hi
    cases hi
  have hfirst : Flows indent depth [.char c] := by
    intro phase hphase
    refine ⟨.ofChar c, Last.ofChar_ne c, ?_⟩
    cases phase with
    | margin => cases hphase
    | start => exact (Step.first hline hmargin hbrace).runs
    | inside last => exact (Step.next hphase hline).runs
  unfold textMarks
  rw [htext]
  exact hfirst.append (follows_chars hcs)

/-- A word of a class that holds neither a blank nor the brace. -/
theorem flows_word {p : Char → Bool} {text : String} (hne : text.toList ≠ [])
    (h : ∀ c ∈ text.toList, p c = true)
    (hp : p ' ' = false ∧ p '\t' = false ∧ p '\r' = false ∧ p '\n' = false)
    (hbrace : p '\x7d' = false) : Flows indent depth (textMarks text) := by
  obtain ⟨c, cs, htext⟩ := List.exists_cons_of_ne_nil hne
  have hc : p c = true := h c (by rw [htext]; exact List.mem_cons_self)
  refine flows_text hi htext (not_isBlank hc hp) ?_ fun hmem => ?_
  · rintro rfl
    rw [hbrace] at hc
    cases hc
  · have hline := h '\n' (by rw [htext]; exact List.mem_cons_of_mem c hmem)
    rw [hp.2.2.2] at hline
    cases hline

theorem flows_wrap (wanted : Bool) (h : Flows indent depth ms) :
    Flows indent depth (wrapMarks wanted ms) := by
  cases wanted with
  | false => exact h
  | true =>
    have hopen : Flows indent depth (textMarks "(") := flows_text hi rfl rfl (by decide) (by decide)
    exact (hopen.append h.follows).append (follows_text (by decide))

omit hi

theorem follows_comma {pieces : List (List Mark)} (h : ∀ ms ∈ pieces, Flows indent depth ms) :
    Follows indent depth (commaMarks pieces) := by
  induction pieces with
  | nil => exact follows_nil
  | cons ms pieces ih =>
    obtain ⟨hms, hpieces⟩ := List.forall_mem_cons.mp h
    cases pieces with
    | nil =>
      unfold commaMarks
      rw [List.intercalate_singleton]
      exact hms.follows
    | cons ns pieces =>
      unfold commaMarks
      rw [List.intercalate_cons_cons]
      exact (hms.follows.append (follows_text (by decide))).append (ih hpieces)

/-! ### Lines -/

/-- Characters of a margin. -/
theorem runs_margin (indent : Indent) (d width n : Nat) (above : Above) :
    Runs indent ⟨d, .margin width above⟩ ((List.replicate n indent.char).map .char)
      ⟨d, .margin (width + n) above⟩ := by
  induction n generalizing width with
  | zero => exact .nil
  | succ n ih =>
    rw [List.replicate_succ, List.map_cons]
    have hmore := ih (width + 1)
    rw [Nat.add_assoc, Nat.add_comm 1 n] at hmore
    exact Step.indentation.runs.append hmore

/-- The margin of a depth. -/
theorem runs_text (indent : Indent) (d depth : Nat) (above : Above) :
    Runs indent ⟨d, .margin 0 above⟩ (textMarks (indent.text depth))
      ⟨d, .margin (depth * indent.size) above⟩ := by
  have h := runs_margin indent d 0 (depth * indent.size) above
  rw [Nat.zero_add] at h
  unfold textMarks Indent.text
  rw [String.toList_ofList]
  exact h

/-- A statement from its margin to the end of its line. -/
theorem runs_line {s : Stmt} (above : Above) (h : Flows indent depth ms) :
    Runs indent ⟨depth, .margin 0 above⟩
      (textMarks (indent.text depth) ++ s.enclose ms ++ textMarks ";\n")
      ⟨depth, .margin 0 .statement⟩ := by
  obtain ⟨last, hlast, hruns⟩ := h .start trivial
  have hend : Runs indent ⟨depth, .inside .text⟩ (textMarks ";\n") ⟨depth, .margin 0 .statement⟩ :=
    (Step.next (c := ';') (by decide) (by decide)).runs.append Step.statement.runs
  have hstmt : Runs indent ⟨depth, .margin (depth * indent.size) above⟩ (s.enclose ms)
      ⟨depth, .inside .text⟩ := Step.starts.runs.append (hruns.append (Step.ends hlast).runs)
  exact ((runs_text indent depth depth above).append hstmt).append hend

/-- The lines of statements, if no blank line comes first or behind another one. -/
theorem runs_lines {ss : List Stmt} (htidy : Tidy Stmt.isBlank ss)
    (h : ∀ s ∈ ss, ∀ ms, s.marks? indent depth = some ms → Flows indent depth ms) (above : Above)
    (hfull : StartsFull Stmt.isBlank ss ∨ above = .statement) :
    Runs indent ⟨depth, .margin 0 above⟩
      (linesMarks (textMarks (indent.text depth)) (ss.map (Stmt.line? indent depth)))
      ⟨depth, .margin 0 (if ss = [] then above else .statement)⟩ := by
  induction ss generalizing above with
  | nil => exact .nil
  | cons s ss ih =>
    obtain ⟨hgap, htidy⟩ := htidy
    have ih := ih htidy fun t ht => h t (List.mem_cons_of_mem s ht)
    rw [List.map_cons, if_neg (by simp)]
    by_cases hblank : s.isBlank = true
    · obtain ⟨t, ts, rfl, ht⟩ := hgap hblank
      have habove : above = .statement := hfull.resolve_left fun hfull => by
        rw [hfull s rfl] at hblank
        cases hblank
      have hline : s.line? indent depth = none := by
        rw [← Option.isNone_iff_eq_none, Stmt.isNone_line?]
        exact hblank
      have hmore := ih .blank (Or.inl fun u hu => by cases hu; exact ht)
      rw [if_neg (by simp)] at hmore
      rw [hline, habove]
      exact Step.blank.runs.append hmore
    · obtain ⟨ms, hms, hline⟩ := Stmt.exists_line? indent depth (Bool.eq_false_iff.mpr hblank)
      have hmore := ih .statement (Or.inr rfl)
      rw [ite_self] at hmore
      rw [hline]
      exact (runs_line above (h s List.mem_cons_self ms hms)).append hmore

/-- The lines of the statements that are kept of a list. -/
theorem runs_keptLines {ss : List Stmt}
    (h : ∀ s ∈ ss, ∀ ms, s.marks? indent depth = some ms → Flows indent depth ms) (above : Above) :
    Runs indent ⟨depth, .margin 0 above⟩ (keptLines indent depth ss)
      ⟨depth, .margin 0 (if trimGaps Stmt.isBlank ss = [] then above else .statement)⟩ :=
  runs_lines (trimGaps_tidy ss) (fun s hs => h s (mem_of_mem_trimGaps hs)) above
    (Or.inl (trimGaps_startsFull ss))

/-- A block whose statements keep the depth keeps its own. -/
theorem Block.marks_flows_of_stmts {b : Block}
    (h : ∀ s ∈ b.statements, ∀ ms, s.marks? indent (depth + 1) = some ms →
      Flows indent (depth + 1) ms) : Flows indent depth (b.marks indent depth) := by
  intro phase hphase
  have hopens : Step indent ⟨depth, phase⟩ .opens ⟨depth + 1, .inside .opening⟩ := by
    cases phase with
    | margin => cases hphase
    | start => exact .firstOpens
    | inside last => exact .opens hphase
  refine ⟨.text, by decide, ?_⟩
  rw [Block.marks_eq]
  split
  · exact hopens.runs.append Step.closes.runs
  · next hkept =>
    have hlines := runs_keptLines h .opening
    rw [if_neg hkept] at hlines
    have hline : Runs indent ⟨depth + 1, .inside .opening⟩ (textMarks "\n")
        ⟨depth + 1, .margin 0 .opening⟩ := Step.opening.runs
    have hmargin := runs_text indent (depth + 1) depth .statement
    exact hopens.runs.append (((hline.append hlines).append hmargin).append Step.firstCloses.runs)

end Texts

/-! ## Trees -/

section Words

variable {indent : Indent} (hi : isSpacing indent.char = true)

/-- Pieces without a character have a whole without it. -/
theorem not_mem_intercalate {c : Char} {sep : String} {pieces : List String} (hsep : c ∉ sep.toList)
    (h : ∀ text ∈ pieces, c ∉ text.toList) : c ∉ (String.intercalate sep pieces).toList := by
  induction pieces with
  | nil => exact List.not_mem_nil
  | cons a pieces ih =>
    obtain ⟨ha, hpieces⟩ := List.forall_mem_cons.mp h
    cases pieces with
    | nil =>
      rw [String.intercalate_singleton]
      exact ha
    | cons b pieces =>
      rw [String.intercalate_cons_cons, String.toList_append, String.toList_append]
      simp only [List.mem_append, not_or]
      exact ⟨⟨ha, hsep⟩, ih hpieces⟩

theorem IsName.newline_not_mem {name : String} (h : IsName name) : '\n' ∉ name.toList :=
  fun hmem => absurd (h.chars '\n' hmem) (by decide)

theorem quotedChars_newline (cs : List Char) : '\n' ∉ cs.flatMap Text.quotedChar ++ ['"'] := by
  intro hmem
  rcases List.mem_append.mp hmem with hmem | hmem
  · obtain ⟨c, -, hc⟩ := List.mem_flatMap.mp hmem
    unfold Text.quotedChar at hc
    split at hc <;> simp at hc
    next hne _ => exact hne hc.symm
  · exact absurd hmem (by decide)

include hi

theorem flows_parameters {depth : Nat} {parameters : List Ident}
    (h : ∀ p ∈ parameters, (Token.ident p.name).Spelled) :
    Flows indent depth (textMarks (renderParameters parameters)) := by
  have hnames : '\n' ∉ (String.intercalate ", " (parameters.map Ident.name)).toList := by
    refine not_mem_intercalate (by decide) fun text htext => ?_
    obtain ⟨p, hp, rfl⟩ := List.mem_map.mp htext
    exact (h p hp).newline_not_mem
  have hopen : Flows indent depth (textMarks "fn(") := flows_text hi rfl rfl (by decide) (by decide)
  unfold renderParameters
  rw [textMarks_append, textMarks_append]
  exact (hopen.append (follows_text hnames)).append (follows_text (by decide))

theorem flows_let {depth : Nat} {name : String} (h : IsName name) :
    Flows indent depth (textMarks ("let " ++ name ++ " = ")) := by
  have hopen : Flows indent depth (textMarks "let ") := flows_text hi rfl rfl (by decide) (by decide)
  rw [textMarks_append, textMarks_append]
  exact (hopen.append (follows_text h.newline_not_mem)).append (follows_text (by decide))

end Words

section Trees

variable {indent : Indent}

mutual

/-- The text of an expression keeps the depth. -/
theorem Expr.marks_flows (hi : isSpacing indent.char = true) : ∀ (e : Expr) (depth : Nat),
    e.Spelled → Flows indent depth (e.marks indent depth)
  | .ident name, depth, h => flows_word hi h.ne_nil h.chars (by decide) (by decide)
  | .int _ spelling _, depth, h => flows_word hi h.1.ne_nil h.1.digits (by decide) (by decide)
  | .float _ spelling _, depth, h => by
    obtain ⟨⟨whole, places, htext⟩, -⟩ := h
    refine flows_word hi (p := fun c => c.isDigit || c = '.') ?_ ?_ (by decide) (by decide)
    · rw [htext.eq]
      simp
    · intro c hc
      rw [htext.eq] at hc
      rcases List.mem_append.mp hc with hc | hc
      · simp [htext.digits c (List.mem_append_left places hc)]
      rcases List.mem_cons.mp hc with rfl | hc
      · rfl
      · simp [htext.digits c (List.mem_append_right whole hc)]
  | .bool value _, depth, _ => by
    cases value
    · show Flows indent depth (textMarks "false")
      exact flows_text hi rfl (by decide) (by decide) (by decide)
    · show Flows indent depth (textMarks "true")
      exact flows_text hi rfl (by decide) (by decide) (by decide)
  | .str value _, depth, _ =>
    flows_text hi (Text.toList_quote value) (by decide) (by decide) (quotedChars_newline _)
  | .array elements _, depth, h => by
    have hopen : Flows indent depth (textMarks "[") := flows_text hi rfl rfl (by decide) (by decide)
    have helements := Expr.marksList_flows hi elements depth h
    exact (hopen.append (follows_comma helements)).append (follows_text (by decide))
  | .hash entries _, depth, h => by
    have hopen : Flows indent depth (textMarks "\x7b") :=
      flows_text hi rfl rfl (by decide) (by decide)
    have hentries := Entry.marksList_flows hi entries depth h
    exact (hopen.append (follows_comma hentries)).append (follows_text (by decide))
  | .unary op operand _, depth, h => by
    have hop : Flows indent depth (textMarks op.text) := by
      cases op <;> exact flows_text hi rfl rfl (by decide) (by decide)
    exact hop.append (flows_wrap hi _ (Expr.marks_flows hi operand depth h)).follows
  | .binary left op right _, depth, h => by
    have hop : Follows indent depth (textMarks (" " ++ op.text ++ " ")) :=
      follows_text (by cases op <;> decide)
    have hleft := flows_wrap hi (needsParens left op false) (Expr.marks_flows hi left depth h.1)
    have hright := flows_wrap hi (needsParens right op true) (Expr.marks_flows hi right depth h.2)
    exact (hleft.append hop).append hright.follows
  | .cond condition consequence alternative _, depth, h => by
    have hopen : Flows indent depth (textMarks "if (") := flows_text hi rfl rfl (by decide) (by decide)
    have hclose : Follows indent depth (textMarks ") ") := follows_text (by decide)
    have hhead := (hopen.append (Expr.marks_flows hi condition depth h.1).follows).append hclose
    exact (hhead.append (Block.marks_flows hi consequence depth h.2.1).follows).append
      (Block.marksElse_follows hi alternative depth h.2.2)
  | .loop condition body _, depth, h => by
    have hopen : Flows indent depth (textMarks "while (") :=
      flows_text hi rfl rfl (by decide) (by decide)
    have hclose : Follows indent depth (textMarks ") ") := follows_text (by decide)
    have hhead := (hopen.append (Expr.marks_flows hi condition depth h.1).follows).append hclose
    exact hhead.append (Block.marks_flows hi body depth h.2).follows
  | .func parameters body _, depth, h => by
    have hhead : Flows indent depth (textMarks (renderParameters parameters)) :=
      flows_parameters hi h.1
    exact hhead.append (Block.marks_flows hi body depth h.2).follows
  | .call callee arguments _, depth, h => by
    have hcallee := flows_wrap hi (isOperation callee) (Expr.marks_flows hi callee depth h.1)
    have hlist := follows_comma (Expr.marksList_flows hi arguments depth h.2)
    exact ((hcallee.append (follows_text (by decide))).append hlist).append (follows_text (by decide))
  | .index target position _, depth, h => by
    have htarget := flows_wrap hi (isOperation target) (Expr.marks_flows hi target depth h.1)
    have hposition := (Expr.marks_flows hi position depth h.2).follows
    exact ((htarget.append (follows_text (by decide))).append hposition).append
      (follows_text (by decide))

theorem Expr.marksList_flows (hi : isSpacing indent.char = true) : ∀ (es : List Expr) (depth : Nat),
    Expr.SpelledList es → ∀ ms ∈ Expr.marksList indent depth es, Flows indent depth ms
  | [], _, _ => fun _ hms => absurd hms List.not_mem_nil
  | e :: es, depth, h =>
    List.forall_mem_cons.mpr ⟨Expr.marks_flows hi e depth h.1, Expr.marksList_flows hi es depth h.2⟩

theorem Entry.marks_flows (hi : isSpacing indent.char = true) : ∀ (p : Entry) (depth : Nat),
    p.Spelled → Flows indent depth (p.marks indent depth)
  | ⟨key, value⟩, depth, h => by
    have hcolon : Follows indent depth (textMarks ": ") := follows_text (by decide)
    exact ((Expr.marks_flows hi key depth h.1).append hcolon).append
      (Expr.marks_flows hi value depth h.2).follows

theorem Entry.marksList_flows (hi : isSpacing indent.char = true) : ∀ (ps : List Entry) (depth : Nat),
    Entry.SpelledList ps → ∀ ms ∈ Entry.marksList indent depth ps, Flows indent depth ms
  | [], _, _ => fun _ hms => absurd hms List.not_mem_nil
  | p :: ps, depth, h =>
    List.forall_mem_cons.mpr ⟨Entry.marks_flows hi p depth h.1, Entry.marksList_flows hi ps depth h.2⟩

theorem Block.marksElse_follows (hi : isSpacing indent.char = true) : ∀ (b : Option Block) (depth : Nat),
    Block.SpelledOption b → Follows indent depth (Block.marksElse indent depth b)
  | none, _, _ => follows_nil
  | some body, depth, h => by
    have helse : Follows indent depth (textMarks " else ") := follows_text (by decide)
    exact helse.append (Block.marks_flows hi body depth h).follows

theorem Stmt.marks?_flows (hi : isSpacing indent.char = true) : ∀ (s : Stmt) (depth : Nat),
    s.Spelled → ∀ ms ∈ s.marks? indent depth, Flows indent depth ms
  | .bind name value _, depth, h, _, rfl => by
    have hhead : Flows indent depth (textMarks ("let " ++ name.name ++ " = ")) :=
      flows_let hi h.1
    exact hhead.append (Expr.marks_flows hi value depth h.2).follows
  | .ret value _, depth, h, _, rfl => by
    have hhead : Flows indent depth (textMarks "return ") :=
      flows_text hi rfl rfl (by decide) (by decide)
    exact hhead.append (Expr.marks_flows hi value depth h).follows
  | .expr value, depth, h, _, rfl => flows_wrap hi _ (Expr.marks_flows hi value depth h)
  | .block body, depth, h, _, rfl => Block.marks_flows hi body depth h

theorem Stmt.marksList_flows (hi : isSpacing indent.char = true) : ∀ (ss : List Stmt) (depth : Nat),
    Stmt.SpelledList ss → ∀ s ∈ ss, ∀ ms ∈ s.marks? indent depth, Flows indent depth ms
  | [], _, _ => fun _ hs => absurd hs List.not_mem_nil
  | s :: ss, depth, h =>
    List.forall_mem_cons.mpr ⟨Stmt.marks?_flows hi s depth h.1, Stmt.marksList_flows hi ss depth h.2⟩

theorem Block.marks_flows (hi : isSpacing indent.char = true) : ∀ (b : Block) (depth : Nat),
    b.Spelled → Flows indent depth (b.marks indent depth)
  | ⟨ss, _⟩, depth, h =>
    Block.marks_flows_of_stmts (Stmt.marksList_flows hi ss (depth + 1) h)

end

/-- The text of a program is written from its beginning to the end of a line. -/
theorem Program.marks_runs (hi : isSpacing indent.char = true) {p : Program}
    (h : Stmt.SpelledList p.statements) :
    Runs indent ⟨0, .margin 0 .nothing⟩ (p.marks indent)
      ⟨0, .margin 0 (if trimGaps Stmt.isBlank p.statements = [] then .nothing else .statement)⟩ := by
  rw [p.marks_eq]
  exact runs_keptLines (Stmt.marksList_flows hi p.statements 0 h) .nothing

end Trees

end Scriptlet
