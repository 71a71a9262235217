import Scriptlet.Proofs.Syntax.Seats

/-!
# `Proofs.Syntax.Marked` — the canonical text with its structure

In a text the braces of a block look like those of a hash, and nothing tells where a statement starts
or ends. So the canonical text is written here a second time, with marks for what a text does not
show. Without the marks it is the canonical text (`Program.unmarked_marks`).

## Contents
- `Mark`, `plain`, `unmarked`: marked texts and their characters.
- `Expr.marks`, `Block.marks`, `Program.marks`: the canonical text of a tree with marks.
- `Expr.unmarked_marks`, `Program.unmarked_marks`: its characters.
- `Node.marks`, `Node.Under.marks`: the text of a node is part of the text of the whole tree.
-/

namespace Scriptlet

/-! ## Marked texts -/

/-- A piece of a marked text: a character, the brace that opens a block or the one that closes it, or
    the place where a statement starts or ends, which has no character. The statement comes with its
    span, so two statements of one source that read the same have different marks. -/
inductive Mark where
  | char (c : Char)
  | opens
  | closes
  | starts (s : Stmt)
  | ends (s : Stmt)

/-- The character that is written. -/
def Mark.char? : Mark → Option Char
  | char c => some c
  | opens => some '\x7b'
  | closes => some '\x7d'
  | starts _ | ends _ => none

/-- The characters of a marked text. -/
def plain (ms : List Mark) : List Char := ms.filterMap Mark.char?

/-- A marked text without its marks. -/
def unmarked (ms : List Mark) : String := String.ofList (plain ms)

/-- A text in which nothing is to be marked. -/
def textMarks (text : String) : List Mark := text.toList.map .char

/-- A marked text in parentheses where they are wanted. -/
def wrapMarks (wanted : Bool) (ms : List Mark) : List Mark :=
  if wanted then textMarks "(" ++ ms ++ textMarks ")" else ms

/-- Marked texts with commas between them. -/
def commaMarks (pieces : List (List Mark)) : List Mark := List.intercalate (textMarks ", ") pieces

/-- The lines of statements whose marked texts are known, `none` standing for a blank line. -/
def linesMarks (margin : List Mark) : List (Option (List Mark)) → List Mark
  | [] => []
  | none :: rest => textMarks "\n" ++ linesMarks margin rest
  | some ms :: rest => margin ++ ms ++ textMarks ";\n" ++ linesMarks margin rest

/-- Marks where a statement starts and ends. -/
def Stmt.enclose (s : Stmt) (ms : List Mark) : List Mark := .starts s :: (ms ++ [.ends s])

mutual

/-- An expression at a depth of blocks. -/
def Expr.marks (indent : Indent) (depth : Nat) : Expr → List Mark
  | .ident name => textMarks name.name
  | .int _ spelling _ => textMarks spelling
  | .float _ spelling _ => textMarks spelling
  | .bool value _ => textMarks (if value then "true" else "false")
  | .str value _ => textMarks (Text.quote value)
  | .array elements _ =>
    textMarks "[" ++ commaMarks (Expr.marksList indent depth elements) ++ textMarks "]"
  | .hash entries _ =>
    textMarks "\x7b" ++ commaMarks (Entry.marksList indent depth entries) ++ textMarks "\x7d"
  | .unary op operand _ =>
    textMarks op.text ++ wrapMarks (isBinary operand) (operand.marks indent depth)
  | .binary left op right _ =>
    wrapMarks (needsParens left op false) (left.marks indent depth)
      ++ textMarks (" " ++ op.text ++ " ")
      ++ wrapMarks (needsParens right op true) (right.marks indent depth)
  | .cond condition consequence alternative _ =>
    textMarks "if (" ++ condition.marks indent depth ++ textMarks ") "
      ++ consequence.marks indent depth ++ Block.marksElse indent depth alternative
  | .loop condition body _ =>
    textMarks "while (" ++ condition.marks indent depth ++ textMarks ") " ++ body.marks indent depth
  | .func parameters body _ => textMarks (renderParameters parameters) ++ body.marks indent depth
  | .call callee arguments _ =>
    wrapMarks (isOperation callee) (callee.marks indent depth) ++ textMarks "("
      ++ commaMarks (Expr.marksList indent depth arguments) ++ textMarks ")"
  | .index target position _ =>
    wrapMarks (isOperation target) (target.marks indent depth) ++ textMarks "["
      ++ position.marks indent depth ++ textMarks "]"

/-- Several expressions. -/
def Expr.marksList (indent : Indent) (depth : Nat) : List Expr → List (List Mark)
  | [] => []
  | e :: es => e.marks indent depth :: Expr.marksList indent depth es

/-- A key, a colon and a space, and its value. -/
def Entry.marks (indent : Indent) (depth : Nat) : Entry → List Mark
  | ⟨key, value⟩ => key.marks indent depth ++ textMarks ": " ++ value.marks indent depth

/-- Several entries. -/
def Entry.marksList (indent : Indent) (depth : Nat) : List Entry → List (List Mark)
  | [] => []
  | p :: ps => p.marks indent depth :: Entry.marksList indent depth ps

/-- The part of a condition after its consequence. -/
def Block.marksElse (indent : Indent) (depth : Nat) : Option Block → List Mark
  | none => []
  | some body => textMarks " else " ++ body.marks indent depth

/-- A statement without its indentation and its semicolon; nothing for a blank line. -/
def Stmt.marks? (indent : Indent) (depth : Nat) : Stmt → Option (List Mark)
  | .bind name value _ =>
    some (textMarks ("let " ++ name.name ++ " = ") ++ value.marks indent depth)
  | .ret value _ => some (textMarks "return " ++ value.marks indent depth)
  | .expr value => some (wrapMarks (startsWithHash value) (value.marks indent depth))
  | .block body => some (body.marks indent depth)
  | .blank _ => none

/-- Several statements, each with its start and its end, nothing for blank lines. -/
def Stmt.marksList (indent : Indent) (depth : Nat) : List Stmt → List (Option (List Mark))
  | [] => []
  | s :: ss => (s.marks? indent depth).map s.enclose :: Stmt.marksList indent depth ss

/-- A block: its braces alone where it has no statement, else a line for each one. -/
def Block.marks (indent : Indent) (depth : Nat) : Block → List Mark
  | ⟨statements, _⟩ =>
    match trimGaps Option.isNone (Stmt.marksList indent (depth + 1) statements) with
    | [] => [.opens, .closes]
    | lines =>
      .opens :: (textMarks "\n" ++ linesMarks (textMarks (indent.text (depth + 1))) lines
        ++ textMarks (indent.text depth) ++ [.closes])

end

/-- The canonical text of a program with its marks. -/
def Program.marks (indent : Indent) (p : Program) : List Mark :=
  linesMarks (textMarks (indent.text 0))
    (trimGaps Option.isNone (Stmt.marksList indent 0 p.statements))

/-! ## The characters of a marked text -/

section Unmarked

variable {ms : List Mark}

theorem plain_append (ms ns : List Mark) : plain (ms ++ ns) = plain ms ++ plain ns :=
  List.filterMap_append

@[simp] theorem plain_textMarks (text : String) : plain (textMarks text) = text.toList := by
  unfold plain textMarks
  rw [List.filterMap_map]
  exact List.filterMap_some

@[simp] theorem unmarked_append (ms ns : List Mark) :
    unmarked (ms ++ ns) = unmarked ms ++ unmarked ns := by
  unfold unmarked
  rw [plain_append, String.ofList_append]

@[simp] theorem unmarked_textMarks (text : String) : unmarked (textMarks text) = text := by
  unfold unmarked
  rw [plain_textMarks, String.ofList_toList]

@[simp] theorem unmarked_wrapMarks (wanted : Bool) (ms : List Mark) :
    unmarked (wrapMarks wanted ms) = wrapIf wanted (unmarked ms) := by
  cases wanted <;> simp [wrapMarks, wrapIf, String.append_assoc]

@[simp] theorem unmarked_commaMarks (pieces : List (List Mark)) :
    unmarked (commaMarks pieces) = String.intercalate ", " (pieces.map unmarked) := by
  induction pieces with
  | nil => rfl
  | cons ms pieces ih =>
    cases pieces with
    | nil => simp [commaMarks]
    | cons ns pieces =>
      unfold commaMarks at ih ⊢
      rw [List.intercalate_cons_cons, unmarked_append, unmarked_append, ih, unmarked_textMarks]
      simp [String.intercalate_cons_cons]

theorem unmarked_linesMarks (margin : String) (lines : List (Option (List Mark))) :
    unmarked (linesMarks (textMarks margin) lines) =
      linesOf margin (lines.map (Option.map unmarked)) := by
  induction lines with
  | nil => rfl
  | cons line lines ih => cases line <;> simp [linesMarks, linesOf, ih, String.append_assoc]

@[simp] theorem unmarked_enclose (s : Stmt) (ms : List Mark) :
    unmarked (s.enclose ms) = unmarked ms := by
  have hstarts : unmarked [.starts s] = "" := rfl
  have hends : unmarked [.ends s] = "" := rfl
  show unmarked ([.starts s] ++ (ms ++ [.ends s])) = unmarked ms
  rw [unmarked_append, unmarked_append, hstarts, hends, String.empty_append, String.append_empty]

end Unmarked

/-! ### Lists one by one -/

theorem Expr.marksList_eq (indent : Indent) (depth : Nat) (es : List Expr) :
    Expr.marksList indent depth es = es.map (Expr.marks indent depth) := by
  induction es with
  | nil => rfl
  | cons e es ih => exact congrArg (e.marks indent depth :: ·) ih

theorem Entry.marksList_eq (indent : Indent) (depth : Nat) (ps : List Entry) :
    Entry.marksList indent depth ps = ps.map (Entry.marks indent depth) := by
  induction ps with
  | nil => rfl
  | cons p ps ih => exact congrArg (p.marks indent depth :: ·) ih

/-- The line of a statement, nothing for a blank line. -/
def Stmt.line? (indent : Indent) (depth : Nat) (s : Stmt) : Option (List Mark) :=
  (s.marks? indent depth).map s.enclose

theorem Stmt.marksList_eq (indent : Indent) (depth : Nat) (ss : List Stmt) :
    Stmt.marksList indent depth ss = ss.map (Stmt.line? indent depth) := by
  induction ss with
  | nil => rfl
  | cons s ss ih => exact congrArg (s.line? indent depth :: ·) ih

/-- Blank lines are the statements without a line. -/
theorem Stmt.isNone_line? (indent : Indent) (depth : Nat) (s : Stmt) :
    (s.line? indent depth).isNone = s.isBlank := by cases s <;> rfl

/-- The line of a statement that is no blank line. -/
theorem Stmt.exists_line? (indent : Indent) (depth : Nat) {s : Stmt} (hs : s.isBlank = false) :
    ∃ ms, s.marks? indent depth = some ms ∧ s.line? indent depth = some (s.enclose ms) := by
  cases s with
  | blank => cases hs
  | bind | ret | expr | block => exact ⟨_, rfl, rfl⟩

/-- The lines of the statements that are kept. -/
theorem Stmt.trimGaps_marksList (indent : Indent) (depth : Nat) (ss : List Stmt) :
    trimGaps Option.isNone (Stmt.marksList indent depth ss) =
      (trimGaps Stmt.isBlank ss).map (Stmt.line? indent depth) := by
  rw [Stmt.marksList_eq]
  exact trimGaps_map (Stmt.isNone_line? indent depth) ss

/-! ### Trees -/

/-- The lines of the statements that are kept, if each statement has its text. -/
theorem Stmt.unmarked_lines {indent : Indent} {depth : Nat} {ss : List Stmt} (margin : String)
    (h : (marksList indent depth ss).map (Option.map unmarked) = layoutList indent depth ss) :
    unmarked (linesMarks (textMarks margin) (trimGaps Option.isNone (marksList indent depth ss))) =
      linesOf margin (trimGaps Option.isNone (layoutList indent depth ss)) := by
  rw [unmarked_linesMarks, ← h]
  congr 1
  exact (trimGaps_map (fun line => by cases line <;> rfl) _).symm

section Trees

variable {indent : Indent}

/-- The text of a block, if its statements have theirs. -/
theorem Block.unmarked_of_stmts {depth : Nat} {ss : List Stmt} {span : Span}
    (h : (Stmt.marksList indent (depth + 1) ss).map (Option.map unmarked) =
      Stmt.layoutList indent (depth + 1) ss) :
    unmarked (Block.marks indent depth ⟨ss, span⟩) = Block.layout indent depth ⟨ss, span⟩ := by
  have hlines := Stmt.unmarked_lines (indent.text (depth + 1)) h
  have hnone : trimGaps Option.isNone (Stmt.layoutList indent (depth + 1) ss) =
      (trimGaps Option.isNone (Stmt.marksList indent (depth + 1) ss)).map (Option.map unmarked) := by
    rw [← h]
    exact trimGaps_map (fun line => by cases line <;> rfl) _
  have hopens : unmarked [.opens] = "\x7b" := rfl
  have hcloses : unmarked [.closes] = "\x7d" := rfl
  unfold Block.marks Block.layout
  cases hkept : trimGaps Option.isNone (Stmt.marksList indent (depth + 1) ss) with
  | nil =>
    rw [hkept] at hnone
    rw [hnone]
    rfl
  | cons line lines =>
    rw [hkept] at hnone hlines
    rw [hnone] at hlines ⊢
    show unmarked ([.opens] ++ (textMarks "\n" ++ linesMarks (textMarks (indent.text (depth + 1)))
      (line :: lines) ++ textMarks (indent.text depth) ++ [.closes])) = _
    simp only [unmarked_append, unmarked_textMarks, hopens, hcloses, hlines, String.append_assoc]
    rfl

mutual

/-- The marks leave the text as it is. -/
theorem Expr.unmarked_marks : ∀ (e : Expr) (depth : Nat),
    unmarked (e.marks indent depth) = e.layout indent depth
  | .ident _, _ | .int .., _ | .float .., _ | .bool .., _ | .str .., _ => unmarked_textMarks _
  | .array elements _, depth => by
    simp [Expr.marks, Expr.layout, Expr.unmarked_marksList elements depth, String.append_assoc]
  | .hash entries _, depth => by
    simp [Expr.marks, Expr.layout, Entry.unmarked_marksList entries depth, String.append_assoc]
  | .unary op operand _, depth => by
    simp [Expr.marks, Expr.layout, Expr.unmarked_marks operand depth]
  | .binary left op right _, depth => by
    simp [Expr.marks, Expr.layout, Expr.unmarked_marks left depth, Expr.unmarked_marks right depth,
      String.append_assoc]
  | .cond condition consequence alternative _, depth => by
    simp [Expr.marks, Expr.layout, Expr.unmarked_marks condition depth,
      Block.unmarked_marks consequence depth, Block.unmarked_marksElse alternative depth,
      String.append_assoc]
  | .loop condition body _, depth => by
    simp [Expr.marks, Expr.layout, Expr.unmarked_marks condition depth,
      Block.unmarked_marks body depth, String.append_assoc]
  | .func parameters body _, depth => by
    simp [Expr.marks, Expr.layout, Block.unmarked_marks body depth]
  | .call callee arguments _, depth => by
    simp [Expr.marks, Expr.layout, Expr.unmarked_marks callee depth,
      Expr.unmarked_marksList arguments depth, String.append_assoc]
  | .index target position _, depth => by
    simp [Expr.marks, Expr.layout, Expr.unmarked_marks target depth,
      Expr.unmarked_marks position depth, String.append_assoc]

theorem Expr.unmarked_marksList : ∀ (es : List Expr) (depth : Nat),
    (Expr.marksList indent depth es).map unmarked = Expr.layoutList indent depth es
  | [], _ => rfl
  | e :: es, depth => by
    rw [Expr.marksList, Expr.layoutList, List.map_cons, Expr.unmarked_marks e depth,
      Expr.unmarked_marksList es depth]

theorem Entry.unmarked_marks : ∀ (p : Entry) (depth : Nat),
    unmarked (p.marks indent depth) = p.layout indent depth
  | ⟨key, value⟩, depth => by
    simp [Entry.marks, Entry.layout, Expr.unmarked_marks key depth, Expr.unmarked_marks value depth,
      String.append_assoc]

theorem Entry.unmarked_marksList : ∀ (ps : List Entry) (depth : Nat),
    (Entry.marksList indent depth ps).map unmarked = Entry.layoutList indent depth ps
  | [], _ => rfl
  | p :: ps, depth => by
    rw [Entry.marksList, Entry.layoutList, List.map_cons, Entry.unmarked_marks p depth,
      Entry.unmarked_marksList ps depth]

theorem Block.unmarked_marksElse : ∀ (b : Option Block) (depth : Nat),
    unmarked (Block.marksElse indent depth b) = Block.layoutElse indent depth b
  | none, _ => rfl
  | some body, depth => by
    simp [Block.marksElse, Block.layoutElse, Block.unmarked_marks body depth]

theorem Stmt.unmarked_marks? : ∀ (s : Stmt) (depth : Nat),
    (s.marks? indent depth).map unmarked = s.layout? indent depth
  | .bind name value _, depth => by
    simp [Stmt.marks?, Stmt.layout?, Expr.unmarked_marks value depth, String.append_assoc]
  | .ret value _, depth => by simp [Stmt.marks?, Stmt.layout?, Expr.unmarked_marks value depth]
  | .expr value, depth => by simp [Stmt.marks?, Stmt.layout?, Expr.unmarked_marks value depth]
  | .block body, depth => by simp [Stmt.marks?, Stmt.layout?, Block.unmarked_marks body depth]
  | .blank _, _ => rfl

theorem Stmt.unmarked_marksList : ∀ (ss : List Stmt) (depth : Nat),
    (Stmt.marksList indent depth ss).map (Option.map unmarked) = Stmt.layoutList indent depth ss
  | [], _ => rfl
  | s :: ss, depth => by
    rw [Stmt.marksList, Stmt.layoutList, List.map_cons, Stmt.unmarked_marksList ss depth,
      Option.map_map, ← Stmt.unmarked_marks? s depth]
    exact congrArg (Option.map · _ :: _) (funext fun ms => unmarked_enclose s ms)

theorem Block.unmarked_marks : ∀ (b : Block) (depth : Nat),
    unmarked (b.marks indent depth) = b.layout indent depth
  | ⟨ss, _⟩, depth => Block.unmarked_of_stmts (Stmt.unmarked_marksList ss (depth + 1))

end

/-- Without its marks the text of a program is its canonical text. -/
theorem Program.unmarked_marks (p : Program) : unmarked (p.marks indent) = p.layout indent :=
  Stmt.unmarked_lines _ (Stmt.unmarked_marksList p.statements 0)

end Trees

/-! ## Parts of a marked text -/

/-- The marked text of a node, a statement without its end marks. -/
def Node.marks (indent : Indent) (depth : Nat) : Node → List Mark
  | program p => p.marks indent
  | stmt s => (s.marks? indent depth).getD []
  | block b => b.marks indent depth
  | expr e => e.marks indent depth
  | name _ => []

/-- The statements right below a node that has a list of them. -/
def Node.statements : Node → List Stmt
  | program p => p.statements
  | stmt (.block b) | block b => b.statements
  | _ => []

section Parts

variable {indent : Indent} {depth : Nat} {as bs cs : List Mark}

theorem infix_left (h : as <:+: bs) : as <:+: bs ++ cs := h.trans (List.prefix_append bs cs).isInfix

theorem infix_right (h : as <:+: cs) : as <:+: bs ++ cs := h.trans (List.suffix_append bs cs).isInfix

theorem infix_wrapMarks (wanted : Bool) : as <:+: wrapMarks wanted as := by
  cases wanted with
  | false => exact List.infix_rfl
  | true => exact infix_left (infix_right List.infix_rfl)

theorem infix_commaMarks {pieces : List (List Mark)} (h : as ∈ pieces) :
    as <:+: commaMarks pieces := by
  induction pieces with
  | nil => cases h
  | cons ms pieces ih =>
    cases pieces with
    | nil =>
      rw [List.mem_singleton.mp h]
      simp [commaMarks]
    | cons ns pieces =>
      unfold commaMarks at ih ⊢
      rw [List.intercalate_cons_cons]
      rcases List.mem_cons.mp h with rfl | h
      · exact infix_left (infix_left List.infix_rfl)
      · exact infix_right (ih h)

theorem linesMarks_append (margin : List Mark) (lines more : List (Option (List Mark))) :
    linesMarks margin (lines ++ more) = linesMarks margin lines ++ linesMarks margin more := by
  induction lines with
  | nil => rfl
  | cons line lines ih => cases line <;> simp [linesMarks, ih]

/-- The lines of the statements that are kept of a list. -/
def keptLines (indent : Indent) (depth : Nat) (ss : List Stmt) : List Mark :=
  linesMarks (textMarks (indent.text depth))
    ((trimGaps Stmt.isBlank ss).map (Stmt.line? indent depth))

theorem Program.marks_eq (p : Program) : p.marks indent = keptLines indent 0 p.statements := by
  unfold Program.marks keptLines
  rw [Stmt.trimGaps_marksList]

/-- The text of a block that keeps a statement, and of one that keeps none. -/
theorem Block.marks_eq (b : Block) : b.marks indent depth =
    if trimGaps Stmt.isBlank b.statements = [] then [.opens, .closes]
    else [.opens] ++ (textMarks "\n" ++ keptLines indent (depth + 1) b.statements
      ++ textMarks (indent.text depth) ++ [.closes]) := by
  obtain ⟨ss, span⟩ := b
  unfold Block.marks keptLines
  rw [Stmt.trimGaps_marksList]
  cases trimGaps Stmt.isBlank ss <;> rfl

theorem Block.keptLines_infix (b : Block) :
    keptLines indent (depth + 1) b.statements <:+: b.marks indent depth := by
  rw [Block.marks_eq]
  split
  · next hnone =>
    unfold keptLines
    rw [hnone]
    exact List.nil_infix
  · exact infix_right (infix_left (infix_left (infix_right List.infix_rfl)))

/-- A statement's text is in one of the lines of its list. -/
theorem Stmt.marks_infix {s : Stmt} {ss : List Stmt} (hs : s ∈ ss) :
    (s.marks? indent depth).getD [] <:+: keptLines indent depth ss := by
  cases hmarks : s.marks? indent depth with
  | none => exact List.nil_infix
  | some ms =>
    have hfull : s.isBlank = false := by
      cases s with
      | blank => cases hmarks
      | bind | ret | expr | block => rfl
    have hkept : s ∈ trimGaps Stmt.isBlank ss := by
      have hmem : s ∈ (trimGaps Stmt.isBlank ss).filter (!Stmt.isBlank ·) := by
        rw [filter_trimGaps]
        exact List.mem_filter.mpr ⟨hs, by simp [hfull]⟩
      exact (List.mem_filter.mp hmem).1
    obtain ⟨before, after, hsplit⟩ := List.append_of_mem hkept
    unfold keptLines
    rw [hsplit, List.map_append, List.map_cons, linesMarks_append, Stmt.line?, hmarks]
    refine infix_right (infix_left (infix_left (infix_right ?_)))
    show ms <:+: [.starts s] ++ (ms ++ [.ends s])
    exact infix_right (infix_left List.infix_rfl)

theorem mem_pair {a b c : Node} (h : c ∈ [a, b]) : c = a ∨ c = b := by simpa using h

theorem Expr.marks_child {e : Expr} {c : Node} (hc : c ∈ e.children) :
    c.marks indent depth <:+: e.marks indent depth := by
  cases e with
  | ident | int | float | bool | str => cases hc
  | array elements =>
    obtain ⟨x, hx, rfl⟩ := List.mem_map.mp hc
    rw [Expr.marks, Expr.marksList_eq]
    exact infix_left (infix_right (infix_commaMarks (List.mem_map_of_mem hx)))
  | hash entries =>
    obtain ⟨⟨key, value⟩, hp, hc⟩ := List.mem_flatMap.mp hc
    have hentry : c.marks indent depth <:+: Entry.marks indent depth ⟨key, value⟩ := by
      rcases mem_pair hc with rfl | rfl
      · exact infix_left (infix_left List.infix_rfl)
      · exact infix_right List.infix_rfl
    rw [Expr.marks, Entry.marksList_eq]
    exact hentry.trans (infix_left (infix_right (infix_commaMarks (List.mem_map_of_mem hp))))
  | unary op operand =>
    rw [List.mem_singleton.mp hc]
    exact infix_right (infix_wrapMarks _)
  | binary left op right =>
    rcases mem_pair hc with rfl | rfl
    · exact infix_left (infix_left (infix_wrapMarks _))
    · exact infix_right (infix_wrapMarks _)
  | cond condition consequence alternative =>
    rcases List.mem_cons.mp hc with rfl | hc
    · exact infix_left (infix_left (infix_left (infix_right List.infix_rfl)))
    rcases List.mem_cons.mp hc with rfl | hc
    · exact infix_left (infix_right List.infix_rfl)
    cases alternative with
    | none => cases hc
    | some body =>
      rw [List.mem_singleton.mp hc]
      exact infix_right (infix_right List.infix_rfl)
  | loop condition body =>
    rcases mem_pair hc with rfl | rfl
    · exact infix_left (infix_left (infix_right List.infix_rfl))
    · exact infix_right List.infix_rfl
  | func parameters body =>
    rcases List.mem_append.mp hc with hc | hc
    · obtain ⟨i, -, rfl⟩ := List.mem_map.mp hc
      exact List.nil_infix
    · rw [List.mem_singleton.mp hc]
      exact infix_right List.infix_rfl
  | call callee arguments =>
    rw [Expr.marks, Expr.marksList_eq]
    rcases List.mem_cons.mp hc with rfl | hc
    · exact infix_left (infix_left (infix_left (infix_wrapMarks _)))
    · obtain ⟨x, hx, rfl⟩ := List.mem_map.mp hc
      exact infix_left (infix_right (infix_commaMarks (List.mem_map_of_mem hx)))
  | index target position =>
    rcases mem_pair hc with rfl | rfl
    · exact infix_left (infix_left (infix_left (infix_wrapMarks _)))
    · exact infix_left (infix_right List.infix_rfl)

/-- The text of a node holds those of the nodes right below it. -/
theorem Node.marks_child (indent : Indent) (depth : Nat) {n c : Node} (hc : c ∈ n.children) :
    ∃ depth', c.marks indent depth' <:+: n.marks indent depth := by
  cases n with
  | program p =>
    obtain ⟨s, hs, rfl⟩ := List.mem_map.mp hc
    refine ⟨0, ?_⟩
    show (s.marks? indent 0).getD [] <:+: p.marks indent
    rw [p.marks_eq]
    exact Stmt.marks_infix hs
  | stmt s =>
    cases s with
    | bind name value =>
      rcases mem_pair hc with rfl | rfl
      · exact ⟨depth, List.nil_infix⟩
      · exact ⟨depth, infix_right List.infix_rfl⟩
    | ret value =>
      rw [List.mem_singleton.mp hc]
      exact ⟨depth, infix_right List.infix_rfl⟩
    | expr value =>
      rw [List.mem_singleton.mp hc]
      exact ⟨depth, infix_wrapMarks _⟩
    | block body =>
      obtain ⟨s, hs, rfl⟩ := List.mem_map.mp hc
      exact ⟨depth + 1, (Stmt.marks_infix hs).trans body.keptLines_infix⟩
    | blank => cases hc
  | block b =>
    obtain ⟨s, hs, rfl⟩ := List.mem_map.mp hc
    exact ⟨depth + 1, (Stmt.marks_infix hs).trans b.keptLines_infix⟩
  | expr e => exact ⟨depth, Expr.marks_child hc⟩
  | name => cases hc

/-- The text of a tree holds those of all its nodes. -/
theorem Node.Under.marks {n m : Node} (h : n.Under m) (indent : Indent) (depth : Nat) :
    ∃ depth', m.marks indent depth' <:+: n.marks indent depth := by
  induction h generalizing depth with
  | refl => exact ⟨depth, List.infix_rfl⟩
  | child hc _ ih =>
    obtain ⟨depth', hchild⟩ := Node.marks_child indent depth hc
    obtain ⟨depth'', hbelow⟩ := ih depth'
    exact ⟨depth'', hbelow.trans hchild⟩

/-- The text of a node holds the lines of its statements. -/
theorem Node.keptLines_infix (n : Node) (indent : Indent) (depth : Nat) :
    ∃ depth', keptLines indent depth' n.statements <:+: n.marks indent depth := by
  cases n with
  | program p =>
    refine ⟨0, ?_⟩
    show _ <:+: p.marks indent
    rw [p.marks_eq]
    exact List.infix_rfl
  | block b => exact ⟨depth + 1, b.keptLines_infix⟩
  | stmt s =>
    cases s with
    | block b => exact ⟨depth + 1, b.keptLines_infix⟩
    | bind | ret | expr | blank => exact ⟨depth, List.nil_infix⟩
  | expr | name => exact ⟨depth, List.nil_infix⟩

end Parts

/-! ### Gaps between statements -/

section Gaps

variable {α : Type} {isGap : α → Bool}

theorem squeezeGaps_cons {x : α} (hx : isGap x = false) (xs : List α) :
    squeezeGaps isGap (x :: xs) = x :: squeezeGaps isGap xs := by
  rw [squeezeGaps, hx]

/-- Of the gaps in front of something else the last one is kept. -/
theorem squeezeGaps_gaps {x : α} (hx : isGap x = false) {gaps : List α}
    (hgaps : ∀ g ∈ gaps, isGap g = true) (xs : List α) :
    squeezeGaps isGap (gaps ++ x :: xs) = gaps.getLast?.toList ++ x :: squeezeGaps isGap xs := by
  induction gaps with
  | nil => exact squeezeGaps_cons hx xs
  | cons g gaps ih =>
    have ih := ih fun g hg => hgaps g (List.mem_cons_of_mem _ hg)
    have hg : isGap g = true := hgaps g List.mem_cons_self
    rw [List.cons_append, squeezeGaps, ih, hg]
    cases hlast : gaps.getLast? with
    | none =>
      rw [List.getLast?_eq_none_iff.mp hlast]
      simp [hx]
    | some last =>
      have hlastgap : isGap last = true :=
        hgaps last (List.mem_cons_of_mem g (List.mem_of_getLast? hlast))
      simp [List.getLast?_cons, hlast, hlastgap]

/-- What stands in front of something that is no gap does not change what is kept behind it. -/
theorem exists_squeezeGaps_append {x : α} (hx : isGap x = false) (before after : List α) :
    ∃ kept, squeezeGaps isGap (before ++ x :: after) = kept ++ x :: squeezeGaps isGap after := by
  induction before with
  | nil => exact ⟨[], squeezeGaps_cons hx after⟩
  | cons y before ih =>
    obtain ⟨kept, ih⟩ := ih
    rw [List.cons_append, squeezeGaps, ih]
    cases hy : isGap y with
    | false => exact ⟨y :: kept, rfl⟩
    | true =>
      cases kept with
      | nil => exact ⟨[y], by simp [hx]⟩
      | cons z kept =>
        by_cases hz : isGap z = true
        · exact ⟨z :: kept, by simp [hz]⟩
        · exact ⟨y :: z :: kept, by simp [hz]⟩

theorem exists_trimGaps_append {x : α} (hx : isGap x = false) (before after : List α) :
    ∃ kept, trimGaps isGap (before ++ x :: after) = kept ++ x :: squeezeGaps isGap after := by
  unfold trimGaps
  obtain ⟨before', hdrop⟩ : ∃ before', (before ++ x :: after).dropWhile isGap =
      before' ++ x :: after := by
    rw [List.dropWhile_append]
    split
    · exact ⟨[], by rw [List.dropWhile_cons_of_neg (by simp [hx]), List.nil_append]⟩
    · exact ⟨before.dropWhile isGap, rfl⟩
  rw [hdrop]
  exact exists_squeezeGaps_append hx before' after

end Gaps

theorem textMarks_append (a b : String) : textMarks (a ++ b) = textMarks a ++ textMarks b := by
  unfold textMarks
  rw [String.toList_append, List.map_append]

/-- The blank line that is kept of several. -/
theorem linesMarks_gaps (indent : Indent) (depth : Nat) {gaps : List Stmt}
    (hgaps : ∀ g ∈ gaps, g.isBlank = true) (margin : List Mark) :
    linesMarks margin (gaps.getLast?.toList.map (Stmt.line? indent depth)) =
      textMarks (if gaps = [] then "" else "\n") := by
  cases hlast : gaps.getLast? with
  | none =>
    rw [if_pos (List.getLast?_eq_none_iff.mp hlast)]
    rfl
  | some g =>
    have hg : g.line? indent depth = none := by
      rw [← Option.isNone_iff_eq_none, Stmt.isNone_line?]
      exact hgaps g (List.mem_of_getLast? hlast)
    have hne : gaps ≠ [] := List.ne_nil_of_mem (List.mem_of_getLast? hlast)
    rw [if_neg hne, Option.toList_some, List.map_singleton, hg]
    simp [linesMarks]

/-- Between the end of a statement and the start of the next one with a text are the semicolon, the end
    of the line, a blank line if there is one in the tree, and the margin. -/
theorem Node.between_infix (indent : Indent) (depth : Nat) {n : Node} {pre gaps post : List Stmt}
    {s t : Stmt} (hstatements : n.statements = pre ++ s :: (gaps ++ t :: post))
    (hs : s.isBlank = false) (ht : t.isBlank = false) (hgaps : ∀ g ∈ gaps, g.isBlank = true) :
    ∃ depth', .ends s :: (textMarks (";\n" ++ (if gaps = [] then "" else "\n") ++ indent.text depth')
      ++ [.starts t]) <:+: n.marks indent depth := by
  obtain ⟨depth', hlines⟩ := n.keptLines_infix indent depth
  refine ⟨depth', List.IsInfix.trans ?_ hlines⟩
  obtain ⟨kept, hkept⟩ := exists_trimGaps_append hs pre (gaps ++ t :: post)
  obtain ⟨ms, -, hms⟩ := Stmt.exists_line? indent depth' hs
  obtain ⟨mt, -, hmt⟩ := Stmt.exists_line? indent depth' ht
  unfold keptLines
  rw [hstatements, hkept, squeezeGaps_gaps ht hgaps, List.map_append, List.map_cons, List.map_append,
    List.map_cons, hms, hmt, linesMarks_append, linesMarks, linesMarks_append, linesMarks_gaps _ _ hgaps,
    linesMarks, textMarks_append, textMarks_append]
  generalize linesMarks _ ((squeezeGaps Stmt.isBlank post).map _) = rest
  refine infix_right ⟨textMarks (indent.text depth') ++ .starts s :: ms,
    mt ++ .ends t :: (textMarks ";\n" ++ rest), ?_⟩
  simp only [Stmt.enclose, List.append_assoc, List.cons_append, List.nil_append]

end Scriptlet
