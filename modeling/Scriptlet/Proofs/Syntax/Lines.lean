import Mathlib.Data.List.Chain
import Scriptlet.Proofs.Grammar.Spelled
import Scriptlet.Proofs.Syntax.Writing

/-!
# `Proofs.Syntax.Lines` — the lines of the canonical text

A text that is written by the rules of `Proofs.Syntax.Writing` is a list of lines, and each line fits
behind those above it. What is to be known of the lines above are the blocks that are open behind them
and how the last one ends.

## Contents
- `openings`, `closings`: the blocks that a marked text opens and closes.
- `Begun`, `Fits`, `Laid`: a line behind its margin, a line among others, and lines that all fit.
- `AtHand`: the line that is being written. `InLines.step`, `Runs.inLines`: the lines of a text that the
  rules lead through.
- `Formatted`: the lines of a program. `parse_formatted`: every program that was read has such lines.
-/

namespace Scriptlet

/-! ## Lines -/

def Mark.isOpens : Mark → Bool
  | opens => true
  | _ => false

def Mark.isCloses : Mark → Bool
  | closes => true
  | _ => false

/-- How many blocks are opened. -/
def openings (ms : List Mark) : Nat := ms.countP Mark.isOpens

/-- How many blocks are closed. -/
def closings (ms : List Mark) : Nat := ms.countP Mark.isCloses

/-- The line ends with the semicolon of a statement. -/
def EndsStatement (l : List Mark) : Prop := l.getLast? = some (.char ';')

/-- The line above ends a statement. -/
def BelowStatement (above : List (List Mark)) : Prop :=
  ∃ l, above.getLast? = some l ∧ EndsStatement l

/-- The brace that opens a block is the last one of the line, or the brace that closes the block comes
    at once. -/
def ClosesAtOnce (l : List Mark) : Prop := l.IsChain fun x y => x = .opens → y = .closes

/-- The line has a margin for the blocks that are open, one less in front of a brace that closes one,
    and more behind it. Such a brace stands below a statement. -/
def Begun (indent : Indent) (above : List (List Mark)) (l : List Mark) : Prop :=
  ∃ depth c cs, plain l = List.replicate (depth * indent.size) indent.char ++ c :: cs ∧
    c ≠ indent.char ∧
    openings above.flatten = closings above.flatten + depth + (if c = '\x7d' then 1 else 0) ∧
    (c = '\x7d' → BelowStatement above)

/-- A line that fits behind the lines above it. -/
inductive Fits (indent : Indent) (above : List (List Mark)) : List Mark → Prop
  | blank (habove : BelowStatement above) : Fits indent above []
  | full {l : List Mark} (hbegun : Begun indent above l) (hshut : ClosesAtOnce l)
    (hends : EndsStatement l ∨ l.getLast? = some .opens) : Fits indent above l

/-- Lines that fit one behind the other. -/
def Laid (indent : Indent) (lines : List (List Mark)) : Prop :=
  ∀ above l below, lines = above ++ l :: below → Fits indent above l ∧ .char '\n' ∉ l

section Lines

variable {indent : Indent} {lines : List (List Mark)} {l : List Mark} {m : Mark}

theorem openings_append (ms ns : List Mark) : openings (ms ++ ns) = openings ms + openings ns :=
  List.countP_append

theorem closings_append (ms ns : List Mark) : closings (ms ++ ns) = closings ms + closings ns :=
  List.countP_append

theorem laid_nil : Laid indent [] := fun above l below h => by simp at h

theorem Laid.concat (h : Laid indent lines) (hl : Fits indent lines l) (hline : .char '\n' ∉ l) :
    Laid indent (lines ++ [l]) := by
  intro above l' below hsplit
  rcases List.eq_nil_or_concat' below with rfl | ⟨below, last, rfl⟩
  · obtain ⟨rfl, hl'⟩ := List.append_inj' hsplit rfl
    cases hl'
    exact ⟨hl, hline⟩
  · rw [← List.cons_append, ← List.append_assoc] at hsplit
    obtain ⟨hsplit, -⟩ := List.append_inj' hsplit rfl
    exact h above l' below hsplit

theorem Begun.append (h : Begun indent lines l) (ms : List Mark) : Begun indent lines (l ++ ms) := by
  obtain ⟨depth, c, cs, hplain, hrest⟩ := h
  refine ⟨depth, c, cs ++ plain ms, ?_, hrest⟩
  rw [plain_append, hplain, List.append_assoc, List.cons_append]

theorem ClosesAtOnce.concat (h : ClosesAtOnce l) (hm : l.getLast? = some .opens → m = .closes) :
    ClosesAtOnce (l ++ [m]) := by
  refine List.isChain_append.mpr ⟨h, List.isChain_singleton m, ?_⟩
  intro x hx y hy hopens
  cases hy
  exact hm (hopens ▸ hx)

/-- A brace that opens a block and is not the last one has the other one behind it. -/
theorem ClosesAtOnce.closes_head {a b : List Mark} (h : ClosesAtOnce (a ++ .opens :: b)) (hb : b ≠ []) :
    b.head? = some .closes := by
  obtain ⟨m, b, rfl⟩ := List.exists_cons_of_ne_nil hb
  obtain ⟨-, hchain, -⟩ := List.isChain_append.mp h
  rw [List.head?_cons, (List.isChain_cons_cons.mp hchain).1 rfl]

end Lines

/-! ## The line at hand -/

/-- What stands above a line, as a fact on the lines before it. -/
def Above.Holds : Above → List (List Mark) → Prop
  | nothing, lines => lines = []
  | statement, lines => BelowStatement lines
  | opening, _ | blank, _ => True

/-- What stands last on a line. -/
def Last.Holds : Last → List Mark → Prop
  | text, l => l.getLast? ≠ some .opens
  | semicolon, l => EndsStatement l
  | opening, l => l.getLast? = some .opens

theorem Last.Holds.not_opens {last : Last} {l : List Mark} (h : last.Holds l)
    (hlast : last ≠ .opening) : l.getLast? ≠ some .opens := by
  cases last with
  | text => exact h
  | semicolon =>
    have hends : l.getLast? = some (Mark.char ';') := h
    rw [hends]
    simp
  | opening => exact absurd rfl hlast

theorem Last.holds_ofChar (c : Char) (l : List Mark) : (Last.ofChar c).Holds (l ++ [.char c]) := by
  unfold ofChar
  split
  · next hc =>
    rw [hc]
    exact List.getLast?_concat
  · show (l ++ [Mark.char c]).getLast? ≠ some .opens
    rw [List.getLast?_concat]
    simp

/-- How the line at hand stands behind the lines that are complete. -/
inductive AtHand (indent : Indent) (lines : List (List Mark)) : List Mark → Spot → Prop
  | margin {d width : Nat} {above : Above} (hdepth : openings lines.flatten = closings lines.flatten + d)
    (habove : above.Holds lines) :
    AtHand indent lines (List.replicate width (.char indent.char)) ⟨d, .margin width above⟩
  | start {d : Nat} {s : Stmt} (hdepth : openings lines.flatten = closings lines.flatten + d) :
    AtHand indent lines (List.replicate (d * indent.size) (.char indent.char) ++ [.starts s])
      ⟨d, .start⟩
  | inside {d : Nat} {l : List Mark} {last : Last}
    (hdepth : openings (lines.flatten ++ l) = closings (lines.flatten ++ l) + d)
    (hbegun : Begun indent lines l) (hshut : ClosesAtOnce l) (hlast : last.Holds l)
    (hline : .char '\n' ∉ l) : AtHand indent lines l ⟨d, .inside last⟩

section Writing

variable {indent : Indent} {lines : List (List Mark)} {l : List Mark} {d : Nat} {last : Last}

theorem plain_replicate (n : Nat) (c : Char) :
    plain (List.replicate n (.char c)) = List.replicate n c := by
  unfold plain
  rw [List.filterMap_replicate]
  rfl

theorem countP_replicate {p : Mark → Bool} {c : Char} (hp : p (.char c) = false) (n : Nat) :
    (List.replicate n (Mark.char c)).countP p = 0 := by
  rw [List.countP_replicate, if_neg (by simp [hp])]

/-- No character of a line is written. -/
theorem atHand_nil {above : Above} (hdepth : openings lines.flatten = closings lines.flatten + d)
    (habove : above.Holds lines) : AtHand indent lines [] ⟨d, .margin 0 above⟩ := by
  have h : AtHand indent lines (List.replicate 0 (.char indent.char)) ⟨d, .margin 0 above⟩ :=
    .margin hdepth habove
  exact h

theorem AtHand.holds (h : AtHand indent lines l ⟨d, .inside last⟩) : last.Holds l := by
  cases h with
  | inside _ _ _ hlast => exact hlast

/-- The line goes on. -/
theorem AtHand.next {m : Mark} {d' : Nat} {last' : Last} (h : AtHand indent lines l ⟨d, .inside last⟩)
    (hm : l.getLast? = some .opens → m = .closes) (hline : m ≠ .char '\n')
    (hdepth : d + openings [m] = d' + closings [m]) (hlast : last'.Holds (l ++ [m])) :
    AtHand indent lines (l ++ [m]) ⟨d', .inside last'⟩ := by
  cases h with
  | inside hold hbegun hshut _ hfree =>
    refine .inside ?_ (hbegun.append [m]) (hshut.concat hm) hlast ?_
    · rw [← List.append_assoc, openings_append, closings_append, hold]
      omega
    · intro hmem
      rcases List.mem_append.mp hmem with hmem | hmem
      · exact hfree hmem
      · exact hline (List.mem_singleton.mp hmem).symm

/-- The line ends. -/
theorem AtHand.line (h : AtHand indent lines l ⟨d, .inside last⟩) (hlaid : Laid indent lines)
    (hends : EndsStatement l ∨ l.getLast? = some .opens) {above : Above}
    (habove : above.Holds (lines ++ [l])) :
    Laid indent (lines ++ [l]) ∧ AtHand indent (lines ++ [l]) [] ⟨d, .margin 0 above⟩ := by
  cases h with
  | inside hdepth hbegun hshut _ hfree =>
    refine ⟨hlaid.concat (.full hbegun hshut hends) hfree, atHand_nil ?_ habove⟩
    rw [List.flatten_append, List.flatten_singleton]
    exact hdepth

/-- The margin of a line, perhaps with the start of a statement behind it. -/
structure Margin (indent : Indent) (width : Nat) (front : List Mark) : Prop where
  plain_eq : plain front = List.replicate width indent.char
  openings_eq : openings front = 0
  closings_eq : closings front = 0
  mem : ∀ m ∈ front, m ≠ .opens ∧ m ≠ .char '\n'

theorem margin_replicate (hi : isSpacing indent.char = true) (width : Nat) :
    Margin indent width (List.replicate width (.char indent.char)) where
  plain_eq := plain_replicate width indent.char
  openings_eq := countP_replicate rfl width
  closings_eq := countP_replicate rfl width
  mem m hm := by
    rw [(List.mem_replicate.mp hm).2]
    refine ⟨by simp, fun hline => ?_⟩
    rw [Mark.char.inj hline] at hi
    cases hi

theorem margin_starts (hi : isSpacing indent.char = true) (width : Nat) (s : Stmt) :
    Margin indent width (List.replicate width (.char indent.char) ++ [.starts s]) := by
  have h := margin_replicate hi width
  have hplain : plain [.starts s] = [] := rfl
  refine ⟨?_, ?_, ?_, fun m hm => ?_⟩
  · rw [plain_append, h.plain_eq, hplain, List.append_nil]
  · rw [openings_append, h.openings_eq]
    rfl
  · rw [closings_append, h.closings_eq]
    rfl
  · rcases List.mem_append.mp hm with hm | hm
    · exact h.mem m hm
    · rw [List.mem_singleton.mp hm]
      simp

/-- The line begins behind its margin. -/
theorem Margin.atHand {m : Mark} {c : Char} {k : Nat} {front : List Mark}
    (h : Margin indent (k * indent.size) front) (hm : m.char? = some c) (hmargin : c ≠ indent.char)
    (hline : m ≠ .char '\n')
    (hk : openings lines.flatten = closings lines.flatten + k + (if c = '\x7d' then 1 else 0))
    (habove : c = '\x7d' → BelowStatement lines)
    (hdepth : openings lines.flatten + openings [m] = closings lines.flatten + closings [m] + d)
    (hlast : last.Holds (front ++ [m])) : AtHand indent lines (front ++ [m]) ⟨d, .inside last⟩ := by
  have hshut : ClosesAtOnce front := by
    have hmem := h.mem
    clear h hlast
    induction front with
    | nil => exact List.isChain_nil
    | cons x front ih =>
      obtain ⟨hx, hmem⟩ := List.forall_mem_cons.mp hmem
      exact List.isChain_cons.mpr ⟨fun y _ hopens => absurd hopens hx.1, ih hmem⟩
  have hopens : front.getLast? ≠ some .opens := fun hlast =>
    (h.mem _ (List.mem_of_getLast? hlast)).1 rfl
  have hchar : plain [m] = [c] := by
    unfold plain
    rw [List.filterMap_cons_some hm, List.filterMap_nil]
  refine .inside ?_ ⟨k, c, [], ?_, hmargin, hk, habove⟩ (hshut.concat fun heq => absurd heq hopens)
    hlast ?_
  · rw [openings_append, closings_append, openings_append, closings_append, h.openings_eq, h.closings_eq]
    omega
  · rw [plain_append, h.plain_eq, hchar]
  · intro hmem
    rcases List.mem_append.mp hmem with hmem | hmem
    · exact (h.mem _ hmem).2 rfl
    · exact hline (List.mem_singleton.mp hmem).symm

/-- A text of complete lines that fit, and of the line at hand. -/
def InLines (indent : Indent) (ms : List Mark) (y : Spot) : Prop :=
  ∃ lines l, ms = lines.flatMap (· ++ [.char '\n']) ++ l ∧ Laid indent lines ∧ AtHand indent lines l y

variable {ms : List Mark} {m : Mark} {y z : Spot}

/-- A mark that ends no line becomes part of the one at hand. -/
theorem inLines_concat (hms : ms = lines.flatMap (· ++ [.char '\n']) ++ l) (hlaid : Laid indent lines)
    (h : AtHand indent lines (l ++ [m]) z) : InLines indent (ms ++ [m]) z :=
  ⟨lines, l ++ [m], by rw [hms, List.append_assoc], hlaid, h⟩

/-- A line break makes the line at hand a complete one. -/
theorem inLines_break (hms : ms = lines.flatMap (· ++ [.char '\n']) ++ l)
    (h : Laid indent (lines ++ [l]) ∧ AtHand indent (lines ++ [l]) [] z) :
    InLines indent (ms ++ [.char '\n']) z :=
  ⟨lines ++ [l], [], by simp [hms], h.1, h.2⟩

/-- The next mark. -/
theorem InLines.step (hi : isSpacing indent.char = true) (h : InLines indent ms y)
    (hm : Step indent y m z) : InLines indent (ms ++ [m]) z := by
  obtain ⟨lines, l, hms, hlaid, hhand⟩ := h
  cases hm with
  | @indentation d width above =>
    cases hhand with
    | margin hdepth habove =>
      refine inLines_concat hms hlaid ?_
      rw [← List.replicate_succ']
      exact .margin hdepth habove
  | blank =>
    cases hhand with
    | margin hdepth habove =>
      refine inLines_break hms ⟨hlaid.concat (.blank habove) List.not_mem_nil, atHand_nil ?_ trivial⟩
      rw [List.flatten_append, List.flatten_singleton, List.replicate_zero, List.append_nil]
      exact hdepth
  | starts =>
    cases hhand with
    | margin hdepth => exact inLines_concat hms hlaid (.start hdepth)
  | firstCloses =>
    cases hhand with
    | margin hdepth habove =>
      refine inLines_concat hms hlaid
        ((margin_replicate hi _).atHand rfl ?_ (by simp) ?_ (fun _ => habove) ?_ ?_)
      · rintro heq
        rw [← heq] at hi
        cases hi
      · rw [if_pos rfl]
        exact hdepth
      · have hcounts : openings [.closes] = 0 ∧ closings [.closes] = 1 := ⟨rfl, rfl⟩
        omega
      · show (_ ++ [Mark.closes]).getLast? ≠ some .opens
        simp
  | @first d c hline hmargin hbrace =>
    cases hhand with
    | start hdepth =>
      refine inLines_concat hms hlaid ((margin_starts hi _ _).atHand rfl hmargin
        (by simpa using hline) ?_ (fun heq => absurd heq hbrace) hdepth (Last.holds_ofChar c _))
      rw [if_neg hbrace]
      exact hdepth
  | firstOpens =>
    cases hhand with
    | start hdepth =>
      refine inLines_concat hms hlaid ((margin_starts hi _ _).atHand rfl ?_ (by simp) ?_ ?_ ?_ ?_)
      · rintro heq
        rw [← heq] at hi
        cases hi
      · rw [if_neg (by decide)]
        exact hdepth
      · intro heq
        exact absurd heq (by decide)
      · have hcounts : openings [.opens] = 1 ∧ closings [.opens] = 0 := ⟨rfl, rfl⟩
        omega
      · exact List.getLast?_concat
  | @next d last c hlast hline =>
    have hopens := hhand.holds.not_opens hlast
    exact inLines_concat hms hlaid (hhand.next (fun heq => absurd heq hopens) (by simpa using hline) rfl
      (Last.holds_ofChar c l))
  | opens hlast =>
    have hopens := hhand.holds.not_opens hlast
    exact inLines_concat hms hlaid
      (hhand.next (fun heq => absurd heq hopens) (by simp) rfl List.getLast?_concat)
  | closes =>
    refine inLines_concat hms hlaid (hhand.next (fun _ => rfl) (by simp) rfl ?_)
    show (l ++ [Mark.closes]).getLast? ≠ some .opens
    simp
  | @ends d last s hlast =>
    have hopens := hhand.holds.not_opens hlast
    refine inLines_concat hms hlaid (hhand.next (fun heq => absurd heq hopens) (by simp) rfl ?_)
    show (l ++ [Mark.ends s]).getLast? ≠ some .opens
    simp
  | statement =>
    have hends : EndsStatement l := hhand.holds
    exact inLines_break hms (hhand.line hlaid (Or.inl hends) ⟨l, List.getLast?_concat, hends⟩)
  | opening => exact inLines_break hms (hhand.line hlaid (Or.inr hhand.holds) trivial)

/-- A text that the rules lead through. -/
theorem Runs.inLines (hi : isSpacing indent.char = true)
    (h : Runs indent ⟨0, .margin 0 .nothing⟩ ms y) : InLines indent ms y := by
  induction h with
  | nil => exact ⟨[], [], rfl, laid_nil, atHand_nil rfl rfl⟩
  | snoc _ hm ih => exact ih.step hi hm

end Writing

/-! ## The lines of a program -/

/-- The lines of a program's canonical text, marks and all. -/
structure Formatted (indent : Indent) (p : Program) (lines : List (List Mark)) : Prop where
  /-- The lines with a line break behind each one are the marked text. -/
  marks_eq : p.marks indent = lines.flatMap (· ++ [.char '\n'])
  /-- No line break is part of a line. -/
  unbroken : ∀ l ∈ lines, .char '\n' ∉ l
  /-- Without its marks the text is the canonical one. -/
  layout_eq : p.layout indent = unmarked (p.marks indent)
  /-- The text is empty or ends with a semicolon and a line break. -/
  ending : p.layout indent = "" ∨ ∃ front, p.layout indent = front ++ ";\n"
  /-- The first line is not blank. -/
  first : ∀ l ∈ lines.head?, plain l ≠ []
  /-- The last line is not blank. -/
  last : ∀ l ∈ lines.getLast?, plain l ≠ []
  /-- The line above a blank one is not blank, and every block that it opens it closes at once. -/
  above_blank : ∀ above l m below, lines = above ++ l :: m :: below → plain m = [] →
    plain l ≠ [] ∧ ∀ a b, l = a ++ .opens :: b → b.head? = some .closes
  /-- The line below a blank one does not start with a closing brace. -/
  below_blank : ∀ above l m below, lines = above ++ l :: m :: below → plain l = [] →
    ∀ c ∈ ((plain m).dropWhile (· = indent.char)).head?, c ≠ '\x7d'
  /-- Between two statements that follow each other in a list there is a blank line just if there is one
      in the tree. -/
  between : ∀ n, Node.Under (.program p) n → ∀ pre s gaps t post,
    n.statements = pre ++ s :: (gaps ++ t :: post) → s.isBlank = false → t.isBlank = false →
    (∀ g ∈ gaps, g.isBlank = true) → ∃ before depth after, p.marks indent =
      before ++ .ends s :: (textMarks (";\n" ++ (if gaps = [] then "" else "\n") ++ indent.text depth)
        ++ .starts t :: after)
  /-- The margin of a line is as wide as the number of blocks that are open at its start asks for, one
      block less where it starts with a closing brace. -/
  margin : ∀ above l below, lines = above ++ l :: below → plain l ≠ [] →
    ∃ depth c cs, plain l = List.replicate (depth * indent.size) indent.char ++ c :: cs ∧
      c ≠ indent.char ∧
      openings above.flatten = closings above.flatten + depth + (if c = '\x7d' then 1 else 0)

section Formatting

variable {indent : Indent} {above : List (List Mark)} {l : List Mark}

theorem EndsStatement.exists_front (h : EndsStatement l) : ∃ front, l = front ++ [.char ';'] := by
  obtain ⟨front, hl⟩ := List.getLast?_eq_some_iff.mp h
  exact ⟨front, hl⟩

theorem EndsStatement.plain_ne_nil (h : EndsStatement l) : plain l ≠ [] := by
  obtain ⟨front, rfl⟩ := h.exists_front
  have hsemi : plain [.char ';'] = [';'] := rfl
  rw [plain_append, hsemi]
  simp

theorem belowStatement_concat (h : BelowStatement (above ++ [l])) : EndsStatement l := by
  obtain ⟨l', hl', hends⟩ := h
  rw [List.getLast?_concat] at hl'
  cases hl'
  exact hends

/-- A line without characters is below a statement, and any other one is behind its margin. -/
theorem Fits.cases (h : Fits indent above l) :
    (plain l = [] ∧ BelowStatement above) ∨
      (plain l ≠ [] ∧ Begun indent above l ∧ ClosesAtOnce l) := by
  cases h with
  | blank habove => exact Or.inl ⟨rfl, habove⟩
  | full hbegun hshut =>
    refine Or.inr ⟨?_, hbegun, hshut⟩
    obtain ⟨depth, c, cs, hplain, -⟩ := hbegun
    rw [hplain]
    simp

/-- What a line starts with behind its margin. -/
theorem dropWhile_margin {n : Nat} {c d : Char} {cs : List Char} (hc : c ≠ d) :
    (List.replicate n d ++ c :: cs).dropWhile (· = d) = c :: cs := by
  rw [List.dropWhile_append_of_pos (by simp +contextual),
    List.dropWhile_cons_of_neg (by simpa using hc)]

/-- The lines of a program whose names and numbers are spelled as the lexer reads them. -/
theorem Program.exists_laid (hi : isSpacing indent.char = true) {p : Program}
    (h : Stmt.SpelledList p.statements) :
    ∃ lines, p.marks indent = lines.flatMap (· ++ [.char '\n']) ∧ Laid indent lines ∧
      (lines = [] ∨ BelowStatement lines) := by
  obtain ⟨lines, l, hmarks, hlaid, hhand⟩ := (p.marks_runs hi h).inLines hi
  generalize hend : (if trimGaps Stmt.isBlank p.statements = [] then Above.nothing else .statement) =
    above at hhand
  cases hhand with
  | margin _ habove =>
    rw [List.replicate_zero, List.append_nil] at hmarks
    refine ⟨lines, hmarks, hlaid, ?_⟩
    split at hend
    · subst hend
      exact Or.inl habove
    · subst hend
      exact Or.inr habove

/-- Lines that fit are those of a formatted text. -/
theorem Laid.formatted {lines : List (List Mark)} {p : Program} (hlaid : Laid indent lines)
    (hmarks : p.marks indent = lines.flatMap (· ++ [.char '\n']))
    (hlast : lines = [] ∨ BelowStatement lines) : Formatted indent p lines where
  marks_eq := hmarks
  unbroken l hl := by
    obtain ⟨above, below, hsplit⟩ := List.append_of_mem hl
    exact (hlaid above l below hsplit).2
  layout_eq := p.unmarked_marks.symm
  ending := by
    rw [← p.unmarked_marks, hmarks]
    rcases hlast with rfl | ⟨l, hl, hends⟩
    · exact Or.inl rfl
    · obtain ⟨lines, rfl⟩ := List.getLast?_eq_some_iff.mp hl
      obtain ⟨front, rfl⟩ := hends.exists_front
      refine Or.inr ⟨unmarked (lines.flatMap (· ++ [.char '\n']) ++ front), ?_⟩
      have hend : unmarked ([.char ';'] ++ [.char '\n']) = ";\n" := rfl
      rw [List.flatMap_append, List.flatMap_singleton, List.append_assoc, ← List.append_assoc,
        unmarked_append, hend]
  first l hl := by
    obtain ⟨below, rfl⟩ := List.head?_eq_some_iff.mp hl
    rcases (hlaid [] l below rfl).1.cases with ⟨-, l', hl', -⟩ | ⟨hne, -⟩
    · cases hl'
    · exact hne
  last l hl := by
    rcases hlast with rfl | ⟨l', hl', hends⟩
    · cases hl
    · rw [hl'] at hl
      cases hl
      exact hends.plain_ne_nil
  above_blank above l m below hsplit hblank := by
    have hm := (hlaid (above ++ [l]) m below (by rw [hsplit, List.append_assoc]; rfl)).1
    rcases hm.cases with ⟨-, hbelow⟩ | ⟨hne, -⟩
    · have hends := belowStatement_concat hbelow
      refine ⟨hends.plain_ne_nil, fun a b hl => ?_⟩
      rcases (hlaid above l (m :: below) hsplit).1.cases with ⟨hplain, -⟩ | ⟨-, -, hshut⟩
      · exact absurd hplain hends.plain_ne_nil
      · rw [hl] at hshut hends
        refine hshut.closes_head ?_
        rintro rfl
        have hlast : (a ++ [Mark.opens]).getLast? = some (Mark.char ';') := hends
        rw [List.getLast?_concat] at hlast
        cases hlast
    · exact absurd hblank hne
  below_blank above l m below hsplit hblank c hc := by
    rintro rfl
    have hm := (hlaid (above ++ [l]) m below (by rw [hsplit, List.append_assoc]; rfl)).1
    rcases hm.cases with ⟨hplain, -⟩ | ⟨-, ⟨depth, c, cs, hplain, hchar, -, hbelow⟩, -⟩
    · rw [hplain] at hc
      cases hc
    · rw [hplain, dropWhile_margin hchar] at hc
      cases hc
      exact (belowStatement_concat (hbelow rfl)).plain_ne_nil hblank
  between n hn pre s gaps t post hstatements hs ht hgaps := by
    obtain ⟨depth, hpart⟩ := hn.marks indent 0
    obtain ⟨depth', hbetween⟩ := n.between_infix indent depth hstatements hs ht hgaps
    obtain ⟨before, after, hwhole⟩ := hbetween.trans hpart
    have hwhole : p.marks indent = _ := hwhole.symm
    refine ⟨before, depth', after, ?_⟩
    rw [hwhole]
    simp only [List.append_assoc, List.cons_append, List.nil_append]
  margin above l below hsplit hne := by
    rcases (hlaid above l below hsplit).1.cases with ⟨hplain, -⟩ | ⟨-, hbegun, -⟩
    · exact absurd hplain hne
    · obtain ⟨depth, c, cs, hplain, hchar, hdepth, -⟩ := hbegun
      exact ⟨depth, c, cs, hplain, hchar, hdepth⟩

/-- The canonical text of every program that was read is formatted line by line. -/
theorem parse_formatted (source : String) (indent : Indent) (hi : isSpacing indent.char = true) :
    ∃ lines, Formatted indent (parse source).program lines := by
  obtain ⟨lines, hmarks, hlaid, hlast⟩ := Program.exists_laid hi (parse_spelled source)
  exact ⟨lines, hlaid.formatted hmarks hlast⟩

/-- A step of one tab, and a block inside a block. -/
theorem parse_formatted_tabs : isSpacing '\t' = true ∧
    ∃ lines, Formatted ⟨'\t', 1⟩
      (parse "while x \x7b if x \x7b x = x - 1 \x7d \x7d").program lines :=
  ⟨rfl, parse_formatted _ ⟨'\t', 1⟩ rfl⟩

/-- Blank lines stay between the statements of a block alone, and one for two. -/
example : (parse "[fn() \x7b\n\n a;\n\n\n b\n\n\x7d]").program.layout ⟨' ', 2⟩ =
    "[fn() \x7b\n  a;\n\n  b;\n\x7d];\n" := by decide +kernel

end Formatting

end Scriptlet
