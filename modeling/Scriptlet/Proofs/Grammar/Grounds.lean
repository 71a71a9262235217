import Scriptlet.Proofs.Grammar.Carried
import Scriptlet.Proofs.Numeral.Literal

/-!
# `Proofs.Grammar.Grounds` — which faults a text can have

A fault tells of a lexeme, and what it tells is so. Some faults tell what is never so. A float of a text
can always be read, and where the grammar asks a token for its operator the token is one, since no other
token binds the expression before it but the two that open a call and an index.

## Contents
- `Fault.TellsOf`: what a fault says of a lexeme. `SyntaxError.Grounded`: it is so of one of the text.
- `Rule.Grounds`: from lexemes of the text the rule finds grounded faults. There is one lemma for each
  rule.
- `rules_ground`: the recursive rules. `parse_grounded`: the faults of a text.
- `parse_number_faults`: no fault is about a float or an operator, and those about integers.
-/

namespace Scriptlet

/-! ## Faults with grounds -/

/-- What a fault says is so of the lexeme: another token was the only choice, no expression starts with
    it, or it is an integer that has no value. -/
def Fault.TellsOf (x : Lexeme) : Fault → Prop
  | .unexpected (.token t) found => found = x.token.kind ∧ found ≠ t
  | .unexpected .operator _ => False
  | .noExpression found => found = x.token.kind
  | .badInteger text => x.token = .int text ∧ Numeral.readInteger text = none
  | .badFloat _ => False

/-- The fault is at a lexeme of the text, or at an end of the text, and tells of it. -/
def SyntaxError.Grounded (xs : List Lexeme) (e : SyntaxError) : Prop :=
  ∃ x, (x ∈ xs ∨ x.token = .eof) ∧ e.span = x.span ∧ e.fault.TellsOf x

/-- The lexemes left are lexemes of the text, and the faults noted have grounds in it. -/
structure State.Grounded (xs : List Lexeme) (s : State) : Prop where
  rest : s.rest ⊆ xs
  errors : ∀ e ∈ s.errors, e.Grounded xs

namespace State.Grounded

variable {xs : List Lexeme} {s t : State}

theorem current (h : s.Grounded xs) : s.current ∈ xs ∨ s.current.token = .eof := by
  obtain ⟨rest, stop, errors⟩ := s
  cases rest with
  | nil => exact Or.inr rfl
  | cons x rest => exact Or.inl (h.rest List.mem_cons_self)

/-- Taking lexemes adds none. -/
theorem of_suffix (h : s.Grounded xs) (hst : t.rest <:+ s.rest) (he : t.errors = s.errors) :
    t.Grounded xs :=
  ⟨fun _ hx => h.rest (hst.subset hx), he ▸ h.errors⟩

theorem step (h : s.Grounded xs) : s.step.Grounded xs := by
  refine h.of_suffix ?_ (State.errors_step s)
  rw [rest_step]
  exact List.tail_suffix s.rest

/-- A fault is noted and what is left of the statement is passed. -/
theorem recover (h : s.Grounded xs) {e : SyntaxError} (he : e.Grounded xs) (inBlock : Bool) :
    ((s.note e).recover inBlock).Grounded xs := by
  have hnote : (s.note e).Grounded xs := by
    refine ⟨h.rest, fun d hd => ?_⟩
    rcases List.mem_append.mp hd with hd | hd
    · exact h.errors d hd
    · rw [List.mem_singleton.mp hd]
      exact he
  exact hnote.of_suffix ((s.note e).rest_recover_suffix inBlock) rfl

end State.Grounded

/-! ## Rules that find grounded faults -/

/-- All faults have grounds, the one at the end and those noted. -/
def Reply.Grounded {α : Type} (xs : List Lexeme) : Reply α → Prop
  | .ok _ t => t.Grounded xs
  | .error e t => e.Grounded xs ∧ t.Grounded xs
  | .starved => True

/-- From the state the rule finds grounded faults. -/
def Rule.GroundsAt {α : Type} (xs : List Lexeme) (s : State) (r : Rule α) : Prop :=
  s.Grounded xs → (r s).Grounded xs

/-- From every state of the text the rule finds grounded faults. -/
def Rule.Grounds {α : Type} (xs : List Lexeme) (r : Rule α) : Prop :=
  ∀ s : State, r.GroundsAt xs s

namespace Rule

variable {α β : Type} {xs : List Lexeme} {s : State}

theorem Grounds.bind {r : Rule α} {f : α → Rule β} (h : r.Grounds xs) (hf : ∀ a, (f a).Grounds xs) :
    (r >>= f).Grounds xs := by
  intro s hs
  have hfirst := h s hs
  rw [bind_apply]
  cases hr : r s with
  | ok a t =>
    rw [hr] at hfirst
    exact hf a t hfirst
  | error e t =>
    rw [hr] at hfirst
    exact hfirst
  | starved => trivial

theorem grounds_pure (a : α) : (pure a : Rule α).Grounds xs := fun _ hs => hs

theorem grounds_starve : (starve : Rule α).Grounds xs := fun _ _ => trivial

/-- A fault that tells of the lexeme in front. -/
theorem groundsAt_fail {fault : Fault} (h : fault.TellsOf s.current) :
    (fail fault s.current.span : Rule α).GroundsAt xs s :=
  fun hs => ⟨⟨s.current, hs.current, rfl, h⟩, hs⟩

theorem grounds_look_bind {f : Lexeme → Rule β} (h : ∀ s : State, (f s.current).GroundsAt xs s) :
    (look >>= f).Grounds xs := h

theorem grounds_take : take.Grounds xs := fun _ hs => hs.step

/-- What comes after a lexeme was taken may find a fault that tells of it. -/
theorem groundsAt_take_bind {f : Lexeme → Rule β}
    (hf : ∀ t : State, (∀ fault : Fault, fault.TellsOf s.current →
      SyntaxError.Grounded xs ⟨fault, s.current.span⟩) → (f s.current).GroundsAt xs t) :
    (take >>= f).GroundsAt xs s :=
  fun hs => hf s.step (fun _ h => ⟨s.current, hs.current, rfl, h⟩) hs.step

theorem grounds_skipBlankLines : skipBlankLines.Grounds xs :=
  fun s hs => hs.of_suffix s.rest_skipBlankLines_suffix rfl

theorem grounds_skipOptional (t : Token) : (skipOptional t).Grounds xs := by
  intro s hs
  show (if s.currentIs t then s.step else s).Grounded xs
  split
  · exact hs.step
  · exact hs

theorem grounds_expect (t : Token) : (expect t).Grounds xs := by
  intro s hs
  unfold expect
  split
  · exact hs.step
  · next hne => exact ⟨⟨s.current, hs.current, rfl, rfl, by simpa [State.currentIs] using hne⟩, hs⟩

theorem grounds_moreItems {item : Rule α} (hi : item.Grounds xs) (b : Nat) :
    (moreItems item b).Grounds xs := by
  induction b with
  | zero => exact grounds_starve
  | succ b ih =>
    unfold moreItems
    refine grounds_skipBlankLines.bind fun _ => grounds_look_bind fun s => ?_
    split
    · refine Grounds.bind grounds_take (fun _ => ?_) s
      refine grounds_skipBlankLines.bind fun _ => hi.bind fun first => ?_
      exact ih.bind fun others => grounds_pure _
    · exact grounds_pure _ s

theorem grounds_listOf {item : Rule α} (hi : item.Grounds xs) (close : Token) (b : Nat) :
    (listOf close item b).Grounds xs := by
  unfold listOf
  refine grounds_skipBlankLines.bind fun _ => grounds_look_bind fun s => ?_
  split
  · exact ((grounds_expect close).bind fun last => grounds_pure _) s
  · refine (hi.bind fun first => (grounds_moreItems hi b).bind fun others => ?_) s
    exact (grounds_expect close).bind fun last => grounds_pure _

end Rule

/-! ## The rules over their parts -/

namespace Grammar

open Rule

section Parts

variable {xs : List Lexeme} {expr : ExprRule} {block : Rule Block} {s : State}

theorem name_grounds : name.Grounds xs := by
  refine grounds_look_bind fun s => ?_
  split
  · exact (grounds_take.bind fun _ => grounds_pure _) s
  · next hname => exact groundsAt_fail ⟨rfl, by cases h : s.current.token <;> simp_all [Token.kind]⟩

/-- An integer that cannot be read is at fault. -/
theorem integer_grounds {text : String} (hx : s.current.token = .int text) :
    integer.GroundsAt xs s := by
  refine groundsAt_take_bind fun t hfault => ?_
  rw [hx]
  split
  · exact grounds_pure _ t
  · next hnone => exact fun ht => ⟨hfault _ ⟨hx, hnone⟩, ht⟩

/-- A float can be read. -/
theorem float_grounds (hxs : ∀ x ∈ xs, x.token.Spelled) {text : String}
    (hx : s.current.token = .float text) : float.GroundsAt xs s := by
  intro hs
  have hmem : s.current ∈ xs := hs.current.resolve_right (by simp [hx])
  have hspelled := hxs _ hmem
  rw [hx] at hspelled
  obtain ⟨whole, places, htext⟩ := hspelled
  obtain ⟨value, hvalue⟩ := Option.isSome_iff_exists.mp (Numeral.readFloat_of_isFloat htext)
  have hliteral : s.current.token.literal = text := by rw [hx, Token.literal]
  unfold float
  rw [take_bind, hliteral, hvalue]
  exact hs.step

variable (he : ∀ l, (expr l).Grounds xs) (hb : block.Grounds xs)

include he

theorem array_grounds (b : Nat) : (array expr b).Grounds xs := by
  unfold array
  refine (grounds_expect _).bind fun _ => ?_
  exact (grounds_listOf (he _) _ b).bind fun p => grounds_pure _

theorem entry_grounds : (entry expr).Grounds xs := by
  unfold entry
  refine (he _).bind fun key => grounds_skipBlankLines.bind fun _ => ?_
  exact (grounds_expect _).bind fun _ => (he _).bind fun value => grounds_pure _

theorem hash_grounds (b : Nat) : (hash expr b).Grounds xs := by
  unfold hash
  refine (grounds_expect _).bind fun _ => ?_
  exact (grounds_listOf (entry_grounds he) _ b).bind fun p => grounds_pure _

theorem unary_grounds : (unary expr).Grounds xs := by
  refine fun s => groundsAt_take_bind fun t hfault => ?_
  split
  · exact ((he _).bind fun operand => grounds_pure _) t
  · exact fun ht => ⟨hfault _ rfl, ht⟩

theorem group_grounds : (group expr).Grounds xs := by
  unfold group
  refine grounds_take.bind fun _ => (he _).bind fun inner => grounds_skipBlankLines.bind fun _ => ?_
  exact (grounds_expect _).bind fun _ => grounds_pure _

include hb

theorem cond_grounds : (cond expr block).Grounds xs := by
  unfold cond
  refine (grounds_expect _).bind fun _ => (he _).bind fun condition => ?_
  refine hb.bind fun consequence => grounds_look_bind fun s => ?_
  split
  · exact (grounds_take.bind fun _ => hb.bind fun alternative => grounds_pure _) s
  · exact grounds_pure _ s

theorem loop_grounds : (loop expr block).Grounds xs := by
  unfold loop
  refine (grounds_expect _).bind fun _ => (he _).bind fun condition => ?_
  exact hb.bind fun body => grounds_pure _

omit he in
theorem func_grounds (b : Nat) : (func block b).Grounds xs := by
  unfold func
  refine (grounds_expect _).bind fun _ => (grounds_expect _).bind fun _ => ?_
  exact (grounds_listOf name_grounds _ b).bind fun p => hb.bind fun body => grounds_pure _

theorem operand_grounds (hxs : ∀ x ∈ xs, x.token.Spelled) (b : Nat) :
    (operand expr block b).Grounds xs := by
  refine grounds_look_bind fun s => ?_
  split
  case h_1 => exact (name_grounds.bind fun n => grounds_pure _) s
  case h_2 h => exact integer_grounds h
  case h_3 h => exact float_grounds hxs h
  case h_4 | h_5 | h_6 => exact (grounds_take.bind fun _ => grounds_pure _) s
  case h_7 | h_8 => exact unary_grounds he s
  case h_9 => exact array_grounds he b s
  case h_10 => exact hash_grounds he b s
  case h_11 => exact cond_grounds he hb s
  case h_12 => exact loop_grounds he hb s
  case h_13 => exact func_grounds hb b s
  case h_14 => exact group_grounds he s
  case h_15 => exact groundsAt_fail rfl

omit hb

theorem binary_grounds (left : Expr) {op : BinaryOp} (hop : s.current.token.binaryOp? = some op) :
    (binary expr left).GroundsAt xs s := by
  refine groundsAt_take_bind fun t _ => ?_
  rw [hop]
  exact ((he _).bind fun right => grounds_pure _) t

omit he in
/-- A token that binds more tightly than a level is asked for its operator only if it is one. -/
theorem continuation_cases (expr : ExprRule) (b : Nat) (left : Expr) {level : Precedence} {s : State}
    (hrank : level.rank < s.precedence.rank) :
    (s.current.token = .leftParen ∧ continuation expr b left s = call expr b left s) ∨
      (s.current.token = .leftBracket ∧ continuation expr b left s = index expr left s) ∨
      ∃ op, s.current.token.binaryOp? = some op ∧
        continuation expr b left s = binary expr left s := by
  unfold continuation
  rw [look_bind]
  rcases Token.binaryOp?_isSome_of_binds (Nat.lt_of_le_of_lt (Nat.zero_le _) hrank)
    with hparen | hbracket | hsome
  · exact Or.inl ⟨hparen, by rw [hparen]⟩
  · exact Or.inr (Or.inl ⟨hbracket, by rw [hbracket]⟩)
  · obtain ⟨op, hop⟩ := Option.isSome_iff_exists.mp hsome
    have htoken : s.current.token = .operator op := by
      cases h : s.current.token <;> rw [h] at hop <;> cases hop
      rfl
    exact Or.inr (Or.inr ⟨op, hop, by rw [htoken]⟩)

theorem continuation_grounds (b : Nat) (left : Expr) {level : Precedence}
    (hrank : level.rank < s.precedence.rank) : (continuation expr b left).GroundsAt xs s := by
  unfold GroundsAt
  rcases continuation_cases expr b left hrank with ⟨-, hcall⟩ | ⟨-, hindex⟩ | ⟨op, hop, hbinary⟩
  · rw [hcall]
    unfold call
    refine ((grounds_expect _).bind fun _ => ?_) s
    exact (grounds_listOf (he _) _ b).bind fun p => grounds_pure _
  · rw [hindex]
    unfold index
    refine ((grounds_expect _).bind fun _ => (he _).bind fun position => ?_) s
    refine grounds_skipBlankLines.bind fun _ => ?_
    exact (grounds_expect _).bind fun _ => grounds_pure _
  · rw [hbinary]
    exact binary_grounds he left hop

theorem letStatement_grounds : (letStatement expr).Grounds xs := by
  unfold letStatement
  refine (grounds_expect _).bind fun _ => name_grounds.bind fun bound => ?_
  refine (grounds_expect _).bind fun _ => (he _).bind fun value => ?_
  exact (grounds_skipOptional _).bind fun _ => grounds_pure _

theorem returnStatement_grounds : (returnStatement expr).Grounds xs := by
  unfold returnStatement
  refine (grounds_expect _).bind fun _ => (he _).bind fun value => ?_
  exact (grounds_skipOptional _).bind fun _ => grounds_pure _

theorem expressionStatement_grounds : (expressionStatement expr).Grounds xs := by
  unfold expressionStatement
  exact (he _).bind fun value => (grounds_skipOptional _).bind fun _ => grounds_pure _

include hb

theorem statement_grounds : (statement expr block).Grounds xs := by
  refine grounds_look_bind fun s => ?_
  split
  · exact (grounds_take.bind fun _ => grounds_pure _) s
  · exact letStatement_grounds he s
  · exact returnStatement_grounds he s
  · exact (hb.bind fun body => grounds_pure _) s
  · exact expressionStatement_grounds he s

end Parts

/-! ### The recursive rules -/

/-- The rules with budget `b` find grounded faults. -/
structure RulesGround (xs : List Lexeme) (b : Nat) : Prop where
  expression : ∀ level, (expression b level).Grounds xs
  operators : ∀ level left, (operators b level left).Grounds xs
  block : (block b).Grounds xs
  statements : ∀ inBlock, (statements b inBlock).Grounds xs

variable {xs : List Lexeme}

theorem operators_succ_grounds {b : Nat} (h : RulesGround xs b) (level : Precedence) (left : Expr) :
    (operators (b + 1) level left).Grounds xs := by
  unfold operators
  refine grounds_look_bind fun s => ?_
  split
  · next hrank =>
    intro hs
    have hfirst := continuation_grounds h.expression b left hrank hs
    rw [bind_apply]
    cases hr : continuation (expression b) b left s with
    | ok wider t =>
      rw [hr] at hfirst
      exact h.operators level wider t hfirst
    | error e t =>
      rw [hr] at hfirst
      exact hfirst
    | starved => trivial
  · exact grounds_pure _ s

/-- A fault that ends a statement is noted. -/
theorem statements_succ_grounds {b : Nat} (h : RulesGround xs b) (inBlock : Bool) :
    (statements (b + 1) inBlock).Grounds xs := by
  intro s hs
  unfold statements
  split
  · exact hs
  split
  · exact h.statements inBlock s.step hs.step
  · have hfirst := statement_grounds h.expression h.block s hs
    cases hst : statement (expression b) (Grammar.block b) s with
    | ok first t =>
      rw [hst] at hfirst
      exact ((h.statements inBlock).bind fun others => grounds_pure _) t hfirst
    | error e t =>
      rw [hst] at hfirst
      exact h.statements inBlock _ (hfirst.2.recover hfirst.1 inBlock)
    | starved => trivial

theorem rules_ground (hxs : ∀ x ∈ xs, x.token.Spelled) (b : Nat) : RulesGround xs b := by
  induction b with
  | zero =>
    exact ⟨fun _ => grounds_starve, fun _ _ => grounds_starve, grounds_starve,
      fun _ => grounds_starve⟩
  | succ b ih =>
    refine ⟨fun level => ?_, operators_succ_grounds ih, ?_, statements_succ_grounds ih⟩
    · unfold expression
      refine grounds_skipBlankLines.bind fun _ => ?_
      exact (operand_grounds ih.expression ih.block hxs b).bind fun left => ih.operators level left
    · unfold block
      refine (grounds_expect _).bind fun opening => (ih.statements true).bind fun body => ?_
      exact (grounds_expect _).bind fun closing => grounds_pure _

end Grammar

/-! ## Whole texts -/

/-- Every fault of a text tells of a lexeme, and what it tells is so. -/
theorem parse_grounded (source : String) :
    ∀ e ∈ (parse source).errors, e.Grounded (tokenize source) := by
  obtain ⟨t, hread, herrors⟩ := Grammar.readStatements_parse source
  have hground : (Grammar.readStatements false (.ofLexemes (tokenize source))).Grounded
      (tokenize source) :=
    (Grammar.rules_ground (tokenize_spelled source) _).statements false _
      ⟨List.Subset.refl _, by simp [State.ofLexemes]⟩
  rw [hread] at hground
  rw [← herrors]
  exact hground.errors

/-- No fault of a text is about a float or about an operator that is missed. Its floats have a point and
    a digit at least and can be read, its integers are digits alone. Where a token binds more tightly
    than a level, so that the loop over operators goes on, it opens a call or an index, or it is an
    operator and is taken as one. Every fault about an integer is at one with an eight or a nine behind a
    leading zero or at one that is too large. -/
theorem parse_number_faults (source : String) :
    (∀ e ∈ (parse source).errors,
      (∀ text, e.fault ≠ .badFloat text) ∧ ∀ found, e.fault ≠ .unexpected .operator found) ∧
    (∀ x ∈ tokenize source, ∀ text, x.token = .float text →
      (∃ whole places, text.toList = whole ++ '.' :: places ∧ whole ++ places ≠ [] ∧
        ∀ c ∈ whole ++ places, c.isDigit = true) ∧ (Numeral.readFloat text).isSome) ∧
    (∀ x ∈ tokenize source, ∀ text, x.token = .int text →
      text.toList ≠ [] ∧ ∀ c ∈ text.toList, c.isDigit = true) ∧
    (∀ (expr : Grammar.ExprRule) (budget : Nat) (left : Expr) (level : Precedence) (s : State),
      level.rank < s.precedence.rank →
        (s.current.token = .leftParen ∧
          Grammar.continuation expr budget left s = Grammar.call expr budget left s) ∨
        (s.current.token = .leftBracket ∧
          Grammar.continuation expr budget left s = Grammar.index expr left s) ∨
        ∃ op, s.current.token.binaryOp? = some op ∧
          Grammar.continuation expr budget left s = Grammar.binary expr left s) ∧
    ∀ e ∈ (parse source).errors, ∀ text, e.fault = .badInteger text →
      ∃ x ∈ tokenize source, x.token = .int text ∧ e.span = x.span ∧
        Numeral.NoInteger text.toList := by
  refine ⟨fun e he => ?_, fun x hx text htext => ?_, fun x hx text htext => ?_,
    fun expr budget left _ _ hrank => Grammar.continuation_cases expr budget left hrank,
    fun e he text hfault => ?_⟩
  · obtain ⟨x, -, -, htells⟩ := parse_grounded source e he
    constructor
    · intro text hfault
      rw [hfault] at htells
      exact htells
    · intro found hfault
      rw [hfault] at htells
      exact htells
  · have hspelled := tokenize_spelled source x hx
    rw [htext] at hspelled
    obtain ⟨whole, places, hfloat⟩ := hspelled
    exact ⟨⟨whole, places, hfloat.eq, hfloat.ne_nil, hfloat.digits⟩,
      Numeral.readFloat_of_isFloat hfloat⟩
  · have hspelled := tokenize_spelled source x hx
    rw [htext] at hspelled
    exact ⟨hspelled.ne_nil, hspelled.digits⟩
  · obtain ⟨x, hx, hspan, htells⟩ := parse_grounded source e he
    rw [hfault] at htells
    obtain ⟨htoken, hnone⟩ := htells
    have hx : x ∈ tokenize source := hx.resolve_right (by simp [htoken])
    have hspelled := tokenize_spelled source x hx
    rw [htoken] at hspelled
    exact ⟨x, hx, htoken, hspan, (Numeral.readInteger_eq_none_iff hspelled).mp hnone⟩

/-- A point at either end is no fault. -/
example : (parse "018; 9223372036854775808; 9.; .5").errors.map SyntaxError.message =
    ["could not parse \"018\" as integer", "could not parse \"9223372036854775808\" as integer"] := by
  decide +kernel

end Scriptlet
