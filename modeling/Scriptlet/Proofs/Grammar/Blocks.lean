import Scriptlet.Proofs.Grammar.Recovery

/-!
# `Proofs.Grammar.Blocks` — a block in two parts

Inside a block recovery stops at a brace that it has not seen open. Such a brace closes the block, or it
closes a brace that a broken statement had opened before the fault: then the block ends there, and what
is left of it stands behind it. So a block that is cut at a semicolon outside of all inner braces is
read part by part if its first part, standing alone, is read as a whole, and otherwise it ends where the
first part does.

## Contents
- `beforeBrace_simulation`: what stands after a block's last brace is not seen before it.
- `InnerReads`: what the statements of a block give and where they end. `InnerReads.shift`: the faults
  noted before do not matter. `innerReads_before`: neither does what stands behind the block.
- `BlockReads`: the same for the whole block. `blockReads_parts`: a block in two parts.
- `blockReads_brokenHash`: a block that ends too early.
-/

namespace Scriptlet

theorem Reply.Alike.of_ok {α : Type} {Q E : State → State → Prop} {a : α} {t : State} {x : Reply α}
    (h : Reply.Alike Q E (.ok a t) x) : ∃ t', x = .ok a t' ∧ Q t t' := by
  cases h with
  | ok ht => exact ⟨_, rfl, ht⟩

theorem Reply.Alike.of_ok_right {α : Type} {Q E : State → State → Prop} {a : α} {t' : State}
    {x : Reply α} (h : Reply.Alike Q E x (.ok a t')) : ∃ t, x = .ok a t ∧ Q t t' := by
  cases h with
  | ok ht => exact ⟨_, rfl, ht⟩

namespace Grammar

open Rule

/-! ## Up to the last brace of a block -/

/-- What stands after the last brace of a block is not seen before it. -/
theorem beforeBrace_simulation {closing : Lexeme} (hclosing : closing.token = .rightBrace)
    (zs zs' : List Lexeme) : Simulation (Before closing zs zs') fun _ _ => False where
  current h := h.current_eq
  weaken h := h.weaken
  step h _ hl hr := h.step (by rwa [hclosing]) hl hr
  opens h hl := h.opens (by simp [hclosing]) hl
  closes h hr := h.closes hr
  semicolon h hsem := h.semicolon hsem
  crosses h hsem := Or.inl (h.step (by simp [hsem, hclosing]) (by simp [hsem]) (by simp [hsem]))
  note e h := h.note e

/-- Where the statements of a block do not end with the text, they end at a brace. -/
theorem rightBrace_of_ends {t : Token} (h : endsStatements true t = true) (hne : t ≠ .eof) :
    t = .rightBrace := by
  cases t <;> simp_all [endsStatements]

/-! ## The statements of a block -/

/-- From `s` the statements of a block are `ss`. They end at a brace, the first one of the lexemes
    `rest`, and `errors` are noted on the way. -/
def InnerReads (s : State) (ss : List Stmt) (errors : List SyntaxError) (rest : List Lexeme) : Prop :=
  ∃ t, readStatements true s = .ok ss t ∧ t.rest = rest ∧ t.errors = s.errors ++ errors ∧
    t.current.token = .rightBrace

namespace InnerReads

variable {ws rest : List Lexeme} {stop stop' : Nat} {noted noted' errors : List SyntaxError}
  {ss : List Stmt}

/-- The same is read after other lexemes and other faults. -/
theorem shift (h : InnerReads ⟨ws, stop, noted⟩ ss errors rest) (hws : ws ≠ []) :
    InnerReads ⟨ws, stop', noted'⟩ ss errors rest := by
  obtain ⟨t, hread, hrest, herrors, hbrace⟩ := h
  -- both are compared with a state without faults
  have hbase (stop : Nat) (noted : List SyntaxError) :
      Shifted noted ⟨ws, stop, noted⟩ ⟨ws, stop', []⟩ :=
    ⟨rfl, fun hnil => absurd hnil hws, (List.append_nil noted).symm⟩
  have hkeeps (noted : List SyntaxError) :=
    (shifted_simulation noted).toSimulation.readStatements_keeps (d := 0)
  have hfrom := hkeeps noted _ _ (hbase stop noted)
  unfold Rule.AlikeAt at hfrom
  rw [hread] at hfrom
  obtain ⟨u, hu, hshift⟩ := hfrom.of_ok
  have hto := hkeeps noted' _ _ (hbase stop' noted')
  unfold Rule.AlikeAt at hto
  rw [hu] at hto
  obtain ⟨t', ht', hshift'⟩ := hto.of_ok_right
  have hnew : u.errors = errors := by
    have hsame := hshift.errors
    rw [herrors] at hsame
    exact (List.append_cancel_left hsame).symm
  refine ⟨t', ht', ?_, ?_, ?_⟩
  · rw [hshift'.rest, ← hshift.rest, hrest]
  · rw [hshift'.errors, hnew]
  · rw [hshift'.current, ← hshift.current, hbrace]

/-- Statements that were begun elsewhere. -/
theorem begins {s : State} {more : List Stmt} {newer : List SyntaxError}
    (h : Begins true s ss ⟨ws, stop, s.errors ++ errors⟩)
    (hmore : InnerReads ⟨ws, stop, s.errors ++ errors⟩ more newer rest) :
    InnerReads s (ss ++ more) (errors ++ newer) rest := by
  obtain ⟨t, hread, hrest, herrors, hbrace⟩ := hmore
  refine ⟨t, h more t hread, hrest, ?_, hbrace⟩
  rw [herrors]
  exact List.append_assoc _ _ _

end InnerReads

/-- Two blocks that differ behind a lexeme, both at a brace in front of it, end there. -/
theorem innerReads_of_before {mark : Lexeme} {zs zs' : List Lexeme} {s s' t t' : State}
    {ss : List Stmt} (hmark : mark.token ≠ .eof) (h : Before mark zs zs' 0 t t')
    (hends : endsStatements true t.current.token = true) (hs : s.errors = []) (hs' : s'.errors = [])
    (hb : Begins true s ss t) (hb' : Begins true s' ss t') :
    ∃ errors left, InnerReads s ss errors (left ++ mark :: zs) ∧
      InnerReads s' ss errors (left ++ mark :: zs') ∧
      (left ++ [mark]).head?.map Lexeme.token = some .rightBrace := by
  have hbrace := rightBrace_of_ends hends (h.current_ne_eof hmark)
  have hbrace' : t'.current.token = .rightBrace := by rw [← h.current_eq, hbrace]
  have hread := hb [] t (readStatements_end hends)
  have hread' := hb' [] t' (readStatements_end (by rw [hbrace']; rfl))
  rw [List.append_nil] at hread hread'
  obtain ⟨xs, d, stop, errors, -, -, -, rfl, rfl⟩ := h
  refine ⟨errors, xs, ⟨_, hread, rfl, ?_, hbrace⟩, ⟨_, hread', rfl, ?_, hbrace'⟩, ?_⟩
  · rw [hs, List.nil_append]
  · rw [hs', List.nil_append]
  · cases xs with
    | nil => exact congrArg some hbrace
    | cons x xs => exact congrArg some hbrace

/-- The statements of a block do not depend on what stands behind it. -/
theorem innerReads_before {ys : List Lexeme} {closing : Lexeme}
    (hclosing : closing.token = .rightBrace) (hys : BracesBalanced ys)
    (heof : ∀ y ∈ ys, y.token ≠ .eof) (zs zs' : List Lexeme) (stop : Nat) :
    ∃ ss errors left, InnerReads ⟨ys ++ closing :: zs, stop, []⟩ ss errors (left ++ closing :: zs) ∧
      InnerReads ⟨ys ++ closing :: zs', stop, []⟩ ss errors (left ++ closing :: zs') := by
  have hs : Before closing zs zs' 0 ⟨ys ++ closing :: zs, stop, []⟩
      ⟨ys ++ closing :: zs', stop, []⟩ :=
    ⟨ys, 0, stop, [], hys.closes, Nat.le_refl 0, heof, rfl, rfl⟩
  obtain ⟨ss, t, t', ht, hb, hb'⟩ :=
    (beforeBrace_simulation hclosing zs zs').statements_simulate
      (fun htop : true = false => nomatch htop) hs
  obtain ⟨hbefore, hends⟩ := ht.resolve_left id
  obtain ⟨errors, left, h, h', -⟩ :=
    innerReads_of_before (by simp [hclosing]) hbefore hends rfl rfl hb hb'
  exact ⟨ss, errors, left, h, h'⟩

/-! ## Whole blocks -/

/-- The block in front of `s` has the statements `ss`. It leaves the lexemes `rest`, and `errors` are
    noted on the way. -/
def BlockReads (s : State) (ss : List Stmt) (errors : List SyntaxError) (rest : List Lexeme) : Prop :=
  ∃ b t, readBlock s = .ok b t ∧ b.statements = ss ∧ t.rest = rest ∧ t.errors = s.errors ++ errors

/-- A block is read in one way. -/
theorem BlockReads.unique {s : State} {ss ss' : List Stmt} {errors errors' : List SyntaxError}
    {rest rest' : List Lexeme} (h : BlockReads s ss errors rest)
    (h' : BlockReads s ss' errors' rest') : ss = ss' ∧ errors = errors' ∧ rest = rest' := by
  obtain ⟨b, t, hread, rfl, rfl, herrors⟩ := h
  obtain ⟨b', t', hread', rfl, rfl, herrors'⟩ := h'
  rw [hread] at hread'
  cases hread'
  exact ⟨rfl, List.append_cancel_left (herrors.symm.trans herrors'), rfl⟩

/-- A block takes its opening brace, its statements and the brace at which they end. -/
theorem InnerReads.block {opening : Lexeme} {ws rest : List Lexeme} {stop : Nat}
    {noted errors : List SyntaxError} {ss : List Stmt} (hopening : opening.token = .leftBrace)
    (h : InnerReads ⟨ws, opening.stop, noted⟩ ss errors rest) :
    BlockReads ⟨opening :: ws, stop, noted⟩ ss errors rest.tail := by
  obtain ⟨t, hread, rfl, herrors, hbrace⟩ := h
  have hopen : expect .leftBrace ⟨opening :: ws, stop, noted⟩ =
      .ok opening.span ⟨ws, opening.stop, noted⟩ := by
    unfold expect State.currentIs
    rw [State.current_cons, hopening]
    rfl
  have hclose : expect .rightBrace t = .ok t.current.span t.step := by
    unfold expect State.currentIs
    rw [hbrace]
    rfl
  refine ⟨⟨ss, ⟨opening.start, t.current.stop⟩⟩, t.step, ?_, rfl, t.rest_step, ?_⟩
  · rw [readBlock_apply, bind_ok hopen, bind_ok hread, bind_ok hclose]
    rfl
  · rw [State.errors_step, herrors]

/-- A block whose first part ends in a semicolon outside of all inner braces, both parts however
    malformed, is read part by part if the block of the first part alone is read as a whole: the
    statements and faults are those of the blocks of the two parts, and the lexemes behind it are left.
    Otherwise it ends where the block of the first part ends, too early. It never fails. -/
theorem blockReads_parts {opening semi closing : Lexeme} {xs ys : List Lexeme}
    (hopening : opening.token = .leftBrace) (hsemi : semi.token = .semicolon)
    (hclosing : closing.token = .rightBrace) (hxs : BracesBalanced xs) (hys : BracesBalanced ys)
    (hxsEof : ∀ x ∈ xs, x.token ≠ .eof) (hysEof : ∀ y ∈ ys, y.token ≠ .eof) (zs : List Lexeme)
    (stop : Nat) (noted : List SyntaxError) :
    (∃ ss ss' errors errors' left,
      BlockReads (State.ofLexemes (opening :: (xs ++ [semi, closing]))) ss errors [] ∧
      BlockReads (State.ofLexemes (opening :: (ys ++ [closing]))) ss' errors' left ∧
      (left = [] ∨ ∃ front, left = front ++ [closing]) ∧
      BlockReads ⟨opening :: (xs ++ semi :: (ys ++ closing :: zs)), stop, noted⟩
        (ss ++ ss') (errors ++ errors') (left ++ zs)) ∨
    (∃ ss errors left,
      BlockReads (State.ofLexemes (opening :: (xs ++ [semi, closing]))) ss errors
        (left ++ [semi, closing]) ∧
      BlockReads ⟨opening :: (xs ++ semi :: (ys ++ closing :: zs)), stop, noted⟩
        ss errors (left ++ semi :: (ys ++ closing :: zs))) := by
  have hs : BeforeSemicolon semi (ys ++ closing :: zs) [closing] 0
      ⟨xs ++ semi :: (ys ++ closing :: zs), opening.stop, []⟩
      ⟨xs ++ [semi, closing], opening.stop, []⟩ :=
    ⟨xs, 0, opening.stop, [], hxs.closes, Nat.le_refl 0, hxsEof, rfl, rfl⟩
  obtain ⟨ss, t, t', ht, hb, hb'⟩ := (beforeSemicolon_simulation hsemi (ys ++ closing :: zs)
    [closing]).toSimulation.statements_simulate (fun htop : true = false => nomatch htop) hs
  rcases ht with ⟨errors, rfl, rfl⟩ | ⟨hbefore, hends⟩
  · -- both blocks have come past the semicolon; the shorter one ends there
    left
    obtain ⟨ss', errors', left, hlong, hshort⟩ :=
      innerReads_before hclosing hys hysEof zs [] opening.stop
    have hfirst : InnerReads ⟨[closing], semi.stop, [] ++ errors⟩ [] [] [closing] :=
      ⟨_, readStatements_end (by rw [State.current_cons, hclosing]; rfl), rfl,
        (List.append_nil _).symm, hclosing⟩
    have hwhole : InnerReads ⟨xs ++ semi :: (ys ++ closing :: zs), opening.stop, []⟩
        (ss ++ ss') (errors ++ errors') (left ++ closing :: zs) :=
      InnerReads.begins hb (hlong.shift (by simp))
    refine ⟨ss, ss', errors, errors', (left ++ [closing]).tail, ?_, hshort.block hopening, ?_, ?_⟩
    · have halone : BlockReads (State.ofLexemes (opening :: (xs ++ [semi, closing]))) (ss ++ [])
          (errors ++ []) [] := (InnerReads.begins hb' hfirst).block hopening
      rwa [List.append_nil, List.append_nil] at halone
    · cases left with
      | nil => exact Or.inl rfl
      | cons x front => exact Or.inr ⟨front, rfl⟩
    · have hblock : BlockReads ⟨opening :: (xs ++ semi :: (ys ++ closing :: zs)), stop, noted⟩
          (ss ++ ss') (errors ++ errors') (left ++ closing :: zs).tail :=
        (hwhole.shift (by simp)).block hopening
      cases left with
      | nil => exact hblock
      | cons x front => simpa using hblock
  · right
    obtain ⟨errors, left, hwhole, hshort, hhead⟩ :=
      innerReads_of_before (by simp [hsemi]) hbefore hends rfl rfl hb hb'
    cases left with
    | nil =>
      rw [List.nil_append, List.head?_cons, Option.map_some, hsemi] at hhead
      cases hhead
    | cons x left =>
      exact ⟨ss, errors, left, hshort.block hopening, (hwhole.shift (by simp)).block hopening⟩

/-- In `{ if a { let = 1 } ; y } z` the fault is one of the inner block, which recovers from it. -/
theorem blockReads_parts_innerBlock :
    let opening : Lexeme := ⟨0, .leftBrace, 1⟩
    let broken : List Lexeme := [⟨2, .kwIf, 4⟩, ⟨5, .ident "a", 6⟩, ⟨7, .leftBrace, 8⟩,
      ⟨9, .kwLet, 12⟩, ⟨13, .operator .assign, 14⟩, ⟨15, .int "1", 16⟩, ⟨17, .rightBrace, 18⟩]
    let semi : Lexeme := ⟨19, .semicolon, 20⟩
    let sound : List Lexeme := [⟨21, .ident "y", 22⟩]
    let closing : Lexeme := ⟨23, .rightBrace, 24⟩
    let behind : List Lexeme := [⟨25, .ident "z", 26⟩]
    BracesBalanced broken ∧ BracesBalanced sound ∧ (∀ x ∈ broken, x.token ≠ .eof) ∧
      (∀ y ∈ sound, y.token ≠ .eof) ∧
      ∃ ss ss' errors errors',
        BlockReads (State.ofLexemes (opening :: (broken ++ [semi, closing]))) ss errors [] ∧
        BlockReads (State.ofLexemes (opening :: (sound ++ [closing]))) ss' errors' [] ∧
        BlockReads (State.ofLexemes (opening :: (broken ++ semi :: (sound ++ closing :: behind))))
          (ss ++ ss') (errors ++ errors') behind ∧
        errors.length = 1 := by
  intro opening broken semi sound closing behind
  have hbroken : BracesBalanced broken := by decide
  have hsound : BracesBalanced sound := by decide
  have heof : ∀ x ∈ broken, x.token ≠ .eof := by decide
  have heof' : ∀ y ∈ sound, y.token ≠ .eof := by decide
  refine ⟨hbroken, hsound, heof, heof', ?_⟩
  -- standing alone, each part is read as a whole
  have hfirst : BlockReads (State.ofLexemes (opening :: (broken ++ [semi, closing]))) _ _ [] :=
    ⟨_, _, rfl, rfl, rfl, rfl⟩
  have hsecond : BlockReads (State.ofLexemes (opening :: (sound ++ [closing]))) _ _ [] :=
    ⟨_, _, rfl, rfl, rfl, rfl⟩
  have hparts := blockReads_parts (show opening.token = .leftBrace from rfl)
    (show semi.token = .semicolon from rfl) (show closing.token = .rightBrace from rfl)
    hbroken hsound heof heof' behind 0 []
  rcases hparts with ⟨ss, ss', errors, errors', left, h, h', -, hwhole⟩ | ⟨ss, errors, left, h, -⟩
  · obtain ⟨-, herrors, -⟩ := h.unique hfirst
    obtain ⟨-, -, rfl⟩ := h'.unique hsecond
    exact ⟨ss, ss', errors, errors', h, h', hwhole, by rw [herrors]; rfl⟩
  · obtain ⟨-, -, hnil⟩ := h.unique hfirst
    simp at hnil

/-- In `{ let x = { ) } ; y } z` the hash that is open at the fault is closed inside the block. Its brace
    ends the block, and `; y } z` is left behind it. -/
theorem blockReads_brokenHash :
    let opening : Lexeme := ⟨0, .leftBrace, 1⟩
    let broken : List Lexeme := [⟨2, .kwLet, 5⟩, ⟨6, .ident "x", 7⟩, ⟨8, .operator .assign, 9⟩,
      ⟨10, .leftBrace, 11⟩, ⟨12, .rightParen, 13⟩, ⟨14, .rightBrace, 15⟩]
    let semi : Lexeme := ⟨16, .semicolon, 17⟩
    let sound : List Lexeme := [⟨18, .ident "y", 19⟩]
    let closing : Lexeme := ⟨20, .rightBrace, 21⟩
    let behind : List Lexeme := [⟨22, .ident "z", 23⟩]
    BracesBalanced broken ∧ BracesBalanced sound ∧ (∀ x ∈ broken, x.token ≠ .eof) ∧
      (∀ y ∈ sound, y.token ≠ .eof) ∧
      BlockReads (State.ofLexemes (opening :: (broken ++ semi :: (sound ++ closing :: behind)))) []
        [⟨.noExpression .rightParen, ⟨12, 13⟩⟩] (semi :: (sound ++ closing :: behind)) ∧
      ¬ ∃ ss errors, BlockReads
        (State.ofLexemes (opening :: (broken ++ semi :: (sound ++ closing :: behind)))) ss errors
        behind := by
  intro opening broken semi sound closing behind
  have hreads : BlockReads
      (State.ofLexemes (opening :: (broken ++ semi :: (sound ++ closing :: behind)))) []
      [⟨.noExpression .rightParen, ⟨12, 13⟩⟩] (semi :: (sound ++ closing :: behind)) :=
    ⟨_, _, rfl, rfl, rfl, rfl⟩
  refine ⟨by decide, by decide, by decide, by decide, hreads, ?_⟩
  rintro ⟨ss, errors, h⟩
  obtain ⟨-, -, hrest⟩ := hreads.unique h
  exact absurd (congrArg List.length hrest) (by decide)

end Grammar

end Scriptlet
