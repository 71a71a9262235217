import Scriptlet.Proofs.Eval.Normal
import Scriptlet.Proofs.Grammar.Carried
import Scriptlet.Session

/-!
# `Proofs.Eval.Joined` — a session on two texts and on the one they make together

Statements are run one after another, and nothing is left of those before but the store. So a text
that ends by itself can be put in front of another one, with a semicolon on a line of its own between
them: the whole does what the two texts do in turn. Functions that were made on the way have other
places in the source, which shows nowhere.

## Contents
- `sequence_append`: statements in two parts.
- `Session.run_eq`: what a session answers to a text without faults.
- `Session.Answers`, `Session.AnswersBoth`, `Session.Finishes`: the answer to a text, and to two
  texts in turn; a text that ends by itself.
- `run_joined`: the two ways to run two texts.
-/

namespace Scriptlet

/-! ## Statements in two parts -/

namespace Eval

open Run

variable {stmt : Stmt → Run Value} {last last' : Value}

theorem sequence_blank {ss : List Stmt} (h : ∀ st ∈ ss, st.isBlank = true) :
    sequence stmt last ss = pure last := by
  induction ss with
  | nil => rfl
  | cons st ss ih =>
    rw [List.forall_mem_cons] at h
    rw [sequence, if_pos h.1, ih h.2]

/-- The value before statements that are not all blank lines does not matter. -/
theorem sequence_last {ss : List Stmt} (h : ∃ st ∈ ss, st.isBlank = false) :
    sequence stmt last ss = sequence stmt last' ss := by
  induction ss with
  | nil =>
    obtain ⟨st, hst, -⟩ := h
    cases hst
  | cons st ss ih =>
    rw [sequence, sequence]
    by_cases hblank : st.isBlank
    · rw [if_pos hblank, if_pos hblank]
      obtain ⟨st', hst', hfull⟩ := h
      rcases List.mem_cons.mp hst' with rfl | hst'
      · rw [hblank] at hfull
        cases hfull
      · exact ih ⟨st', hst', hfull⟩
    · rw [if_neg hblank, if_neg hblank]

/-- Statements in two parts, the first of which comes to its end. -/
theorem sequence_append {ss ts : List Stmt} {s t : Store} {v : Value}
    (h : sequence stmt last ss s = .done v t) :
    sequence stmt last (ss ++ ts) s = sequence stmt v ts t := by
  induction ss generalizing last s with
  | nil =>
    cases h
    rfl
  | cons st ss ih =>
    rw [List.cons_append, sequence]
    rw [sequence] at h
    by_cases hblank : st.isBlank
    · rw [if_pos hblank] at h ⊢
      exact ih h
    · rw [if_neg hblank] at h ⊢
      rw [bind_apply] at h ⊢
      cases hst : stmt st s with
      | done w u =>
        rw [hst] at h
        exact ih h
      | left w u | failed e u | starved =>
        rw [hst] at h
        cases h

/-- A program that goes on behind statements which come to their end. -/
theorem program_append {b frame : Nat} {ss blanks ts : List Stmt} {span : Span} {s t : Store}
    {v : Value} (hss : statements b ss frame s = .done v t)
    (hblanks : ∀ st ∈ blanks, st.isBlank = true) (hts : ∃ st ∈ ts, st.isBlank = false) :
    program b ⟨ss ++ blanks ++ ts, span⟩ frame s = program b ⟨ts, span⟩ frame t := by
  have hrest : statements b (ss ++ blanks ++ ts) frame s = statements b ts frame t := by
    unfold statements statementsWith at hss ⊢
    rw [List.append_assoc, sequence_append hss, sequence_append (v := v) (t := t),
      sequence_last hts]
    -- what the blank lines leave
    rw [sequence_blank hblanks]
    rfl
  unfold program call
  rw [hrest]

end Eval

/-! ## Sessions -/

/-- Whether the run has come to its end, without a failure and without being left. -/
def Outcome.isDone {α : Type} : Outcome α → Bool
  | .done .. => true
  | _ => false

theorem Outcome.eq_done {α : Type} {o : Outcome α} (h : o.isDone = true) :
    ∃ a s, o = .done a s := by
  cases o with
  | done a s => exact ⟨a, s, rfl⟩
  | left | failed | starved => cases h

/-- What a session answers to the end of a run, and the store it keeps. -/
def Outcome.reply? : Outcome Value → Option (Response × Store)
  | .done v s => some (⟨.value v.kind, v.text⟩, s)
  | .left v s => some (⟨.value (Value.returned v).kind, (Value.returned v).text⟩, s)
  | .failed e s => some (⟨.value (Value.error e.message).kind, (Value.error e.message).text⟩, s)
  | .starved => none

theorem Outcome.reply?_normal (o : Outcome Value) :
    (o.normal Value.normal).reply? = o.reply?.map fun r => (r.1, r.2.normal) := by
  cases o with
  | done v s =>
    show some (Response.mk (.value v.normal.kind) v.normal.text, s.normal) = _
    rw [v.kind_normal, v.text_normal]
    rfl
  | left v s =>
    have hkind := (Value.returned v).kind_normal
    have htext := (Value.returned v).text_normal
    show some (Response.mk (.value (Value.returned v).normal.kind) (Value.returned v).normal.text,
      s.normal) = _
    rw [hkind, htext]
    rfl
  | failed e s => rfl
  | starved => rfl

/-- The frame as it shows: its names with the kinds and the texts of their values. -/
def Frame.shown (f : Frame) : List (String × Kind × String) :=
  f.bindings.map fun b => (b.1, b.2.kind, b.2.text)

namespace Session

/-- What shows of the frame in which texts are run. -/
def shown? (s : Session) : Option (List (String × Kind × String)) :=
  s.store.frames[s.root]?.map Frame.shown

/-- The session answers a text if the budget is large enough, and is `t` after it. -/
def Answers (s : Session) (source : String) (r : Response) (t : Session) : Prop :=
  ∃ budget, s.run budget source = some (r, t)

/-- The session answers two texts in turn, the second one with `r`. -/
def AnswersBoth (s : Session) (a b : String) (r : Response) (u : Session) : Prop :=
  ∃ first t, s.Answers a first t ∧ t.Answers b r u

/-- The statements of a text come to their end, without a failure and without leaving early. -/
def Finishes (s : Session) (source : String) : Prop :=
  ∃ budget,
    (Eval.statements budget (parse source).program.statements s.root s.store).isDone = true

/-- The session with normal forms of all values. -/
def normal (s : Session) : Session := { s with store := s.store.normal }

variable {s t u : Session} {a b source : String}

theorem shown?_normal (s : Session) : s.normal.shown? = s.shown? := by
  have hframe : ∀ f : Frame, f.normal.shown = f.shown := by
    intro f
    unfold Frame.normal Frame.shown
    rw [List.map_map]
    refine List.map_congr_left fun binding _ => ?_
    show (binding.1, binding.2.normal.kind, binding.2.normal.text) = _
    rw [binding.2.kind_normal, binding.2.text_normal]
  show s.store.normal.frames[s.root]?.map Frame.shown = s.store.frames[s.root]?.map Frame.shown
  rw [Store.frames_normal, Option.map_map, funext hframe (f := Frame.shown ∘ Frame.normal)]

/-- A text without faults is answered with what the end of its program shows. -/
theorem run_eq (h : (parse source).errors = []) (budget : Nat) :
    s.run budget source =
      (Eval.program budget (parse source).program s.root s.store).reply?.map
        fun r => (r.1, { s with store := r.2 }) := by
  have hnone : (parse source).errors.isEmpty = true := by rw [h]; rfl
  unfold run
  dsimp only
  rw [if_pos hnone]
  unfold Run.settle
  cases Eval.program budget (parse source).program s.root s.store <;> rfl

/-- What a session answers it answers with all larger budgets. -/
theorem run_of_le {budget budget' : Nat} (hb : budget ≤ budget') {r : Response × Session}
    (h : s.run budget source = some r) : s.run budget' source = some r := by
  by_cases herrors : (parse source).errors = []
  · rw [run_eq herrors] at h ⊢
    rw [Eval.program_of_le hb, h]
    intro hstarved
    rw [hstarved] at h
    cases h
  · unfold run at h ⊢
    have hfaults : (parse source).errors.isEmpty = false := by simpa using herrors
    simp only [hfaults] at h ⊢
    exact h

/-- There is one answer to a text at most. -/
theorem Answers.unique {r r' : Response} (h : s.Answers source r t) (h' : s.Answers source r' u) :
    r = r' ∧ t = u := by
  obtain ⟨budget, h⟩ := h
  obtain ⟨budget', h'⟩ := h'
  have hmax := run_of_le (Nat.le_max_left budget budget') h
  rw [run_of_le (Nat.le_max_right budget budget') h'] at hmax
  cases hmax
  exact ⟨rfl, rfl⟩

/-- On a budget that lets the first text come to its end, the one text is answered as the second text
    is after the first one, and leaves the same but for places. -/
theorem run_joined_eq (ha : (parse a).errors = []) (hb : (parse b).errors = [])
    (hopen : endsInString a = false)
    (hsecond : ∃ st ∈ (parse b).program.statements, st.isBlank = false)
    {budget : Nat} {v : Value} {store : Store}
    (hfirst : Eval.statements budget (parse a).program.statements s.root s.store = .done v store) :
    (s.run budget (a ++ "\n;\n" ++ b)).map (fun r => (r.1, r.2.normal)) =
      (({ s with store := store } : Session).run budget b).map fun r => (r.1, r.2.normal) := by
  obtain ⟨hnone, blanks, hblanks, hsame⟩ := Grammar.parse_joined ha hb hopen
  have hprogram : (parse (a ++ "\n;\n" ++ b)).program.normal = Program.normal
      ⟨(parse a).program.statements ++ blanks ++ (parse b).program.statements,
        (parse b).program.span⟩ := by
    unfold Program.normal
    rw [Stmt.normalList_eq, Stmt.normalList_eq, hsame]
  have halike := Eval.program_alike hprogram budget s.root (s := s.store) rfl
  rw [Eval.program_append hfirst hblanks hsecond] at halike
  -- what is answered and kept goes by the normal form of the end
  have hview : ∀ o : Outcome Value,
      (o.reply?.map fun r => (r.1, ({ s with store := r.2 } : Session))).map
          (fun r => (r.1, r.2.normal)) =
        (o.normal Value.normal).reply?.map fun r => (r.1, ({ s with store := r.2 } : Session)) := by
    intro o
    rw [o.reply?_normal, Option.map_map, Option.map_map]
    rfl
  rw [run_eq hnone, run_eq hb, hview, halike]
  exact (hview _).symm

/-- A text that comes to its end is answered with its last value. -/
theorem run_of_done (ha : (parse a).errors = []) {budget : Nat} {v : Value} {store : Store}
    (hfirst : Eval.statements budget (parse a).program.statements s.root s.store = .done v store) :
    s.run budget a = some (⟨.value v.kind, v.text⟩, { s with store := store }) := by
  rw [run_eq ha]
  unfold Eval.program Run.call
  rw [hfirst]
  rfl

/-- Where the first text has no faults, does not end in an open string and comes to its end, and the
    second one has no faults and is not empty, the two texts in turn and the one text that they make
    with a semicolon between them both end or both do not. At the end the answer is the same, the
    same has been printed, and the frame of the session shows the same. -/
theorem run_joined (ha : (parse a).errors = []) (hb : (parse b).errors = [])
    (hopen : endsInString a = false) (hfirst : s.Finishes a)
    (hsecond : ∃ st ∈ (parse b).program.statements, st.isBlank = false) :
    ((∃ r u, s.AnswersBoth a b r u) ↔ ∃ r u, s.Answers (a ++ "\n;\n" ++ b) r u) ∧
      ∀ r u r' u', s.AnswersBoth a b r u → s.Answers (a ++ "\n;\n" ++ b) r' u' →
        r = r' ∧ u.store.output = u'.store.output ∧ u.shown? = u'.shown? := by
  obtain ⟨least, hfinishes⟩ := hfirst
  obtain ⟨v, store, hleast⟩ := Outcome.eq_done hfinishes
  have hdone : ∀ budget, least ≤ budget →
      Eval.statements budget (parse a).program.statements s.root s.store = .done v store := by
    intro budget hbudget
    rw [Eval.statements_of_le hbudget (by rw [hleast]; simp), hleast]
  have hview := fun budget hbudget => run_joined_eq ha hb hopen hsecond (hdone budget hbudget)
  -- the answer to the first text is the only one, so the second text is run in the store that it left
  have hboth : ∀ r u, s.AnswersBoth a b r u ↔ Answers { s with store := store } b r u := by
    intro r u
    constructor
    · rintro ⟨first, t, ht, hu⟩
      rwa [(ht.unique ⟨least, run_of_done ha hleast⟩).2] at hu
    · exact fun hu => ⟨_, _, ⟨least, run_of_done ha hleast⟩, hu⟩
  refine ⟨⟨?_, ?_⟩, ?_⟩
  · rintro ⟨r, u, hu⟩
    obtain ⟨budget, hrun⟩ := (hboth r u).mp hu
    have hwhole := hview (max least budget) (Nat.le_max_left _ _)
    rw [run_of_le (Nat.le_max_right _ _) hrun] at hwhole
    obtain ⟨⟨r', u'⟩, hrun', -⟩ := Option.map_eq_some_iff.mp hwhole
    exact ⟨r', u', _, hrun'⟩
  · rintro ⟨r', u', budget, hrun'⟩
    have hwhole := hview (max least budget) (Nat.le_max_left _ _)
    rw [run_of_le (Nat.le_max_right _ _) hrun'] at hwhole
    obtain ⟨⟨r, u⟩, hrun, -⟩ := Option.map_eq_some_iff.mp hwhole.symm
    exact ⟨r, u, (hboth r u).mpr ⟨_, hrun⟩⟩
  · intro r u r' u' hu hu'
    obtain ⟨budget, hrun⟩ := (hboth r u).mp hu
    obtain ⟨budget', hrun'⟩ := hu'
    have hwhole := hview (max least (max budget budget')) (Nat.le_max_left _ _)
    rw [run_of_le (by omega) hrun, run_of_le (by omega) hrun'] at hwhole
    obtain ⟨hr, hnormal⟩ := Prod.mk.inj (Option.some.inj hwhole)
    refine ⟨hr.symm, ?_, ?_⟩
    · exact (congrArg (fun w : Session => w.store.output) hnormal).symm
    · rw [← u.shown?_normal, ← u'.shown?_normal, show u'.normal = u.normal from hnormal]

/-- A function of the first text, which ends in a string and in blank lines, is called by the second
    one, which starts with blank lines. -/
theorem run_joined_counter :
    let s := start ⟨' ', 4⟩
    let a := "let n = 2\nlet f = fn(x) \x7b print(word); x * n \x7d\n\nlet word = \"n \\\" n\"\n\n"
    let b := "\n\nn = 5; f(n)\n"
    (parse a).errors = [] ∧ (parse b).errors = [] ∧ endsInString a = false ∧ s.Finishes a ∧
      (∃ st ∈ (parse b).program.statements, st.isBlank = false) ∧
      (∃ u, s.AnswersBoth a b ⟨.value .integer, "25"⟩ u) ∧
      ∃ u, s.Answers (a ++ "\n;\n" ++ b) ⟨.value .integer, "25"⟩ u := by
  intro s a b
  have ha : (parse a).errors = [] := by decide +kernel
  have hb : (parse b).errors = [] := by decide +kernel
  have hopen : endsInString a = false := by decide +kernel
  have hsecond : ∃ st ∈ (parse b).program.statements, st.isBlank = false := by decide +kernel
  have hfirst : s.Finishes a := ⟨9, by decide +kernel⟩
  have hboth : ∃ u, s.AnswersBoth a b ⟨.value .integer, "25"⟩ u := by
    have hrun : ((s.run 9 a).bind fun x => (x.2.run 9 b).map Prod.fst) =
        some ⟨.value .integer, "25"⟩ := by decide +kernel
    obtain ⟨⟨first, t⟩, ht, hb⟩ := Option.bind_eq_some_iff.mp hrun
    obtain ⟨⟨r, u⟩, hu, rfl⟩ := Option.map_eq_some_iff.mp hb
    exact ⟨u, first, t, ⟨9, ht⟩, ⟨9, hu⟩⟩
  obtain ⟨hends, hsame⟩ := run_joined ha hb hopen hfirst hsecond
  obtain ⟨u, hu⟩ := hboth
  obtain ⟨r', u', hu'⟩ := hends.mp ⟨_, u, hu⟩
  obtain ⟨rfl, -⟩ := hsame _ u r' u' hu hu'
  exact ⟨ha, hb, hopen, hfirst, hsecond, ⟨u, hu⟩, u', hu'⟩

end Session

end Scriptlet
