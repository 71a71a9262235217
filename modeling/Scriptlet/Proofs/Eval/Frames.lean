import Scriptlet.Eval.Evaluator
import Scriptlet.Proofs.Eval.Within
import Scriptlet.Session

/-!
# `Proofs.Eval.Frames` — what a run does to the frames it finds

A run may open frames, bind names in those it opened, and change the values of names that are bound.
It never takes a frame away, never moves one, and binds a name in a frame that was there before only
where a `let` stands directly in that frame. A function that runs far from where it was made opens its
frame inside the one it closes over, so every frame lies inside an older one.

## Contents
- `Store.Sound`: every frame lies inside an older one, and no value names a frame that is not there.
- `Store.Keeps scope`: all frames stay, with their outer frames and, but for `scope`, their names.
- `Run.Safe`: from a sound store the run keeps frames and ends in a sound store. `Run.Safe.bind`
  composes it; there is one lemma for each rule of the evaluator.
- `Store.Reachable`: the stores that a host and programs can make, all of them sound.
- `Store.Reachable.frames_stay`: the frames after a run.
-/

namespace Scriptlet

/-! ## Stores -/

namespace Store

/-- The names bound in a frame, nothing where there is no such frame. -/
def names? (s : Store) (i : Nat) : Option (List String) := s.frames[i]?.map Frame.names

/-- Every frame lies inside an older one, and no value names a frame that is not there. -/
structure Sound (s : Store) : Prop where
  outer_lt : ∀ i j, s.outer? i = some j → j < i
  within : ∀ (i : Nat) (f : Frame), s.frames[i]? = some f →
    AllWithin s.frames.size (f.bindings.map Prod.snd)

/-- Every frame of `s` is one of `t`, inside the same frame and with the same names. The frame `scope`
    may have other names. -/
structure Keeps (scope : Option Nat) (s t : Store) : Prop where
  size_le : s.frames.size ≤ t.frames.size
  outer_eq : ∀ i < s.frames.size, t.outer? i = s.outer? i
  names_eq : ∀ i < s.frames.size, scope ≠ some i → t.names? i = s.names? i

section Keeps

variable {scope : Option Nat} {s t u : Store}

theorem Keeps.refl (s : Store) : s.Keeps scope s :=
  ⟨Nat.le_refl _, fun _ _ => rfl, fun _ _ _ => rfl⟩

theorem Keeps.trans (h : s.Keeps scope t) (h' : t.Keeps scope u) : s.Keeps scope u := by
  refine ⟨Nat.le_trans h.size_le h'.size_le, fun i hi => ?_, fun i hi hs => ?_⟩
  · rw [h'.outer_eq i (Nat.lt_of_lt_of_le hi h.size_le), h.outer_eq i hi]
  · rw [h'.names_eq i (Nat.lt_of_lt_of_le hi h.size_le) hs, h.names_eq i hi hs]

theorem Keeps.weaken (h : s.Keeps none t) : s.Keeps scope t :=
  ⟨h.size_le, h.outer_eq, fun i hi _ => h.names_eq i hi (by simp)⟩

/-- Names bound in a frame that was opened later are no concern of the frames before. -/
theorem Keeps.of_new {k : Nat} (h : s.Keeps (some k) t) (hk : s.frames.size ≤ k) :
    s.Keeps none t := by
  refine ⟨h.size_le, h.outer_eq, fun i hi _ => h.names_eq i hi ?_⟩
  intro hik
  rw [Option.some.injEq] at hik
  omega

theorem Keeps.of_frames_eq (h : t.frames = s.frames) : s.Keeps scope t := by
  refine ⟨Nat.le_of_eq (by rw [h]), fun i _ => ?_, fun i _ _ => ?_⟩
  · unfold outer?
    rw [h]
  · unfold names?
    rw [h]

theorem Sound.of_frames_eq (hs : s.Sound) (h : t.frames = s.frames) : t.Sound := by
  constructor
  · intro i j hij
    refine hs.outer_lt i j ?_
    unfold outer? at hij ⊢
    rw [← h]
    exact hij
  · intro i f hf
    rw [h] at hf ⊢
    exact hs.within i f hf

theorem sound_empty : Store.empty.Sound := by
  constructor
  · intro i j hij
    simp [outer?, Store.empty] at hij
  · intro i f hf
    simp [Store.empty] at hf

end Keeps

/-! ### Binding a name -/

/-- A name that is bound keeps its place; another one goes to the end. -/
theorem setBinding_names (name : String) (v : Value) (bs : List (String × Value)) :
    (Frame.setBinding name v bs).map Prod.fst =
      if name ∈ bs.map Prod.fst then bs.map Prod.fst else bs.map Prod.fst ++ [name] := by
  induction bs with
  | nil => rfl
  | cons b bs ih =>
    obtain ⟨n, w⟩ := b
    unfold Frame.setBinding
    by_cases hn : n = name
    · simp [hn]
    · rw [if_neg hn, List.map_cons, ih]
      by_cases hmem : name ∈ bs.map Prod.fst
      · simp [hmem]
      · have hcons : name ∉ ((n, w) :: bs).map Prod.fst := by
          intro h
          rcases List.mem_cons.mp h with h | h
          · exact hn h.symm
          · exact hmem h
        rw [if_neg hmem, if_neg hcons]
        rfl

theorem setBinding_within {n : Nat} {name : String} {v : Value} {bs : List (String × Value)}
    (hv : v.Within n) (hbs : AllWithin n (bs.map Prod.snd)) :
    AllWithin n ((Frame.setBinding name v bs).map Prod.snd) := by
  induction bs with
  | nil => exact allWithin_nil.cons hv
  | cons b bs ih =>
    obtain ⟨m, w⟩ := b
    have hw : w.Within n := hbs w List.mem_cons_self
    have hrest : AllWithin n (bs.map Prod.snd) := fun x hx => hbs x (List.mem_cons_of_mem w hx)
    unfold Frame.setBinding
    split
    · exact hrest.cons hv
    · exact (ih hrest).cons hw

theorem setBinding_every {P : Value → Prop} {name : String} {v : Value} {bs : List (String × Value)}
    (hv : v.Every P) (hbs : ∀ b ∈ bs, b.2.Every P) :
    ∀ b ∈ Frame.setBinding name v bs, b.2.Every P := by
  induction bs with
  | nil => exact List.forall_mem_cons.mpr ⟨hv, hbs⟩
  | cons b bs ih =>
    obtain ⟨hb, hrest⟩ := List.forall_mem_cons.mp hbs
    unfold Frame.setBinding
    split
    · exact List.forall_mem_cons.mpr ⟨hv, hrest⟩
    · exact List.forall_mem_cons.mpr ⟨hb, ih hrest⟩

section Set

variable {s : Store} {i : Nat} {name : String} {v : Value}

theorem frames_set (s : Store) (i : Nat) (name : String) (v : Value) (j : Nat) :
    (s.set i name v).frames[j]? =
      (s.frames[j]?).map fun f => if i = j then f.set name v else f := by
  show (s.frames.modify i fun f => f.set name v)[j]? = _
  rw [Array.getElem?_modify]
  split
  · rfl
  · simp

theorem size_set (s : Store) (i : Nat) (name : String) (v : Value) :
    (s.set i name v).frames.size = s.frames.size := Array.size_modify

theorem outer?_set (s : Store) (i : Nat) (name : String) (v : Value) (j : Nat) :
    (s.set i name v).outer? j = s.outer? j := by
  unfold outer?
  rw [frames_set]
  cases s.frames[j]? with
  | none => rfl
  | some f =>
    show (if i = j then f.set name v else f).outer = f.outer
    split
    · rfl
    · rfl

/-- The names of the frame in which a name is bound. -/
theorem names?_set_self (s : Store) (i : Nat) (name : String) (v : Value) :
    (s.set i name v).names? i = s.names? i ∨
      (s.set i name v).names? i = (s.names? i).map (· ++ [name]) := by
  unfold names?
  rw [frames_set]
  cases s.frames[i]? with
  | none => exact Or.inl rfl
  | some f =>
    have hnames : (f.set name v).names =
        if name ∈ f.names then f.names else f.names ++ [name] := setBinding_names name v f.bindings
    simp only [Option.map_some, if_pos, hnames]
    split
    · exact Or.inl rfl
    · exact Or.inr rfl

theorem keeps_set (s : Store) (i : Nat) (name : String) (v : Value) :
    s.Keeps (some i) (s.set i name v) := by
  refine ⟨Nat.le_of_eq (size_set s i name v).symm, fun j _ => outer?_set s i name v j, ?_⟩
  intro j _ hij
  have hne : i ≠ j := fun h => hij (congrArg some h)
  unfold names?
  rw [frames_set]
  cases s.frames[j]? with
  | none => rfl
  | some f => simp [hne]

/-- Where the name is bound already only its value changes. -/
theorem keeps_set_of_bound (h : (s.getIn? name i).isSome) : s.Keeps none (s.set i name v) := by
  have hset := keeps_set s i name v
  refine ⟨hset.size_le, hset.outer_eq, fun j hj _ => ?_⟩
  by_cases hij : i = j
  · subst hij
    unfold names?
    rw [frames_set]
    obtain ⟨w, hw⟩ := Option.isSome_iff_exists.mp h
    obtain ⟨f, hf, hget⟩ := Option.bind_eq_some_iff.mp hw
    rw [hf]
    have hmem : name ∈ f.bindings.map Prod.fst := by
      have hlook : f.bindings.lookup name = some w := hget
      obtain ⟨l₁, l₂, heq, -⟩ := List.lookup_eq_some_iff.mp hlook
      rw [heq]
      simp
    have hnames := setBinding_names name v f.bindings
    rw [if_pos hmem] at hnames
    simp only [Option.map_some, if_pos]
    exact congrArg some hnames
  · exact hset.names_eq j hj fun h => hij (Option.some.inj h)

theorem Sound.set (hs : s.Sound) (hv : v.Within s.frames.size) : (s.set i name v).Sound := by
  constructor
  · intro j k hjk
    rw [outer?_set] at hjk
    exact hs.outer_lt j k hjk
  · intro j f hf
    rw [frames_set] at hf
    obtain ⟨g, hg, rfl⟩ := Option.map_eq_some_iff.mp hf
    rw [size_set]
    split
    · exact setBinding_within hv (hs.within j g hg)
    · exact hs.within j g hg

end Set

/-! ### Opening a frame -/

section Open

variable {s : Store} {outer : Option Nat}

theorem frames_openFrame (s : Store) (outer : Option Nat) (i : Nat) :
    (s.openFrame outer).2.frames[i]? =
      if i = s.frames.size then some ⟨[], outer⟩ else s.frames[i]? := Array.getElem?_push

theorem size_openFrame (s : Store) (outer : Option Nat) :
    (s.openFrame outer).2.frames.size = s.frames.size + 1 := Array.size_push _

theorem keeps_openFrame (s : Store) (outer : Option Nat) {scope : Option Nat} :
    s.Keeps scope (s.openFrame outer).2 := by
  refine ⟨by rw [size_openFrame]; omega, fun i hi => ?_, fun i hi _ => ?_⟩
  · unfold outer?
    rw [frames_openFrame, if_neg (Nat.ne_of_lt hi)]
  · unfold names?
    rw [frames_openFrame, if_neg (Nat.ne_of_lt hi)]

theorem Sound.openFrame (hs : s.Sound) (ho : ∀ j, outer = some j → j < s.frames.size) :
    (s.openFrame outer).2.Sound := by
  constructor
  · intro i j hij
    unfold outer? at hij
    rw [frames_openFrame] at hij
    split at hij
    · next hi =>
      rw [hi]
      exact ho j hij
    · exact hs.outer_lt i j hij
  · intro i f hf
    rw [size_openFrame]
    rw [frames_openFrame] at hf
    split at hf
    · cases hf
      exact allWithin_nil
    · exact (hs.within i f hf).mono (Nat.le_succ _)

end Open

/-! ### Looking names up -/

section Lookup

variable {s : Store}

/-- More steps than a frame's number add nothing to its chain. -/
theorem chainFrom_eq (hs : s.Sound) {n m i : Nat} (hn : i < n) (hm : i < m) :
    s.chainFrom n i = s.chainFrom m i := by
  induction n generalizing m i with
  | zero => omega
  | succ n ih =>
    obtain ⟨m, rfl⟩ : ∃ k, m = k + 1 := ⟨m - 1, by omega⟩
    unfold chainFrom
    cases ho : s.outer? i with
    | none => rfl
    | some j =>
      have hj := hs.outer_lt i j ho
      exact congrArg (i :: ·) (ih (by omega) (by omega))

/-- A frame's chain is the frame and then the chain of the frame around it. -/
theorem chain_eq (hs : s.Sound) (i : Nat) :
    s.chain i = i :: match s.outer? i with
      | none => []
      | some j => s.chain j := by
  unfold chain
  conv => lhs; unfold chainFrom
  cases ho : s.outer? i with
  | none => rfl
  | some j =>
    have hj := hs.outer_lt i j ho
    exact congrArg (i :: ·) (chainFrom_eq hs hj (Nat.lt_succ_self j))

theorem get?_eq (hs : s.Sound) (i : Nat) (name : String) :
    s.get? i name = match s.getIn? name i with
      | some v => some v
      | none => (s.outer? i).bind fun j => s.get? j name := by
  unfold get?
  rw [chain_eq hs, List.findSome?_cons]
  cases s.getIn? name i with
  | some v => rfl
  | none => cases s.outer? i <;> rfl

theorem assign?_eq (hs : s.Sound) (i : Nat) (name : String) (v : Value) :
    s.assign? i name v = match s.getIn? name i with
      | some _ => some (s.set i name v)
      | none => (s.outer? i).bind fun j => s.assign? j name v := by
  unfold assign? holder?
  rw [chain_eq hs, List.find?_cons]
  cases s.getIn? name i with
  | some w => rfl
  | none => cases s.outer? i <;> rfl

theorem holder?_bound {i j : Nat} {name : String} (h : s.holder? i name = some j) :
    (s.getIn? name j).isSome := by
  have hfind := List.find?_some h
  exact hfind

theorem get?_within (hs : s.Sound) {i : Nat} {name : String} {v : Value}
    (h : s.get? i name = some v) : v.Within s.frames.size := by
  obtain ⟨j, -, hj⟩ := List.exists_of_findSome?_eq_some h
  obtain ⟨f, hf, hv⟩ := Option.bind_eq_some_iff.mp hj
  have hlook : f.bindings.lookup name = some v := hv
  obtain ⟨l₁, l₂, heq, -⟩ := List.lookup_eq_some_iff.mp hlook
  refine hs.within j f hf v ?_
  rw [heq]
  simp

end Lookup

/-! ### Everything that is bound -/

/-- Every value that is bound in some frame has the property, and so has everything inside it. -/
def Every (P : Value → Prop) (s : Store) : Prop :=
  ∀ (i : Nat) (f : Frame), s.frames[i]? = some f → ∀ b ∈ f.bindings, b.2.Every P

section Every

variable {P : Value → Prop} {s : Store} {v : Value}

theorem Every.get? (hs : s.Every P) {i : Nat} {name : String} (h : s.get? i name = some v) :
    v.Every P := by
  obtain ⟨j, -, hj⟩ := List.exists_of_findSome?_eq_some h
  obtain ⟨f, hf, hv⟩ := Option.bind_eq_some_iff.mp hj
  have hlook : f.bindings.lookup name = some v := hv
  obtain ⟨before, after, hsplit, -⟩ := List.lookup_eq_some_iff.mp hlook
  refine hs j f hf (name, v) ?_
  rw [hsplit]
  simp

theorem Every.set (hs : s.Every P) (i : Nat) (name : String) (hv : v.Every P) :
    (s.set i name v).Every P := by
  intro j f hf
  rw [frames_set] at hf
  obtain ⟨g, hg, rfl⟩ := Option.map_eq_some_iff.mp hf
  split
  · exact setBinding_every hv (hs j g hg)
  · exact hs j g hg

theorem Every.openFrame (hs : s.Every P) (outer : Option Nat) :
    (s.openFrame outer).2.Every P := by
  intro i f hf
  rw [frames_openFrame] at hf
  split at hf
  · cases hf
    intro b hb
    cases hb
  · exact hs i f hf

end Every

end Store

/-! ## Runs -/

/-- The run kept the frames of `s` and ended in a sound store; the value it is done with has the
    property, given the number of frames, and one that it leaves with names no other frame. -/
def Outcome.Safe {α : Type} (scope : Option Nat) (P : Nat → α → Prop) (s : Store) :
    Outcome α → Prop
  | .done a t => s.Keeps scope t ∧ t.Sound ∧ P t.frames.size a
  | .left v t => s.Keeps scope t ∧ t.Sound ∧ v.Within t.frames.size
  | .failed _ t => s.Keeps scope t ∧ t.Sound
  | .starved => True

/-- From every sound store with at least `n` frames the run is safe. -/
def Run.Safe {α : Type} (n : Nat) (scope : Option Nat) (P : Nat → α → Prop) (r : Run α) : Prop :=
  ∀ s : Store, s.Sound → n ≤ s.frames.size → (r s).Safe scope P s

namespace Outcome

variable {α : Type} {scope : Option Nat} {P : Nat → α → Prop} {s t : Store} {o : Outcome α}

theorem Safe.after (h : o.Safe scope P t) (hst : s.Keeps scope t) : o.Safe scope P s := by
  cases o with
  | done a u => exact ⟨hst.trans h.1, h.2⟩
  | left v u => exact ⟨hst.trans h.1, h.2⟩
  | failed e u => exact ⟨hst.trans h.1, h.2⟩
  | starved => trivial

theorem Safe.weaken (h : o.Safe none P s) : o.Safe scope P s := by
  cases o with
  | done a u => exact ⟨h.1.weaken, h.2⟩
  | left v u => exact ⟨h.1.weaken, h.2⟩
  | failed e u => exact ⟨h.1.weaken, h.2⟩
  | starved => trivial

/-- What was bound in a frame that is new is no concern of the frames before. -/
theorem Safe.of_new {k : Nat} (h : o.Safe (some k) P s) (hk : s.frames.size ≤ k) :
    o.Safe none P s := by
  cases o with
  | done a u => exact ⟨h.1.of_new hk, h.2⟩
  | left v u => exact ⟨h.1.of_new hk, h.2⟩
  | failed e u => exact ⟨h.1.of_new hk, h.2⟩
  | starved => trivial

end Outcome

namespace Run

variable {α β : Type} {n : Nat} {scope : Option Nat} {P : Nat → α → Prop} {Q : Nat → β → Prop}

/-- What comes second starts with no fewer frames than the first run left. -/
theorem Safe.bind {r : Run α} {f : α → Run β} (h : r.Safe n scope P)
    (hf : ∀ a m, n ≤ m → P m a → (f a).Safe m scope Q) : (r >>= f).Safe n scope Q := by
  intro s hs hn
  have hr := h s hs hn
  rw [bind_apply]
  cases hrs : r s with
  | done a t =>
    rw [hrs] at hr
    obtain ⟨hkeeps, hsound, ha⟩ := hr
    have hm := Nat.le_trans hn hkeeps.size_le
    exact (hf a _ hm ha t hsound (Nat.le_refl _)).after hkeeps
  | left v t => rw [hrs] at hr; exact hr
  | failed e t => rw [hrs] at hr; exact hr
  | starved => trivial

theorem Safe.weaken {r : Run α} (h : r.Safe n none P) : r.Safe n scope P :=
  fun s hs hn => (h s hs hn).weaken

theorem safe_pure {a : α} (ha : ∀ m, n ≤ m → P m a) : (pure a : Run α).Safe n scope P :=
  fun s hs hn => ⟨.refl s, hs, ha _ hn⟩

theorem safe_starve : (starve : Run α).Safe n scope P := fun _ _ _ => trivial

theorem safe_fail (e : RuntimeError) : (fail e : Run α).Safe n scope P :=
  fun s hs _ => ⟨.refl s, hs⟩

theorem safe_leave {v : Value} (hv : v.Within n) : (leave v : Run α).Safe n scope P :=
  fun s hs hn => ⟨.refl s, hs, hv.mono hn⟩

theorem safe_value {v : Value} (hv : v.Within n) :
    (pure v : Run Value).Safe n scope Value.Within :=
  safe_pure fun _ hm => hv.mono hm

theorem safe_ofExcept {r : Except RuntimeError α} (h : Eval.Gives (fun a => ∀ m, n ≤ m → P m a) r) :
    (ofExcept r).Safe n scope P := by
  cases r with
  | ok a => exact safe_pure (h a rfl)
  | error e => exact safe_fail e

/-- A value without functions in it, or a failure. -/
theorem safe_plain {r : Except RuntimeError Value} (h : Eval.Gives Eval.IsPlain r) :
    (ofExcept r).Safe n scope Value.Within :=
  safe_ofExcept fun v hv m _ => h v hv m

theorem safe_look {f : Store → α}
    (h : ∀ s : Store, s.Sound → n ≤ s.frames.size → P s.frames.size (f s)) :
    (look f).Safe n scope P :=
  fun s hs hn => ⟨.refl s, hs, h s hs hn⟩

/-- A change that leaves the frames as they are. -/
theorem safe_change {f : Store → α × Store} (hf : ∀ s, (f s).2.frames = s.frames)
    (h : ∀ s : Store, n ≤ s.frames.size → P s.frames.size (f s).1) : (change f).Safe n scope P := by
  intro s hs hn
  refine ⟨.of_frames_eq (hf s), hs.of_frames_eq (hf s), ?_⟩
  rw [hf s]
  exact h s hn

theorem Safe.call {r : Run Value} (h : r.Safe n scope Value.Within) :
    r.call.Safe n scope Value.Within := by
  intro s hs hn
  have hr := h s hs hn
  unfold Run.call
  cases hrs : r s with
  | done v t => rw [hrs] at hr; exact hr
  | left v t => rw [hrs] at hr; exact hr
  | failed e t => rw [hrs] at hr; exact hr
  | starved => trivial

end Run

namespace Store

/-! ### What builtin functions make -/

/-- The arrays made of rows, with the identities from `n` on. -/
def madeRows (n : Nat) (rows : List (List Value)) : List Value :=
  (rows.zipIdx n).map fun row => .array row.2 row.1

theorem makeRows_eq (s : Store) (rows : List (List Value)) :
    s.makeRows rows = (madeRows s.fresh rows, { s with fresh := s.fresh + rows.length }) := by
  induction rows generalizing s with
  | nil => rfl
  | cons row rows ih =>
    have hfresh : s.fresh + (row :: rows).length = s.fresh + 1 + rows.length := by
      rw [List.length_cons]
      omega
    rw [hfresh]
    simp only [makeRows, ih]
    rfl

theorem frames_makeRows (s : Store) (rows : List (List Value)) :
    (s.makeRows rows).2.frames = s.frames := by rw [makeRows_eq]

theorem makeRows_within {n : Nat} (s : Store) {rows : List (List Value)}
    (h : ∀ row ∈ rows, AllWithin n row) : AllWithin n (s.makeRows rows).1 := by
  induction rows generalizing s with
  | nil => exact allWithin_nil
  | cons row rows ih =>
    have hrow : (s.makeArray row).1.Within n := .array (h row List.mem_cons_self)
    exact (ih _ fun r hr => h r (List.mem_cons_of_mem row hr)).cons hrow

theorem frames_make (s : Store) (a : Eval.Answer) : (s.make a).2.frames = s.frames := by
  cases a with
  | table rows => exact frames_makeRows s rows
  | value | array | hash | line => rfl

theorem make_within {n : Nat} (s : Store) {a : Eval.Answer} (h : a.Within n) :
    (s.make a).1.Within n := by
  cases a with
  | value v => exact h
  | array vs => exact .array h
  | table rows => exact .array (makeRows_within s h)
  | hash ps => exact Pairs.Within.hash h
  | line text => exact .null

theorem makeRows_every {P : Value → Prop} (harray : ∀ id vs, P (.array id vs))
    {rows : List (List Value)} (h : ∀ row ∈ rows, AllEvery P row) (s : Store) :
    AllEvery P (s.makeRows rows).1 := by
  induction rows generalizing s with
  | nil => exact allEvery_nil
  | cons row rows ih =>
    obtain ⟨hrow, hrest⟩ := List.forall_mem_cons.mp h
    exact (ih hrest _).cons (Value.every_array (harray _ _) hrow)

/-- What is made of an answer has a property that the answer's parts have and that no array, no hash
    and not `null` lacks. -/
theorem make_every {P : Value → Prop} (hnull : P .null) (harray : ∀ id vs, P (.array id vs))
    (hhash : ∀ id ps, P (.hash id ps)) {a : Eval.Answer} (h : a.Every P) (s : Store) :
    (s.make a).1.Every P := by
  cases a with
  | value v => exact h
  | array vs => exact Value.every_array (harray _ _) h
  | table rows => exact Value.every_array (harray _ _) (makeRows_every harray h s)
  | hash ps => exact Pairs.Every.hash h (hhash _ _)
  | line text => exact Value.every_scalar rfl hnull

/-! ### Binding arguments -/

theorem keeps_setAll (s : Store) (i : Nat) (bs : List (String × Value)) :
    s.Keeps (some i) (s.setAll i bs) := by
  induction bs generalizing s with
  | nil => exact .refl s
  | cons b bs ih => exact (keeps_set s i b.1 b.2).trans (ih _)

theorem Sound.setAll {s : Store} (hs : s.Sound) (i : Nat) {bs : List (String × Value)}
    (h : ∀ b ∈ bs, b.2.Within s.frames.size) : (s.setAll i bs).Sound := by
  induction bs generalizing s with
  | nil => exact hs
  | cons b bs ih =>
    refine ih (hs.set (h b List.mem_cons_self)) fun c hc => ?_
    rw [size_set]
    exact h c (List.mem_cons_of_mem b hc)

end Store

/-! ## The evaluator -/

namespace Eval

open Run

section Lists

variable {n : Nat} {scope : Option Nat}

theorem elements_safe {expr : Expr → Run Value}
    (he : ∀ e m, n ≤ m → (expr e).Safe m scope Value.Within) (es : List Expr) :
    (elements expr es).Safe n scope AllWithin := by
  induction es generalizing n with
  | nil => exact safe_pure fun _ _ => allWithin_nil
  | cons e es ih =>
    refine (he e n (Nat.le_refl n)).bind fun v m hm hv => ?_
    refine (ih fun e k hk => he e k (Nat.le_trans hm hk)).bind fun vs k hk hvs => ?_
    exact safe_pure fun j hj => (hvs.mono hj).cons (hv.mono (Nat.le_trans hk hj))

theorem pairs_safe {expr : Expr → Run Value}
    (he : ∀ e m, n ≤ m → (expr e).Safe m scope Value.Within) {sofar : Pairs}
    (hs : sofar.Within n) (es : List Entry) : (pairs expr sofar es).Safe n scope Pairs.Within := by
  induction es generalizing n sofar with
  | nil => exact safe_pure fun _ hm => hs.mono hm
  | cons e es ih =>
    obtain ⟨ke, ve⟩ := e
    refine (he ke n (Nat.le_refl n)).bind fun key m hm hkey => ?_
    refine (he ve m hm).bind fun value k hk hvalue => ?_
    split
    · next more hmore =>
      have hsofar := hs.mono (Nat.le_trans hm hk)
      refine ih (fun e j hj => he e j (Nat.le_trans (Nat.le_trans hm hk) hj)) ?_
      exact Pairs.insert?_within hsofar (hkey.mono hk) hvalue hmore
    · exact safe_fail _

theorem sequence_safe {stmt : Stmt → Run Value}
    (hst : ∀ st m, n ≤ m → (stmt st).Safe m scope Value.Within) {last : Value}
    (hl : last.Within n) (ss : List Stmt) :
    (sequence stmt last ss).Safe n scope Value.Within := by
  induction ss generalizing n last with
  | nil => exact safe_value hl
  | cons st ss ih =>
    unfold sequence
    split
    · exact ih hst hl
    · refine (hst st n (Nat.le_refl n)).bind fun v m hm hv => ?_
      exact ih (fun st k hk => hst st k (Nat.le_trans hm hk)) hv

end Lists

/-- Expressions and blocks that are run in a frame that exists are safe for all frames. -/
structure PartsSafe (expr : ExprRun) (block : BlockRun) : Prop where
  expression : ∀ e {frame n : Nat}, frame < n → (expr e frame).Safe n none Value.Within
  block : ∀ body {frame n : Nat}, frame < n → (block body frame).Safe n none Value.Within

section Parts

variable {expr : ExprRun} {block : BlockRun} {n frame : Nat}

theorem elements_part_safe (h : PartsSafe expr block) (hf : frame < n) (es : List Expr) :
    (elements (expr · frame) es).Safe n none AllWithin :=
  elements_safe (fun e _ hm => h.expression e (Nat.lt_of_lt_of_le hf hm)) es

/-- Only a `let` binds a name in the frame of the statement. -/
theorem statementWith_safe (h : PartsSafe expr block) (hf : frame < n) (st : Stmt) :
    (statementWith expr block frame st).Safe n (some frame) Value.Within := by
  cases st with
  | bind name value span =>
    refine (h.expression value hf).weaken.bind fun v m hm hv => ?_
    -- the value is computed in the frame before its name is bound there
    intro s hs hms
    have hset : (s.set frame name.name v).Sound := hs.set (hv.mono hms)
    exact ⟨Store.keeps_set s frame name.name v, hset, .null⟩
  | ret value span =>
    refine (h.expression value hf).weaken.bind fun v m hm hv => ?_
    exact safe_leave hv
  | expr value => exact (h.expression value hf).weaken
  | block body => exact (h.block body hf).weaken
  | blank span => exact safe_value .null

theorem statementsWith_safe (h : PartsSafe expr block) (hf : frame < n) (ss : List Stmt) :
    (statementsWith expr block frame ss).Safe n (some frame) Value.Within :=
  sequence_safe (fun st _ hm => statementWith_safe h (Nat.lt_of_lt_of_le hf hm) st) .null ss

theorem nameValue_safe (name : String) {scope : Option Nat} :
    (nameValue frame name).Safe n scope Value.Within := by
  have hlook : (look fun s => s.get? frame name).Safe n scope
      fun m o => ∀ v, o = some v → v.Within m :=
    safe_look fun s hs _ v hv => Store.get?_within hs hv
  refine hlook.bind fun o m _ ho => ?_
  split
  · next v => exact safe_value (ho v rfl)
  · split
    · exact safe_value (.builtin _)
    · exact safe_fail _

/-- An assignment changes the value of a name that is bound. -/
theorem assignment_safe (h : PartsSafe expr block) (hf : frame < n) (target value : Expr) :
    (assignment expr frame target value).Safe n none Value.Within := by
  unfold assignment
  split
  · next name =>
    refine (h.expression value hf).bind fun v m hm hv => ?_
    intro s hs hms
    have hv := hv.mono hms
    dsimp only
    split
    · next j hj =>
      refine ⟨Store.keeps_set_of_bound (Store.holder?_bound hj), hs.set hv, ?_⟩
      rw [Store.size_set]
      exact hv
    · exact ⟨.refl s, hs⟩
  · exact safe_fail _

theorem operation_safe (h : PartsSafe expr block) (hf : frame < n) (left : Expr) (op : BinaryOp)
    (right : Expr) : (operation expr frame left op right).Safe n none Value.Within := by
  have hbool : ∀ {m : Nat} (t : Bool), (pure (.bool t) : Run Value).Safe m none Value.Within :=
    fun t => safe_value (.bool t)
  unfold operation
  split
  · exact assignment_safe h hf left right
  · refine (h.expression left hf).bind fun v m hm _ => ?_
    split
    · exact (h.expression right (Nat.lt_of_lt_of_le hf hm)).bind fun w k _ _ => hbool _
    · exact hbool _
  · refine (h.expression left hf).bind fun v m hm _ => ?_
    split
    · exact hbool _
    · exact (h.expression right (Nat.lt_of_lt_of_le hf hm)).bind fun w k _ _ => hbool _
  · refine (h.expression left hf).bind fun v m hm _ => ?_
    refine (h.expression right (Nat.lt_of_lt_of_le hf hm)).bind fun w k _ _ => ?_
    exact safe_plain (applyBinary_plain _ v w)

theorem indexValue_safe {target position : Value} (ht : target.Within n) {scope : Option Nat} :
    (indexValue target position).Safe n scope Value.Within := by
  unfold indexValue
  split
  · exact safe_value (ht.elements.getD fun v hv => element_mem hv)
  · split
    · next hfound => exact safe_value (Pairs.find?_within ht.pairs hfound)
    · exact safe_fail _
  · exact safe_fail _

/-- What is run in a frame that is opened for it concerns no frame before. -/
theorem opened_safe {r : Nat → Run Value} (hf : frame < n)
    (hr : ∀ scope m, n ≤ scope → scope < m → (r scope).Safe m (some scope) Value.Within) :
    (change (fun s => s.openFrame (some frame)) >>= r).Safe n none Value.Within := by
  intro s hs hn
  have hopen : (s.openFrame (some frame)).2.Sound :=
    hs.openFrame fun j hj => Option.some.inj hj ▸ Nat.lt_of_lt_of_le hf hn
  -- the number of the new frame is the number of frames there were
  have hnew : s.frames.size < (s.openFrame (some frame)).2.frames.size := by
    rw [Store.size_openFrame]
    exact Nat.lt_succ_self _
  have hrun := hr s.frames.size _ hn hnew _ hopen (Nat.le_refl _)
  exact (hrun.after (Store.keeps_openFrame s (some frame))).of_new (Nat.le_refl _)

theorem setAll_safe {scope : Nat} {bs : List (String × Value)} (hbs : ∀ b ∈ bs, b.2.Within n) :
    (change fun s => ((), s.setAll scope bs)).Safe n (some scope) fun _ _ => True :=
  fun s hs hn =>
    ⟨Store.keeps_setAll s scope bs, hs.setAll scope fun b hb => (hbs b hb).mono hn, trivial⟩

/-- Statements in a frame that is opened for them. -/
theorem scope_safe (h : PartsSafe expr block) (hf : frame < n) (ss : List Stmt) :
    (do
      let scope ← change fun s => s.openFrame (some frame)
      statementsWith expr block scope ss : Run Value).Safe n none Value.Within :=
  opened_safe hf fun _ _ _ hscope => statementsWith_safe h hscope ss

/-- A function's body is run in a frame that is opened for the arguments. -/
theorem body_safe (h : PartsSafe expr block) (hf : frame < n) {bs : List (String × Value)}
    (hbs : ∀ b ∈ bs, b.2.Within n) (ss : List Stmt) :
    (do
      let scope ← change fun s => s.openFrame (some frame)
      change fun s => ((), s.setAll scope bs)
      call (statementsWith expr block scope ss) : Run Value).Safe n none Value.Within := by
  refine opened_safe hf fun scope m hn hscope => ?_
  have hargs : ∀ b ∈ bs, b.2.Within m := fun b hb =>
    (hbs b hb).mono (Nat.le_trans hn (Nat.le_of_lt hscope))
  refine (setAll_safe hargs).bind fun _ k hk _ => ?_
  exact (statementsWith_safe h (Nat.lt_of_lt_of_le hscope hk) ss).call

end Parts

/-! ### The recursive rules -/

/-- With a budget of `b` every rule is safe. -/
structure RulesSafe (b : Nat) : Prop where
  parts : PartsSafe (expression b) (block b)
  apply : ∀ {f : Value} {args : List Value} {n : Nat}, f.Within n → AllWithin n args →
    (apply b f args).Safe n none Value.Within
  repeatWhile : ∀ (condition : Expr) (body : Block) {frame n : Nat}, frame < n →
    (repeatWhile b condition body frame).Safe n none Value.Within

variable {b n frame : Nat}

theorem expression_succ_safe (h : RulesSafe b) (e : Expr) (hf : frame < n) :
    (expression (b + 1) e frame).Safe n none Value.Within := by
  have he := fun e {m : Nat} (hm : n ≤ m) =>
    h.parts.expression e (Nat.lt_of_lt_of_le hf hm)
  have hb := fun body {m : Nat} (hm : n ≤ m) => h.parts.block body (Nat.lt_of_lt_of_le hf hm)
  unfold expression
  cases e with
  | ident name => exact nameValue_safe name.name
  | int value spelling span => exact safe_value (.int value)
  | float value spelling span => exact safe_value (.float value)
  | bool value span => exact safe_value (.bool value)
  | str value span => exact safe_value (.str value)
  | array es span =>
    refine (elements_part_safe h.parts hf es).bind fun vs m _ hvs => ?_
    exact safe_change (fun _ => rfl) fun s hs => .array (hvs.mono hs)
  | hash es span =>
    refine (pairs_safe (fun e _ hm => he e hm) Pairs.empty_within es).bind fun ps m _ hps => ?_
    exact safe_change (fun _ => rfl) fun s hs => (hps.mono hs).hash
  | unary op operand span =>
    refine (he operand (Nat.le_refl n)).bind fun v m _ _ => ?_
    exact safe_plain (applyUnary_plain op v)
  | binary left op right span => exact operation_safe h.parts hf left op right
  | cond condition consequence alternative span =>
    refine (he condition (Nat.le_refl n)).bind fun v m hm _ => ?_
    split
    · exact hb consequence hm
    · cases alternative with
      | some body => exact hb body hm
      | none => exact safe_value .null
  | loop condition body span => exact h.repeatWhile condition body hf
  | func parameters body span =>
    -- the function remembers the frame in which it is made, which exists
    intro s hs hn
    exact ⟨.of_frames_eq rfl, hs.of_frames_eq rfl, .func (Nat.lt_of_lt_of_le hf hn)⟩
  | call callee arguments span =>
    refine (he callee (Nat.le_refl n)).bind fun f m hm hfv => ?_
    refine (elements_part_safe h.parts (Nat.lt_of_lt_of_le hf hm) arguments).bind
      fun args k hk hargs => ?_
    exact h.apply (hfv.mono hk) hargs
  | index target position span =>
    refine (he target (Nat.le_refl n)).bind fun v m hm hv => ?_
    refine (he position hm).bind fun w k hk _ => ?_
    exact indexValue_safe (hv.mono hk)

theorem apply_succ_safe (h : RulesSafe b) {f : Value} {args : List Value} (hf : f.Within n)
    (hargs : AllWithin n args) : (apply (b + 1) f args).Safe n none Value.Within := by
  unfold apply
  split
  · next id parameters body frame =>
    split
    · -- the frame around the body is the one the function remembers, wherever it is called
      have hframe : frame < n := by
        cases hf with
        | func h => exact h
      refine body_safe h.parts hframe (fun p hp => ?_) body.statements
      exact hargs p.2 (List.of_mem_zip hp).2
    · exact safe_fail _
  · next builtin =>
    refine (safe_ofExcept (P := Answer.Within) fun a ha m hm => ?_).bind fun a m hm ha => ?_
    · exact builtin.answer_within (hargs.mono hm) a ha
    · refine safe_change (fun s => Store.frames_make s a) fun s hs => ?_
      exact (Store.make_within s ha).mono hs
  · exact safe_fail _

theorem repeatWhile_succ_safe (h : RulesSafe b) (condition : Expr) (body : Block)
    (hf : frame < n) : (repeatWhile (b + 1) condition body frame).Safe n none Value.Within := by
  unfold repeatWhile
  refine (h.parts.expression condition hf).bind fun v m hm _ => ?_
  have hf := Nat.lt_of_lt_of_le hf hm
  split
  · refine (h.parts.block body hf).bind fun _ k hk _ => ?_
    exact h.repeatWhile condition body (Nat.lt_of_lt_of_le hf hk)
  · exact safe_value .null

/-- Every rule is safe, whatever the budget. -/
theorem rules_safe (b : Nat) : RulesSafe b := by
  -- a function may call any other one, so all rules go down together with the budget
  induction b with
  | zero =>
    exact ⟨⟨fun _ _ _ _ => safe_starve, fun _ _ _ _ => safe_starve⟩, fun _ _ => safe_starve,
      fun _ _ _ _ _ => safe_starve⟩
  | succ b ih =>
    refine ⟨⟨fun e _ _ hf => expression_succ_safe ih e hf, fun body _ _ hf => ?_⟩,
      apply_succ_safe ih, fun condition body _ _ hf => repeatWhile_succ_safe ih condition body hf⟩
    unfold block
    exact scope_safe ih.parts hf body.statements

end Eval

/-! ## Reachable stores -/

/-- The store in which a run ended. -/
def Outcome.store? {α : Type} : Outcome α → Option Store
  | .done _ t | .left _ t | .failed _ t => some t
  | .starved => none

/-- The store after a safe run. -/
theorem Outcome.Safe.store {α : Type} {scope : Option Nat} {P : Nat → α → Prop} {s t : Store}
    {o : Outcome α} (h : o.Safe scope P s) (ht : o.store? = some t) :
    s.Keeps scope t ∧ t.Sound := by
  cases o with
  | done a u => cases ht; exact ⟨h.1, h.2.1⟩
  | left v u => cases ht; exact ⟨h.1, h.2.1⟩
  | failed e u => cases ht; exact h
  | starved => cases ht

namespace Store

/-- The stores that a host makes: it opens frames, binds and changes names, takes the output, and runs
    pieces of programs in frames that exist, which may end in any way. -/
inductive Reachable : Store → Prop
  | empty : Reachable .empty
  | openOutside {s : Store} (h : Reachable s) : Reachable (s.openFrame none).2
  | openInside {s : Store} {i : Nat} (h : Reachable s) (hi : i < s.frames.size) :
      Reachable (s.openFrame (some i)).2
  | set {s : Store} {i : Nat} {name : String} {v : Value} (h : Reachable s)
      (hv : v.Within s.frames.size) : Reachable (s.set i name v)
  | assign {s t : Store} {i : Nat} {name : String} {v : Value} (h : Reachable s)
      (hv : v.Within s.frames.size) (ht : s.assign? i name v = some t) : Reachable t
  | takeOutput {s : Store} (h : Reachable s) : Reachable s.takeOutput.2
  | expression {s t : Store} {budget frame : Nat} {e : Expr} (h : Reachable s)
      (hf : frame < s.frames.size) (ht : (Eval.expression budget e frame s).store? = some t) :
      Reachable t
  | statements {s t : Store} {budget frame : Nat} {ss : List Stmt} (h : Reachable s)
      (hf : frame < s.frames.size) (ht : (Eval.statements budget ss frame s).store? = some t) :
      Reachable t
  | apply {s t : Store} {budget : Nat} {f : Value} {args : List Value} (h : Reachable s)
      (hf : f.Within s.frames.size) (hargs : AllWithin s.frames.size args)
      (ht : (Eval.apply budget f args s).store? = some t) : Reachable t

theorem Reachable.sound {s : Store} (h : s.Reachable) : s.Sound := by
  induction h with
  | empty => exact sound_empty
  | openOutside _ ih => exact ih.openFrame (by simp)
  | openInside _ hi ih => exact ih.openFrame fun j hj => Option.some.inj hj ▸ hi
  | set _ hv ih => exact ih.set hv
  | assign _ hv ht ih =>
    obtain ⟨j, -, rfl⟩ := Option.map_eq_some_iff.mp ht
    exact ih.set hv
  | takeOutput _ ih => exact ih.of_frames_eq rfl
  | expression _ hf ht ih =>
    exact (((Eval.rules_safe _).parts.expression _ hf _ ih (Nat.le_refl _)).store ht).2
  | statements _ hf ht ih =>
    exact ((Eval.statementsWith_safe (Eval.rules_safe _).parts hf _ _ ih (Nat.le_refl _)).store ht).2
  | apply _ hf hargs ht ih =>
    exact (((Eval.rules_safe _).apply hf hargs _ ih (Nat.le_refl _)).store ht).2

end Store

/-- A session's store can be made by a host, and its frame exists. -/
def Session.Reachable (s : Session) : Prop := s.store.Reachable ∧ s.root < s.store.frames.size

theorem Session.start_reachable (indent : Indent) : (Session.start indent).Reachable :=
  ⟨.openOutside .empty, Nat.one_pos⟩

/-- So it stays, whatever text is run and however it ends. -/
theorem Session.run_reachable {s s' : Session} {budget : Nat} {source : String} {r : Response}
    (hs : s.Reachable) (h : s.run budget source = some (r, s')) : s'.Reachable := by
  obtain ⟨hstore, hroot⟩ := hs
  unfold Session.run at h
  dsimp only at h
  split at h
  · -- a run that ends settles in the store in which its statements ended
    have hend : ∀ t, (Eval.statements budget (parse source).program.statements s.root s.store).store?
        = some t → t.Reachable ∧ s.root < t.frames.size := by
      intro t ht
      have hsafe := Eval.statementsWith_safe (Eval.rules_safe budget).parts hroot
        (parse source).program.statements s.store hstore.sound (Nat.le_refl _)
      have hsize := (hsafe.store ht).1.size_le
      exact ⟨.statements hstore hroot ht, Nat.lt_of_lt_of_le hroot hsize⟩
    unfold Run.settle Eval.program Run.call at h
    cases hr : Eval.statements budget (parse source).program.statements s.root s.store with
    | done v t | left v t | failed e t =>
      rw [hr] at h hend
      cases h
      exact hend t rfl
    | starved =>
      rw [hr] at h
      cases h
  · cases h
    exact ⟨hstore, hroot⟩

/-- The name that a statement binds in the frame in which it stands. -/
def Stmt.bound? : Stmt → Option String
  | .bind name _ _ => some name.name
  | _ => none

/-- A statement binds at most the name of its `let`. -/
theorem Eval.statement_names {s t : Store} (hs : s.Sound) {frame : Nat}
    (hf : frame < s.frames.size) (budget : Nat) (st : Stmt)
    (ht : (Eval.statement budget st frame s).store? = some t) :
    t.names? frame = s.names? frame ∨
      ∃ name, st.bound? = some name ∧ t.names? frame = (s.names? frame).map (· ++ [name]) := by
  have hparts := (Eval.rules_safe budget).parts
  have hvalue := fun e => hparts.expression e hf s hs (Nat.le_refl _)
  cases st with
  | bind name value span =>
    have ht : ((do
        let v ← expression budget value frame
        Run.change fun s => (.null, s.set frame name.name v) : Run Value) s).store? = some t := ht
    rw [Run.bind_apply] at ht
    have hv := hvalue value
    cases hr : expression budget value frame s with
    | done v u =>
      rw [hr] at ht hv
      cases ht
      have hnames := hv.1.names_eq frame hf (by simp)
      rcases Store.names?_set_self u frame name.name v with h | h
      · exact Or.inl (h.trans hnames)
      · exact Or.inr ⟨name.name, rfl, by rw [h, hnames]⟩
    | left v u => rw [hr] at ht hv; cases ht; exact Or.inl (hv.1.names_eq frame hf (by simp))
    | failed e u => rw [hr] at ht hv; cases ht; exact Or.inl (hv.1.names_eq frame hf (by simp))
    | starved => rw [hr] at ht; cases ht
  | ret value span =>
    have hret := (hparts.expression value hf).bind (Q := Value.Within) fun v m _ hv =>
      Run.safe_leave hv
    exact Or.inl (((hret s hs (Nat.le_refl _)).store ht).1.names_eq frame hf (by simp))
  | expr value => exact Or.inl (((hvalue value).store ht).1.names_eq frame hf (by simp))
  | block body =>
    have hblock := hparts.block body hf s hs (Nat.le_refl _)
    exact Or.inl ((hblock.store ht).1.names_eq frame hf (by simp))
  | blank span => cases ht; exact Or.inl rfl

namespace Store

/-- In every reachable store frames lie inside older ones, so that looking a name up and changing it
    follow the frames outwards to an end. An expression keeps all frames and their names, however it
    ends; a statement may bind the name of its own `let` in its own frame, and nothing else. -/
theorem Reachable.frames_stay {s : Store} (hs : s.Reachable) {frame : Nat}
    (hframe : frame < s.frames.size) (budget : Nat) :
    (∀ e t, (Eval.expression budget e frame s).store? = some t → s.Keeps none t) ∧
      (∀ st t, (Eval.statement budget st frame s).store? = some t → s.Keeps (some frame) t ∧
        (t.names? frame = s.names? frame ∨
          ∃ name, st.bound? = some name ∧ t.names? frame = (s.names? frame).map (· ++ [name]))) ∧
      (∀ i j, s.outer? i = some j → j < i) ∧
      (∀ i name, s.get? i name = match s.getIn? name i with
        | some v => some v
        | none => (s.outer? i).bind fun j => s.get? j name) ∧
      ∀ i name v, s.assign? i name v = match s.getIn? name i with
        | some _ => some (s.set i name v)
        | none => (s.outer? i).bind fun j => s.assign? j name v := by
  have hsound := hs.sound
  have hparts := (Eval.rules_safe budget).parts
  refine ⟨fun e t ht => ?_, fun st t ht => ⟨?_, ?_⟩, hsound.outer_lt, get?_eq hsound,
    assign?_eq hsound⟩
  · exact ((hparts.expression e hframe s hsound (Nat.le_refl _)).store ht).1
  · exact ((Eval.statementWith_safe hparts hframe st s hsound (Nat.le_refl _)).store ht).1
  · exact Eval.statement_names hsound hframe budget st ht

/-- In `if (true) \x7b let y = x; x = 2 \x7d` the block's `y` is bound in a third frame only. -/
theorem frames_stay_of_block :
    let s := (((empty.openFrame none).2.set 0 "x" (.int 1)).openFrame (some 0)).2
    let x : Expr := .ident ⟨"x", ⟨0, 1⟩⟩
    let body : Block := ⟨[.bind ⟨"y", ⟨0, 1⟩⟩ x ⟨0, 1⟩,
      .expr (.binary x .assign (.int 2 "2" ⟨0, 1⟩) ⟨0, 1⟩)], ⟨0, 1⟩⟩
    let e : Expr := .cond (.bool true ⟨0, 1⟩) body none ⟨0, 1⟩
    s.Reachable ∧ 1 < s.frames.size ∧
      ∃ t, (Eval.expression 9 e 1 s).store? = some t ∧
        s.Keeps none t ∧ t.names? 2 = some ["y"] ∧ t.outer? 2 = some 1 := by
  intro s x body e
  have hs : s.Reachable := .openInside (.set (.openOutside .empty) (.int 1)) (by decide)
  have hframe : 1 < s.frames.size := by decide
  exact ⟨hs, hframe, _, rfl, (hs.frames_stay hframe 9).1 e _ rfl, rfl, rfl⟩

end Store

end Scriptlet
