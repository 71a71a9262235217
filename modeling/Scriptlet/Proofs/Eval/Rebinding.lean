import Scriptlet.Proofs.Eval.Frames

/-!
# `Proofs.Eval.Rebinding` — reading and changing a name from one frame outwards

A name is read from the first frame that binds it, going outwards, and it is changed in that same frame.
So whoever reads the name past the same frames sees the change, and nobody else does. Several functions
may see one frame along different chains; which frame a name is found in depends on the names that the
frames bind, and a change leaves those as they are.

## Contents
- `Store.Nearest name i j`: going outwards from frame `i`, frame `j` is the first that binds the name.
- `Store.get?_eq_some_iff`, `Store.holder?_eq_some_iff`: reading and changing go to that frame.
- `Store.Changed`: two stores that differ in the value of one name in one frame; `Store.Rebound`: the
  frame is the nearest one, and who reads what afterwards.
- `Store.assign_nearest`: what changing a name does, and with it an assignment.
-/

namespace Scriptlet

/-! ## One frame -/

namespace Frame

theorem lookup_cons_eq (m : String) (w : Value) (bs : List (String × Value)) (n : String) :
    ((m, w) :: bs).lookup n = if n = m then some w else bs.lookup n := by
  by_cases hn : n = m
  · rw [if_pos hn, hn, List.lookup_cons_self]
  · have hne : (n == m) = false := beq_eq_false_iff_ne.mpr hn
    rw [if_neg hn, List.lookup_cons, hne]

/-- Binding a name gives it its value and leaves the other names theirs. -/
theorem lookup_setBinding (name : String) (v : Value) (bs : List (String × Value)) (n : String) :
    (setBinding name v bs).lookup n = if n = name then some v else bs.lookup n := by
  induction bs with
  | nil => exact lookup_cons_eq name v [] n
  | cons b bs ih =>
    obtain ⟨m, w⟩ := b
    unfold setBinding
    by_cases hm : m = name
    · rw [if_pos hm, lookup_cons_eq, lookup_cons_eq, hm]
      by_cases hn : n = name
      · rw [if_pos hn, if_pos hn]
      · rw [if_neg hn, if_neg hn, if_neg hn]
    · rw [if_neg hm, lookup_cons_eq, lookup_cons_eq, ih]
      by_cases hn : n = m
      · rw [if_pos hn, if_neg (hn ▸ hm), if_pos hn]
      · rw [if_neg hn, if_neg hn]

end Frame

namespace Store

/-! ## The nearest frame that binds a name -/

/-- Going outwards from frame `i`, frame `j` is the first that binds the name. -/
inductive Nearest (s : Store) (name : String) : Nat → Nat → Prop
  | here {i : Nat} (h : (s.getIn? name i).isSome) : Nearest s name i i
  | outwards {i k j : Nat} (h : s.getIn? name i = none) (ho : s.outer? i = some k)
      (hk : Nearest s name k j) : Nearest s name i j

section Nearest

variable {s : Store} {name : String} {i j : Nat}

theorem Nearest.bound (h : s.Nearest name i j) : (s.getIn? name j).isSome := by
  induction h with
  | here h => exact h
  | outwards _ _ _ ih => exact ih

theorem Nearest.split (hs : s.Sound) (h : s.Nearest name i j) :
    ∃ before after, s.chain i = before ++ j :: after ∧ ∀ k ∈ before, s.getIn? name k = none := by
  induction h with
  | @here i h => exact ⟨[], _, chain_eq hs i, by simp⟩
  | @outwards i k j h ho _ ih =>
    obtain ⟨before, after, hchain, hbefore⟩ := ih
    refine ⟨i :: before, after, ?_, List.forall_mem_cons.mpr ⟨h, hbefore⟩⟩
    rw [chain_eq hs, ho]
    exact congrArg (i :: ·) hchain

theorem nearest_of_split (hs : s.Sound) (hj : (s.getIn? name j).isSome) {before after : List Nat}
    (hchain : s.chain i = before ++ j :: after) (hbefore : ∀ k ∈ before, s.getIn? name k = none) :
    s.Nearest name i j := by
  -- the frames passed on the way are the steps outwards
  induction before generalizing i with
  | nil =>
    rw [chain_eq hs] at hchain
    obtain ⟨rfl, -⟩ := List.cons.inj hchain
    exact .here hj
  | cons k before ih =>
    obtain ⟨hk, hmore⟩ := List.forall_mem_cons.mp hbefore
    rw [chain_eq hs] at hchain
    obtain ⟨rfl, hrest⟩ := List.cons.inj hchain
    cases ho : s.outer? i with
    | none => simp [ho] at hrest
    | some m =>
      rw [ho] at hrest
      exact .outwards hk ho (ih hrest hmore)

/-- Changing a name goes to the nearest frame that binds it. -/
theorem holder?_eq_some_iff (hs : s.Sound) : s.holder? i name = some j ↔ s.Nearest name i j := by
  unfold holder?
  rw [List.find?_eq_some_iff_append]
  constructor
  · rintro ⟨hj, before, after, hchain, hbefore⟩
    exact nearest_of_split hs hj hchain fun k hk => by simpa using hbefore k hk
  · intro h
    obtain ⟨before, after, hchain, hbefore⟩ := h.split hs
    exact ⟨h.bound, before, after, hchain, fun k hk => by simp [hbefore k hk]⟩

/-- Reading a name goes to the nearest frame that binds it. -/
theorem get?_eq_some_iff (hs : s.Sound) {v : Value} :
    s.get? i name = some v ↔ ∃ j, s.Nearest name i j ∧ s.getIn? name j = some v := by
  unfold get?
  rw [List.findSome?_eq_some_iff]
  constructor
  · rintro ⟨before, j, after, hchain, hj, hbefore⟩
    exact ⟨j, nearest_of_split hs (by rw [hj]; rfl) hchain hbefore, hj⟩
  · rintro ⟨j, h, hj⟩
    obtain ⟨before, after, hchain, hbefore⟩ := h.split hs
    exact ⟨before, j, after, hchain, hj, hbefore⟩

/-- A name can be changed from the frames from which it can be read. -/
theorem isSome_assign? (hs : s.Sound) (i : Nat) (name : String) (v : Value) :
    (s.assign? i name v).isSome ↔ (s.get? i name).isSome := by
  unfold assign?
  rw [Option.isSome_map, Option.isSome_iff_exists, Option.isSome_iff_exists]
  constructor
  · rintro ⟨j, hj⟩
    have h := (holder?_eq_some_iff hs).mp hj
    obtain ⟨w, hw⟩ := Option.isSome_iff_exists.mp h.bound
    exact ⟨w, (get?_eq_some_iff hs).mpr ⟨j, h, hw⟩⟩
  · rintro ⟨w, hw⟩
    obtain ⟨j, h, -⟩ := (get?_eq_some_iff hs).mp hw
    exact ⟨j, (holder?_eq_some_iff hs).mpr h⟩

end Nearest

/-! ## Changing one value -/

/-- The stores differ in the value of one name in one frame alone, where it is bound in both. -/
structure Changed (s : Store) (j : Nat) (name : String) (v : Value) (t : Store) : Prop where
  bound : (s.getIn? name j).isSome
  value : t.getIn? name j = some v
  others_in : ∀ n, n ≠ name → t.getIn? n j = s.getIn? n j
  others : ∀ k, k ≠ j → t.frames[k]? = s.frames[k]?
  outer_eq : ∀ k, t.outer? k = s.outer? k
  names_eq : ∀ k, t.names? k = s.names? k
  size_eq : t.frames.size = s.frames.size
  fresh_eq : t.fresh = s.fresh
  output_eq : t.output = s.output

section Changed

variable {s t : Store} {name : String} {v : Value} {i j : Nat}

theorem changed_set (h : (s.getIn? name j).isSome) (v : Value) :
    s.Changed j name v (s.set j name v) := by
  obtain ⟨w, hw⟩ := Option.isSome_iff_exists.mp h
  obtain ⟨f, hf, -⟩ := Option.bind_eq_some_iff.mp hw
  have hread : ∀ n, (s.set j name v).getIn? n j = if n = name then some v else s.getIn? n j := by
    intro n
    unfold getIn?
    rw [frames_set, hf, Option.map_some, if_pos rfl]
    exact Frame.lookup_setBinding name v f.bindings n
  have hothers : ∀ k, k ≠ j → (s.set j name v).frames[k]? = s.frames[k]? := by
    intro k hk
    rw [frames_set]
    cases s.frames[k]? with
    | none => rfl
    | some g => exact congrArg some (if_neg (Ne.symm hk))
  refine { bound := h, value := ?_, others_in := fun n hn => ?_, others := hothers,
           outer_eq := outer?_set s j name v, names_eq := fun k => ?_,
           size_eq := size_set s j name v, fresh_eq := rfl, output_eq := rfl }
  · rw [hread, if_pos rfl]
  · rw [hread, if_neg hn]
  · have hkeeps := keeps_set_of_bound (v := v) h
    by_cases hk : k < s.frames.size
    · exact hkeeps.names_eq k hk (by simp)
    · have hnone : ∀ u : Store, u.frames.size = s.frames.size → u.names? k = none := by
        intro u hu
        unfold names?
        rw [Array.getElem?_eq_none (by omega), Option.map_none]
      rw [hnone s rfl, hnone _ (size_set s j name v)]

section Reading

variable (h : s.Changed j name v t)

include h

theorem Changed.getIn?_eq {n : String} {k : Nat} (hk : ¬ (n = name ∧ k = j)) :
    t.getIn? n k = s.getIn? n k := by
  by_cases hkj : k = j
  · subst hkj
    exact h.others_in n fun hn => hk ⟨hn, rfl⟩
  · unfold getIn?
    rw [h.others k hkj]

theorem Changed.getIn?_eq_none {n : String} {k : Nat} (hk : s.getIn? n k = none) :
    t.getIn? n k = none := by
  rw [h.getIn?_eq, hk]
  rintro ⟨rfl, rfl⟩
  simpa [hk] using h.bound

/-- A name is still read in the frame in which it was. -/
theorem Changed.get?_nearest (hs : s.Sound) {n : String} {k : Nat} (hi : s.Nearest n i k) :
    t.get? i n = t.getIn? n k := by
  have hbound : ∃ w, t.getIn? n k = some w := by
    by_cases hk : n = name ∧ k = j
    · obtain ⟨rfl, rfl⟩ := hk
      exact ⟨v, h.value⟩
    · rw [h.getIn?_eq hk]
      exact Option.isSome_iff_exists.mp hi.bound
  obtain ⟨w, hw⟩ := hbound
  obtain ⟨before, after, hchain, hbefore⟩ := hi.split hs
  unfold get?
  rw [hw, chain_congr h.outer_eq, List.findSome?_eq_some_iff]
  exact ⟨before, k, after, hchain, hw, fun m hm => h.getIn?_eq_none (hbefore m hm)⟩

/-- What is read is the new value if the changed frame is the nearest for the name, and else what was
    read before. -/
theorem Changed.get?_eq (hs : s.Sound) {n : String} (hi : ¬ (n = name ∧ s.Nearest name i j)) :
    t.get? i n = s.get? i n := by
  cases hread : s.get? i n with
  | some w =>
    obtain ⟨k, hk, hw⟩ := (get?_eq_some_iff hs).mp hread
    rw [h.get?_nearest hs hk, h.getIn?_eq, hw]
    rintro ⟨rfl, rfl⟩
    exact hi ⟨rfl, hk⟩
  | none =>
    unfold get? at hread ⊢
    rw [List.findSome?_eq_none_iff] at hread
    rw [chain_congr h.outer_eq, List.findSome?_eq_none_iff]
    exact fun k hk => h.getIn?_eq_none (hread k hk)

end Reading

end Changed

/-! ## Changing a name -/

/-- The name got the value in the frame in which it is read from frame `i`. It has the new value from
    every frame from which it is read there, and nothing else that is read has changed. -/
def Rebound (s : Store) (i : Nat) (name : String) (v : Value) (t : Store) : Prop :=
  ∃ j, s.Nearest name i j ∧ s.Changed j name v t ∧
    (∀ k, s.Nearest name k j → t.get? k name = some v) ∧
    ∀ k n, ¬ (n = name ∧ s.Nearest name k j) → t.get? k n = s.get? k n

section Rebound

variable {s t : Store} {i : Nat} {name : String} {v : Value}

theorem Rebound.get? (h : s.Rebound i name v t) : t.get? i name = some v := by
  obtain ⟨j, hj, -, hread, -⟩ := h
  exact hread i hj

theorem rebound_of_assign? (hs : s.Sound) (h : s.assign? i name v = some t) :
    s.Rebound i name v t := by
  obtain ⟨j, hj, rfl⟩ := Option.map_eq_some_iff.mp h
  have hnear := (holder?_eq_some_iff hs).mp hj
  have hset := changed_set hnear.bound v
  refine ⟨j, hnear, hset, fun k hk => ?_, fun k n hk => hset.get?_eq hs hk⟩
  rw [hset.get?_nearest hs hk, hset.value]

/-- An assignment is the change of a name in the store in which its right side ended. -/
theorem assignment_apply {budget : Nat} {value : Expr} {ident : Ident} {span : Span} {w : Value}
    (h : Eval.expression budget value i s = .done w t) :
    Eval.expression (budget + 1) (.binary (.ident ident) .assign value span) i s =
      match t.assign? i ident.name w with
      | some u => .done w u
      | none => .failed (.unbound ident.name) t := by
  have hrun : Eval.expression (budget + 1) (.binary (.ident ident) .assign value span) i s = _ :=
    Run.bind_done h
  rw [hrun]
  unfold assign?
  cases t.holder? i ident.name with
  | some j => rfl
  | none => rfl

end Rebound

/-- A name can be changed from exactly those frames from which it can be read. It is changed in the
    nearest frame that binds it, and neither another frame nor another name is concerned. An assignment
    whose right side has a value does the same, or fails and leaves the store in which the right side
    ended. -/
theorem assign_nearest {s : Store} (hs : s.Sound) (i : Nat) (name : String) (v : Value) :
    ((s.assign? i name v).isSome ↔ (s.get? i name).isSome) ∧
      (∀ t, s.assign? i name v = some t → s.Rebound i name v t ∧ t.get? i name = some v) ∧
      ∀ budget value at0 span w t, i < s.frames.size →
        Eval.expression budget value i s = .done w t →
        let assigned := Eval.expression (budget + 1)
          (.binary (.ident ⟨name, at0⟩) .assign value span) i s
        (∃ u, assigned = .done w u ∧ t.Rebound i name w u ∧ u.get? i name = some w) ∨
          (assigned = .failed (.unbound name) t ∧ t.get? i name = none) := by
  refine ⟨isSome_assign? hs i name v, fun t ht => ?_, ?_⟩
  · have hrebound := rebound_of_assign? hs ht
    exact ⟨hrebound, hrebound.get?⟩
  · intro budget value at0 span w t hi hrun assigned
    have hsafe := (Eval.rules_safe budget).parts.expression value hi s hs (Nat.le_refl _)
    rw [hrun] at hsafe
    obtain ⟨-, ht, -⟩ := hsafe
    have happly : assigned = _ := assignment_apply hrun
    cases hassign : t.assign? i name w with
    | some u =>
      rw [hassign] at happly
      have hrebound := rebound_of_assign? ht hassign
      exact Or.inl ⟨u, happly, hrebound, hrebound.get?⟩
    | none =>
      rw [hassign] at happly
      have hread := not_congr (isSome_assign? ht i name w)
      rw [hassign] at hread
      exact Or.inr ⟨happly, by simpa using hread⟩

/-- Inside `x = 1` lies a frame with `x = 2`, and in it one with `y = 3`. From there the inner `x` is
    changed, also by `x = y`. -/
theorem assign_nearest_shadowed :
    let s := (((((empty.openFrame none).2.set 0 "x" (.int 1)).openFrame (some 0)).2.set 1 "x"
      (.int 2)).openFrame (some 1)).2.set 2 "y" (.int 3)
    let at0 : Span := ⟨0, 1⟩
    let y : Expr := .ident ⟨"y", at0⟩
    s.Sound ∧ 2 < s.frames.size ∧
      (∃ t, s.assign? 2 "x" (.int 4) = some t ∧ s.Rebound 2 "x" (.int 4) t ∧
        t.get? 2 "x" = some (.int 4) ∧ t.get? 0 "x" = some (.int 1)) ∧
      Eval.expression 1 y 2 s = .done (.int 3) s ∧
      ∃ u, Eval.expression 2 (.binary (.ident ⟨"x", at0⟩) .assign y at0) 2 s = .done (.int 3) u ∧
        s.Rebound 2 "x" (.int 3) u ∧ u.get? 2 "x" = some (.int 3) := by
  intro s at0 y
  have hs : s.Sound := (Reachable.set (.openInside (.set (.openInside (.set (.openOutside .empty)
    (.int 1)) (by decide)) (.int 2)) (by decide)) (.int 3)).sound
  have hframe : 2 < s.frames.size := by decide
  have hy : Eval.expression 1 y 2 s = .done (.int 3) s := rfl
  obtain ⟨-, hchange, hassign⟩ := assign_nearest hs 2 "x" (.int 4)
  obtain ⟨hrebound, hget⟩ := hchange _ rfl
  refine ⟨hs, hframe, ⟨_, rfl, hrebound, hget, rfl⟩, hy, ?_⟩
  rcases hassign 1 y at0 at0 (.int 3) s hframe hy with h | ⟨-, hnone⟩
  · exact h
  · have hread : s.get? 2 "x" = some (.int 2) := rfl
    rw [hread] at hnone
    cases hnone

end Store

end Scriptlet
