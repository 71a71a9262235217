import Scriptlet.Proofs.Eval.Frames
import Scriptlet.Proofs.Eval.Sequences
import Scriptlet.Proofs.Value.Listing

/-!
# `Proofs.Eval.Hashes` — what programs see of a hash

A hash is read in two ways. Its length, its keys, its values and its entries come from the pairs in
their order; indexing and asking for a key go through the index. Both show the same list of pairs, and
they go on doing so after whatever `set` and `delete` made of the hash.

Keys are the same where kind and content are the same, so the index never confuses two of them. An index
that keeps a digest in the place of a string does not either, as long as digests of two strings differ.

## Contents
- `Pairs.Kept`: the index is right and all keys are keys. The operations keep it so.
- `Shows`: the list of pairs that programs see of a hash, whichever way they look.
- `shows_of_kept`: a hash shows its entries if its pairs are kept.
- `Built`: the hashes that come from literals, `set` and `delete`. Their pairs are kept.
- `hash_operations`: what `set` and `delete` do to the list.
-/

namespace Scriptlet

/-! ## Pairs that are kept -/

namespace Pairs

/-- The index is right, and it covers all entries. -/
structure Kept (p : Pairs) : Prop where
  indexed : p.Indexed
  hashable : ∀ e ∈ p.entries, e.key.key?.isSome = true

theorem kept_empty : Pairs.empty.Kept := ⟨indexed_empty, by simp [Pairs.empty]⟩

variable {p : Pairs}

theorem Kept.insertAt (hp : p.Kept) {k : Key} {pair : Pair} (hpair : pair.hasKey k = true) :
    (p.insertAt k pair).Kept := by
  refine ⟨hp.indexed.insertAt hpair, fun e he => ?_⟩
  rw [hp.indexed.entries_insertAt] at he
  rcases Listing.mem_insert he with rfl | he
  · rw [Pair.hasKey_iff.mp hpair]
    rfl
  · exact hp.hashable e he

theorem Kept.insert? (hp : p.Kept) {more : Pairs} {key value : Value}
    (h : p.insert? key value = some more) : more.Kept := by
  obtain ⟨k, hk, rfl⟩ := Option.map_eq_some_iff.mp h
  exact hp.insertAt (Pair.hasKey_iff.mpr hk)

theorem Kept.removeAt (hp : p.Kept) (k : Key) : (p.removeAt k).2.Kept := by
  refine ⟨hp.indexed.removeAt k, fun e he => ?_⟩
  rw [(hp.indexed.removeAt_eq k).2] at he
  exact hp.hashable e (List.mem_filter.mp he).1

/-- A pair put under a new key and taken away again leaves no trace. -/
theorem Kept.entries_removeAt_insertAt (hp : p.Kept) {k : Key} {pair : Pair}
    (hpair : pair.hasKey k = true) (hnew : p.entries.any (Pair.hasKey k) = false) :
    ((p.insertAt k pair).removeAt k).2.entries = p.entries := by
  rw [((hp.indexed.insertAt hpair).removeAt_eq k).2, hp.indexed.entries_insertAt,
    Listing.insert_of_absent hnew, Listing.filter_append_self hpair hnew]

/-- No key stands twice: the index has one place for it. -/
theorem Kept.nodup_keys (hp : p.Kept) : p.keys.Nodup := by
  unfold Pairs.keys List.Nodup
  rw [List.pairwise_map, List.pairwise_iff_getElem]
  intro i j hi hj hij hkey
  obtain ⟨k, hk⟩ := Option.isSome_iff_exists.mp (hp.hashable _ (List.getElem_mem hi))
  have hplace := hp.indexed.place?_of_entry (List.getElem?_eq_getElem hi) (Pair.hasKey_iff.mpr hk)
  rw [hkey] at hk
  rw [hp.indexed.place?_of_entry (List.getElem?_eq_getElem hj) (Pair.hasKey_iff.mpr hk),
    Option.some.injEq] at hplace
  omega

end Pairs

/-! ## What is seen of a hash -/

namespace Eval

/-- The end of a run that makes an array of arrays. -/
def madeTable (s : Store) (rows : List (List Value)) : Outcome Value :=
  madeArray { s with fresh := s.fresh + rows.length } (Store.madeRows s.fresh rows)

theorem carryOut_table (s : Store) (rows : List (List Value)) :
    carryOut (.ok (.table rows)) s = madeTable s rows := by
  have hmake : s.make (.table rows) =
      Store.makeArray { s with fresh := s.fresh + rows.length } (Store.madeRows s.fresh rows) := by
    simp only [Store.make, Store.makeRows_eq]
  have hrun : carryOut (.ok (.table rows)) s =
      .done (s.make (.table rows)).1 (s.make (.table rows)).2 := rfl
  rw [hrun, hmake]
  rfl

/-- Whichever way a program looks at the hash, it sees this list of pairs, in which all keys differ. -/
structure Shows (h : Value) (l : List Pair) : Prop where
  hashable : ∀ e ∈ l, e.key.key?.isSome = true
  nodup : (l.map Pair.key).Nodup
  len : ∀ budget s,
    apply (budget + 1) (.builtin .len) [h] s = .done (.int (Int64.ofNat l.length)) s
  keys : ∀ budget s, apply (budget + 1) (.builtin .keys) [h] s = madeArray s (l.map Pair.key)
  values : ∀ budget s, apply (budget + 1) (.builtin .values) [h] s = madeArray s (l.map Pair.value)
  entries : ∀ budget s, apply (budget + 1) (.builtin .entries) [h] s =
    madeTable s (l.map fun e => [e.key, e.value])
  hasKey : ∀ k, k.key?.isSome = true → ∃ b, (b = true ↔ k ∈ l.map Pair.key) ∧
    ∀ budget s, apply (budget + 1) (.builtin .hasKey) [h, k] s = .done (.bool b) s
  present : ∀ (i : Nat) (e : Pair), l[i]? = some e → ∀ s, indexValue h e.key s = .done e.value s
  absent : ∀ k, k.key?.isSome = true → k ∉ l.map Pair.key → ∀ s, indexValue h k s = .done .null s

section Shows

variable {p : Pairs} {k : Value} {c : Key} (id : Nat)

/-- The value that a list of pairs has for a key, `null` where it has no pair of the key. -/
def valueIn (l : List Pair) (c : Key) : Value :=
  ((l.find? (Pair.hasKey c)).map Pair.value).getD .null

theorem indexValue_hash (hp : p.Kept) (hk : k.key? = some c) (s : Store) :
    indexValue (.hash id p) k s = .done (valueIn p.entries c) s := by
  have hfind : p.find? k = some (p.entries.find? (Pair.hasKey c)) := by
    unfold Pairs.find?
    rw [hk, Option.map_some, hp.indexed.findAt?_eq]
  simp only [indexValue, hfind]
  rfl

/-- Values that are no keys are refused by all hashes alike. -/
theorem indexValue_hash_of_none (hk : k.key? = none) :
    indexValue (.hash id p) k = Run.fail (.unhashable k.kind) := by
  have hfind : p.find? k = none := by
    unfold Pairs.find?
    rw [hk, Option.map_none]
  simp only [indexValue, hfind]

/-- Hashes that have the same pair for a key are alike for it. -/
theorem indexValue_congr {q : Pairs} (hp : p.Kept) (hq : q.Kept) (id' : Nat)
    (h : ∀ c, k.key? = some c →
      q.entries.find? (Pair.hasKey c) = p.entries.find? (Pair.hasKey c)) :
    indexValue (.hash id' q) k = indexValue (.hash id p) k := by
  cases hk : k.key? with
  | none => rw [indexValue_hash_of_none id' hk, indexValue_hash_of_none id hk]
  | some c =>
    funext s
    rw [indexValue_hash id' hq hk, indexValue_hash id hp hk]
    unfold valueIn
    rw [h c hk]

theorem keyOf_of_key? (b : Builtin) (hk : k.key? = some c) : keyOf b k = .ok c := by
  unfold keyOf
  rw [hk]

theorem apply_hasKey (hp : p.Kept) (hk : k.key? = some c) (budget : Nat) (s : Store) :
    apply (budget + 1) (.builtin .hasKey) [.hash id p, k] s =
      .done (.bool (p.entries.any (Pair.hasKey c))) s := by
  have hanswer : Builtin.hasKey.answer [.hash id p, k] =
      .ok (.value (.bool (p.place? c).isSome)) := by
    show (keyOf .hasKey k >>= fun c => yesNo (p.place? c).isSome) = _
    rw [keyOf_of_key? .hasKey hk]
    rfl
  rw [apply_builtin, hanswer, hp.indexed.isSome_place?]
  rfl

theorem shows_of_kept (hp : p.Kept) : Shows (.hash id p) p.entries where
  hashable := hp.hashable
  nodup := hp.nodup_keys
  len _ _ := rfl
  keys _ _ := rfl
  values _ _ := rfl
  entries _ s := carryOut_table s _
  hasKey k hk := by
    obtain ⟨c, hc⟩ := Option.isSome_iff_exists.mp hk
    exact ⟨_, Listing.any_hasKey_iff hc, apply_hasKey id hp hc⟩
  present i e he s := by
    obtain ⟨c, hc⟩ := Option.isSome_iff_exists.mp (hp.hashable e (List.mem_of_getElem? he))
    have hplace := hp.indexed.place?_of_entry he (Pair.hasKey_iff.mpr hc)
    rw [indexValue_hash id hp hc]
    unfold valueIn
    rw [(hp.indexed.onlyAt hplace).find? he]
    rfl
  absent k hk hne s := by
    obtain ⟨c, hc⟩ := Option.isSome_iff_exists.mp hk
    have hnone : p.entries.find? (Pair.hasKey c) = none := by
      rw [← Option.not_isSome_iff_eq_none, List.isSome_find?, Listing.any_hasKey_iff hc]
      exact hne
    rw [indexValue_hash id hp hc]
    unfold valueIn
    rw [hnone]
    rfl

end Shows

/-! ## Hashes that programs build -/

/-- A hash that comes from a literal, or from such a hash by `set` or `delete`. -/
inductive Built : Value → Prop
  | literal {budget frame : Nat} {es : List Entry} {span : Span} {s t : Store} {h : Value} :
    expression budget (.hash es span) frame s = .done h t → Built h
  | set {budget : Nat} {h k v h' : Value} {s t : Store} : Built h →
    apply budget (.builtin .set) [h, k, v] s = .done h' t → Built h'
  | delete {budget : Nat} {h k h' : Value} {s t : Store} : Built h →
    apply budget (.builtin .delete) [h, k] s = .done h' t → Built h'

/-- The entries of a literal are put one after another. -/
theorem kept_pairs {expr : Expr → Run Value} {p q : Pairs} {es : List Entry} {s t : Store}
    (hp : p.Kept) (h : pairs expr p es s = .done q t) : q.Kept := by
  induction es generalizing p s with
  | nil =>
    obtain ⟨rfl, -⟩ := Outcome.done.inj h
    exact hp
  | cons e es ih =>
    obtain ⟨k, v⟩ := e
    rw [pairs] at h
    obtain ⟨key, s₁, -, h⟩ := Run.bind_eq_done h
    obtain ⟨value, s₂, -, h⟩ := Run.bind_eq_done h
    cases hmore : p.insert? key value with
    | none =>
      rw [hmore] at h
      cases h
    | some more =>
      rw [hmore] at h
      exact ih (hp.insert? hmore) h

/-- The end of a run that makes a hash. -/
def madeHash (s : Store) (p : Pairs) : Outcome Value :=
  .done (.hash s.fresh p) { s with fresh := s.fresh + 1 }

section Keyed

variable {b : Builtin} {k : Value} {c : Key} {f : Key → Pairs} {s : Store}

/-- What is done by a key makes a hash. -/
theorem carryOut_keyed (f : Key → Pairs) (s : Store) (hk : k.key? = some c) :
    carryOut (keyOf b k >>= fun c => .ok (.hash (f c))) s = madeHash s (f c) := by
  rw [keyOf_of_key? b hk]
  rfl

/-- Where the value given as the key is none, no hash is made. -/
theorem keyed_of_carryOut {h : Value} {t : Store}
    (hrun : carryOut (keyOf b k >>= fun c => .ok (.hash (f c))) s = .done h t) :
    ∃ c, k.key? = some c ∧ h = .hash s.fresh (f c) := by
  cases hk : k.key? with
  | some c =>
    rw [carryOut_keyed f s hk] at hrun
    exact ⟨c, rfl, (Outcome.done.inj hrun).1.symm⟩
  | none =>
    have hkey : keyOf b k = wrongKind .second b .key k := by
      unfold keyOf
      rw [hk]
    rw [hkey] at hrun
    cases hrun

end Keyed

section Calls

variable (budget id : Nat) (p : Pairs) (k v : Value) (s : Store)

theorem apply_set :
    apply (budget + 1) (.builtin .set) [.hash id p, k, v] s =
      carryOut (keyOf .set k >>= fun c => .ok (.hash (p.insertAt c ⟨k, v⟩))) s := rfl

theorem apply_delete :
    apply (budget + 1) (.builtin .delete) [.hash id p, k] s =
      carryOut (keyOf .delete k >>= fun c => .ok (.hash (p.removeAt c).2)) s := rfl

end Calls

/-- Whatever a hash was built by, its pairs are kept. -/
theorem kept_of_built {h : Value} (hh : Built h) : ∃ id p, h = .hash id p ∧ p.Kept := by
  -- a run that gave a hash had budget left, and the value given as the key was one
  induction hh with
  | @literal budget frame es span s t h hrun =>
    cases budget with
    | zero => cases hrun
    | succ budget =>
      obtain ⟨p, s₁, hpairs, hmade⟩ := Run.bind_eq_done hrun
      exact ⟨_, p, (Outcome.done.inj hmade).1.symm, kept_pairs Pairs.kept_empty hpairs⟩
  | @set budget h k v h' s t _ hrun ih =>
    obtain ⟨id, p, rfl, hp⟩ := ih
    cases budget with
    | zero => cases hrun
    | succ budget =>
      rw [apply_set] at hrun
      obtain ⟨c, hc, rfl⟩ := keyed_of_carryOut hrun
      exact ⟨_, _, rfl, hp.insertAt (Pair.hasKey_iff.mpr hc)⟩
  | @delete budget h k h' s t _ hrun ih =>
    obtain ⟨id, p, rfl, hp⟩ := ih
    cases budget with
    | zero => cases hrun
    | succ budget =>
      rw [apply_delete] at hrun
      obtain ⟨c, -, rfl⟩ := keyed_of_carryOut hrun
      exact ⟨_, _, rfl, hp.removeAt c⟩

/-- However a hash was built, programs see a list of pairs, and `set` and `delete` change it at a key
    `k` alone: a key that is there keeps its place, a new one goes to the end, and what is deleted leaves
    the others in their order. What is put at the end and deleted again leaves no trace. An index by
    numbers would tell two keys apart, unless a digest fails to tell two strings apart. -/
theorem hash_operations {h k k' : Value} (hh : Built h) (hk : k.key?.isSome = true) (hne : k ≠ k')
    (v : Value) (budget : Nat) (s : Store) :
    let call (b : Builtin) (args : List Value) : Run Value := apply (budget + 1) (.builtin b) args
    ∃ l, Shows h l ∧
      (∃ h₁ t l₁, call .set [h, k, v] s = .done h₁ t ∧ Shows h₁ l₁ ∧
        (∀ u, indexValue h₁ k u = .done v u) ∧ indexValue h₁ k' = indexValue h k' ∧
        (k ∈ l.map Pair.key → l₁.map Pair.key = l.map Pair.key) ∧
        (k ∉ l.map Pair.key → l₁ = l ++ [⟨k, v⟩] ∧
          ∀ u, ∃ h₂ t₂, call .delete [h₁, k] u = .done h₂ t₂ ∧ Shows h₂ l)) ∧
      (∃ h₁ t, call .delete [h, k] s = .done h₁ t ∧
        Shows h₁ (l.filter fun e => e.key.key? ≠ k.key?) ∧
        (∀ u, indexValue h₁ k u = .done .null u) ∧
        (∀ u, call .hasKey [h₁, k] u = .done (.bool false) u) ∧
        indexValue h₁ k' = indexValue h k') ∧
      ∀ (digest : String → UInt64) (c c' : Key), k.key? = some c → k'.key? = some c' →
        c.code digest = c'.code digest →
          ∃ x y, k = .str x ∧ k' = .str y ∧ x ≠ y ∧ digest x = digest y := by
  intro call
  obtain ⟨id, p, rfl, hp⟩ := kept_of_built hh
  obtain ⟨c, hc⟩ := Option.isSome_iff_exists.mp hk
  have hpair : Pair.hasKey c ⟨k, v⟩ = true := Pair.hasKey_iff.mpr hc
  have hother : ∀ {c' : Key}, k'.key? = some c' → c' ≠ c := by
    rintro c' hc' rfl
    exact hne (Value.eq_of_key? hc hc')
  have hmem := Listing.any_hasKey_iff (l := p.entries) hc
  have hput : (p.insertAt c ⟨k, v⟩).Kept := hp.insertAt hpair
  have hputs := hp.indexed.entries_insertAt c ⟨k, v⟩
  have hgone : (p.removeAt c).2.Kept := hp.removeAt c
  have hleft := (hp.indexed.removeAt_eq c).2
  have hnone : (p.removeAt c).2.entries.any (Pair.hasKey c) = false := by
    rw [hleft]
    exact Listing.any_filter_self
  -- the list is that of the entries, before a call and after it
  refine ⟨p.entries, shows_of_kept id hp, ⟨_, _, (p.insertAt c ⟨k, v⟩).entries,
    carryOut_keyed _ s hc, shows_of_kept _ hput, ?get, ?frame, ?kept, ?appended⟩,
    ⟨_, _, carryOut_keyed _ s hc, ?rest, ?gone, ?lost, ?others⟩, ?codes⟩
  case get =>
    intro u
    rw [indexValue_hash _ hput hc]
    unfold valueIn
    rw [hputs, Listing.find?_insert_self hpair]
    rfl
  case frame =>
    refine indexValue_congr _ hp hput _ fun c' hc' => ?_
    rw [hputs, Listing.find?_insert_of_ne hpair (hother hc')]
  case kept =>
    intro hin
    rw [hputs, Listing.keys_insert_of_present hpair (hmem.mpr hin)]
  case appended =>
    intro hout
    have hnew : p.entries.any (Pair.hasKey c) = false := by
      rw [Bool.eq_false_iff, Ne, hmem]
      exact hout
    refine ⟨?_, fun u => ⟨_, _, carryOut_keyed _ u hc, ?_⟩⟩
    · rw [hputs, Listing.insert_of_absent hnew]
    · have hshows := shows_of_kept u.fresh (hput.removeAt c)
      rw [hp.entries_removeAt_insertAt hpair hnew] at hshows
      exact hshows
  case rest =>
    have hshows := shows_of_kept s.fresh hgone
    rw [hleft] at hshows
    rw [hc]
    simpa [Pair.hasKey] using hshows
  case gone =>
    refine (shows_of_kept _ hgone).absent k hk ?_
    rw [← Listing.any_hasKey_iff hc, hnone]
    exact Bool.false_ne_true
  case lost =>
    intro u
    rw [← hnone]
    exact apply_hasKey _ hgone hc budget u
  case others =>
    refine indexValue_congr _ hp hgone _ fun c' hc' => ?_
    rw [hleft, Listing.find?_filter_of_ne (hother hc')]
  case codes =>
    intro digest c₁ c' hc₁ hc' hcode
    rcases Key.eq_of_code hcode with rfl | ⟨x, y, rfl, rfl, hxy, hdigest⟩
    · exact absurd (Value.eq_of_key? hc₁ hc') hne
    · exact ⟨x, y, Value.eq_of_key? hc₁ rfl, Value.eq_of_key? hc' rfl, hxy, hdigest⟩

/-- In `{1: "a"}` the key `true` is new: its code differs from that of `1` in the kind alone. -/
theorem hash_operations_truth :
    let at0 : Span := ⟨0, 1⟩
    let literal : Expr := .hash [⟨.int 1 "1" at0, .str "a" at0⟩] at0
    let h : Value := .hash 0 ⟨[⟨.int 1, .str "a"⟩], [(.int 1, 0)]⟩
    let s : Store := { Store.empty with fresh := 1 }
    let call (b : Builtin) (args : List Value) : Run Value := apply 3 (.builtin b) args
    expression 2 literal 0 .empty = .done h s ∧ Built h ∧ (Value.bool true).key?.isSome = true ∧
    Value.bool true ≠ .int 1 ∧
    (∃ h₁ t, call .set [h, .bool true, .null] s = .done h₁ t ∧
      indexValue h₁ (.bool true) t = .done .null t ∧ indexValue h₁ (.int 1) t = .done (.str "a") t) ∧
    ∃ h₁ t, call .delete [h, .bool true] s = .done h₁ t ∧
      call .hasKey [h₁, .bool true] t = .done (.bool false) t ∧
      indexValue h₁ (.int 1) t = .done (.str "a") t := by
  intro at0 literal h s call
  have hliteral : expression 2 literal 0 .empty = .done h s := rfl
  have hbuilt : Built h := .literal hliteral
  have hne : Value.bool true ≠ .int 1 := nofun
  have hone : ∀ t, indexValue h (.int 1) t = .done (.str "a") t := fun t => rfl
  obtain ⟨l, -, ⟨h₁, t, l₁, hset, -, hget, hframe, -⟩, ⟨h₂, u, hdelete, -, -, hlost, hothers⟩, -⟩ :=
    hash_operations hbuilt rfl hne .null 2 s
  refine ⟨hliteral, hbuilt, rfl, hne, ⟨h₁, t, hset, hget t, ?_⟩, h₂, u, hdelete, hlost u, ?_⟩
  · rw [hframe, hone]
  · rw [hothers, hone]

end Eval

end Scriptlet
