import Scriptlet.Eval.Error
import Scriptlet.Value.Pairs

/-!
# `Proofs.Value.Listing` — the pairs of a hash are a list

The pairs of a hash are kept twice: as entries in the order of insertion, and as an index from keys to
places. Whoever calls the operations sees a list of pairs alone, in which no key stands twice and which
is searched from front to back. For this the index has to say of each entry where it stands and nothing
else, also after entries have moved up.

## Contents
- `OnlyAt`: a property holds at one place of a list and nowhere else.
- `Key.code`: what an index by numbers would tell keys apart by.
- `Pair.hasKey`, `Pairs.Call`, `Listing.call`: calls as they act on a list that has no index. What is
  found in the list after a call: `Listing.find?_insert_self`, `Listing.find?_insert_of_ne` and others.
- `Pairs.Indexed`: the index maps the key of each entry to its place, and nothing else.
- `Pairs.Indexed.call`: a call keeps the index right and does to the entries what it does to a list.
- `Pairs.results_listing`: so do any number of calls.
-/

namespace Scriptlet

/-! ## A single place -/

section OnlyAt

variable {α : Type} {p : α → Bool} {i : Nat} {x : α} {xs : List α}

/-- The property holds at place `i` of the list and at no other place. -/
def OnlyAt (p : α → Bool) (i : Nat) (xs : List α) : Prop :=
  ∀ j y, xs[j]? = some y → (p y = true ↔ j = i)

theorem OnlyAt.tail (h : OnlyAt p (i + 1) (x :: xs)) : OnlyAt p i xs := by
  intro j y hy
  have hj := h (j + 1) y hy
  rw [hj]
  omega

theorem OnlyAt.head (h : OnlyAt p (i + 1) (x :: xs)) : p x = false := by
  rw [Bool.eq_false_iff]
  intro hp
  have hzero := (h 0 x rfl).mp hp
  omega

/-- Behind a place that is the only one the property fails. -/
theorem OnlyAt.rest (h : OnlyAt p 0 (x :: xs)) : ∀ y ∈ xs, p y = false := by
  intro y hy
  obtain ⟨j, hj⟩ := List.mem_iff_getElem?.mp hy
  rw [Bool.eq_false_iff]
  intro hp
  have hzero := (h (j + 1) y hj).mp hp
  omega

theorem OnlyAt.find? (h : OnlyAt p i xs) (hx : xs[i]? = some x) : xs.find? p = some x := by
  induction xs generalizing i with
  | nil => simp at hx
  | cons y ys ih =>
    cases i with
    | zero =>
      have hy : p y = true := (h 0 y rfl).mpr rfl
      rw [List.find?_cons_of_pos hy]
      exact hx
    | succ i =>
      rw [List.find?_cons_of_neg (by simp [h.head])]
      exact ih h.tail hx

/-- To replace what has the property is to replace the element at the place. -/
theorem OnlyAt.map_eq_set (h : OnlyAt p i xs) (a : α) :
    (xs.map fun y => if p y then a else y) = xs.set i a := by
  apply List.ext_getElem?
  intro j
  rw [List.getElem?_map, List.getElem?_set]
  cases hj : xs[j]? with
  | none =>
    have hlen : xs.length ≤ j := List.getElem?_eq_none_iff.mp hj
    by_cases hij : i = j
    · rw [if_pos hij, if_neg (by omega)]
      rfl
    · rw [if_neg hij]
      rfl
  | some y =>
    obtain ⟨hlt, -⟩ := List.getElem?_eq_some_iff.mp hj
    by_cases hij : i = j
    · have hp : p y = true := (h j y hj).mpr hij.symm
      rw [if_pos hij, if_pos (by omega)]
      simp [hp]
    · have hp : ¬ p y = true := fun hp => hij ((h j y hj).mp hp).symm
      rw [if_neg hij]
      simp [hp]

/-- To leave out what has the property is to take the element at the place away. -/
theorem OnlyAt.filter_eq_eraseIdx (h : OnlyAt p i xs) :
    (xs.filter fun y => !p y) = xs.eraseIdx i := by
  induction xs generalizing i with
  | nil => rfl
  | cons y ys ih =>
    cases i with
    | zero =>
      have hy : p y = true := (h 0 y rfl).mpr rfl
      have hys : ∀ z ∈ ys, (!p z) = true := fun z hz => by simp [h.rest z hz]
      rw [List.filter_cons, if_neg (by simp [hy]), List.filter_eq_self.mpr hys]
      rfl
    | succ i =>
      rw [List.filter_cons, if_pos (by simp [h.head]), ih h.tail]
      rfl

end OnlyAt

/-! ## Calls -/

/-- The kind of a key and a number of 64 bits for its content; for a string that number is a digest. -/
def Key.code (digest : String → UInt64) : Key → Kind × UInt64
  | .int n => (.integer, n.toUInt64)
  | .bool b => (.boolean, if b then 1 else 0)
  | .str s => (.string, digest s)

/-- Keys differ in their codes, unless they are two strings with one digest. -/
theorem Key.eq_of_code {digest : String → UInt64} {k k' : Key}
    (h : k.code digest = k'.code digest) :
    k = k' ∨ ∃ s t, k = .str s ∧ k' = .str t ∧ s ≠ t ∧ digest s = digest t := by
  cases k with
  | int n =>
    cases k' with
    | int m =>
      have hbits : n.toUInt64 = m.toUInt64 := congrArg Prod.snd h
      have hn : n = m := by rw [← n.toInt64_toUInt64, hbits, m.toInt64_toUInt64]
      exact Or.inl (congrArg Key.int hn)
    | bool b => cases congrArg Prod.fst h
    | str t => cases congrArg Prod.fst h
  | bool b =>
    cases k' with
    | int m => cases congrArg Prod.fst h
    | bool c => cases b <;> cases c <;> first | exact Or.inl rfl | cases congrArg Prod.snd h
    | str t => cases congrArg Prod.fst h
  | str s =>
    cases k' with
    | int m => cases congrArg Prod.fst h
    | bool b => cases congrArg Prod.fst h
    | str t =>
      have hdigest : digest s = digest t := congrArg Prod.snd h
      by_cases hst : s = t
      · exact Or.inl (congrArg Key.str hst)
      · exact Or.inr ⟨s, t, rfl, rfl, hst, hdigest⟩

/-- A value that is a key is the only one with this key. -/
theorem Value.eq_of_key? {v w : Value} {k : Key} (hv : v.key? = some k) (hw : w.key? = some k) :
    v = w := by
  cases v <;> simp only [Value.key?, Option.some.injEq, reduceCtorEq] at hv <;> subst hv <;>
    cases w <;> simp only [Value.key?, Option.some.injEq, reduceCtorEq, Key.int.injEq,
      Key.bool.injEq, Key.str.injEq] at hw <;> rw [hw]

/-- Whether the pair is that of a key. -/
def Pair.hasKey (k : Key) (pair : Pair) : Bool := pair.key.key? = some k

namespace Pairs

/-- A call on the pairs of a hash. -/
inductive Call where
  | insert (key value : Value)
  | remove (key : Value)
  | get (key : Value)
  | contains (key : Value)
  | len
  | iter

/-- What a call gives. -/
inductive CallAnswer where
  | done
  /-- The pair that was found or taken away, if there was one. -/
  | pair (found : Option Pair)
  | truth (b : Bool)
  | count (n : Nat)
  | pairs (all : List Pair)

/-- What a call gives, or why it fails. -/
abbrev CallResult := Except RuntimeError CallAnswer

/-- The results of calls one after another, and what they leave. -/
def results {σ : Type} (call : σ → Call → CallResult × σ) (s : σ) : List Call → List CallResult × σ
  | [] => ([], s)
  | c :: cs =>
    let (r, s₁) := call s c
    let (rs, s₂) := results call s₁ cs
    (r :: rs, s₂)

/-- The result of an operation by a key. Where the value given as the key is none, the pairs stay as
    they are. -/
def orRefuse (p : Pairs) (key : Value) (o : Option (CallAnswer × Pairs)) : CallResult × Pairs :=
  match o with
  | some (answer, q) => (.ok answer, q)
  | none => (.error (.unhashable key.kind), p)

/-- A call on the pairs of a hash. -/
def call (p : Pairs) : Call → CallResult × Pairs
  | .insert key value => p.orRefuse key ((p.insert? key value).map fun q => (.done, q))
  | .remove key => p.orRefuse key ((p.remove? key).map fun (gone, q) => (.pair gone, q))
  | .get key => p.orRefuse key ((p.find? key).map fun found => (.pair found, p))
  | .contains key => p.orRefuse key ((p.contains? key).map fun b => (.truth b, p))
  | .len => (.ok (.count p.size), p)
  | .iter => (.ok (.pairs p.entries), p)

end Pairs

namespace Listing

open Pairs

/-- A list in which a key has a pair: in the place of the pair it had, else at the end. -/
def insert (l : List Pair) (k : Key) (pair : Pair) : List Pair :=
  if l.any (Pair.hasKey k) then l.map fun e => if e.hasKey k then pair else e else l ++ [pair]

/-- A call by a value that has to be a key. One that is none leaves the list as it is. -/
def keyed (l : List Pair) (key : Value) (f : Key → CallAnswer × List Pair) :
    CallResult × List Pair :=
  match key.key? with
  | some k => (.ok (f k).1, (f k).2)
  | none => (.error (.unhashable key.kind), l)

/-- A call on a list of pairs. -/
def call (l : List Pair) : Call → CallResult × List Pair
  | .insert key value => keyed l key fun k => (.done, insert l k ⟨key, value⟩)
  | .remove key => keyed l key fun k =>
    (.pair (l.find? (Pair.hasKey k)), l.filter fun e => !e.hasKey k)
  | .get key => keyed l key fun k => (.pair (l.find? (Pair.hasKey k)), l)
  | .contains key => keyed l key fun k => (.truth (l.any (Pair.hasKey k)), l)
  | .len => (.ok (.count l.length), l)
  | .iter => (.ok (.pairs l), l)

end Listing

/-! ## Lists after a call -/

theorem Pair.hasKey_iff {e : Pair} {k : Key} : e.hasKey k = true ↔ e.key.key? = some k := by
  simp [Pair.hasKey]

/-- The pairs of a key are those whose key is the value that is this key. -/
theorem Pair.hasKey_iff_eq {e : Pair} {v : Value} {k : Key} (hv : v.key? = some k) :
    e.hasKey k = true ↔ e.key = v := by
  rw [Pair.hasKey_iff]
  constructor
  · exact fun he => Value.eq_of_key? he hv
  · rintro rfl
    exact hv

/-- A pair has at most one key. -/
theorem Pair.hasKey_iff_of_hasKey {e : Pair} {k k' : Key} (he : e.hasKey k = true) :
    e.hasKey k' = true ↔ k' = k := by
  rw [Pair.hasKey_iff] at he ⊢
  rw [he, Option.some.injEq, eq_comm]

theorem Pair.hasKey_of_ne {e : Pair} {k k' : Key} (he : e.hasKey k = true) (hne : k' ≠ k) :
    e.hasKey k' = false := by
  rw [Bool.eq_false_iff, Ne, Pair.hasKey_iff_of_hasKey he]
  exact hne

theorem Pair.hasKey_congr {e e' : Pair} {k : Key} (he : e.hasKey k = true) (he' : e'.hasKey k = true)
    (k' : Key) : e.hasKey k' = e'.hasKey k' := by
  rw [Bool.eq_iff_iff, Pair.hasKey_iff_of_hasKey he, Pair.hasKey_iff_of_hasKey he']

namespace Listing

variable {l : List Pair} {k k' : Key} {pair : Pair}

theorem any_hasKey_iff {v : Value} (hv : v.key? = some k) :
    l.any (Pair.hasKey k) = true ↔ v ∈ l.map Pair.key := by
  rw [List.any_eq_true, List.mem_map]
  simp only [Pair.hasKey_iff_eq hv]

theorem mem_insert {e : Pair} (he : e ∈ insert l k pair) : e = pair ∨ e ∈ l := by
  unfold insert at he
  split at he
  · obtain ⟨e', he', rfl⟩ := List.mem_map.mp he
    split
    · exact Or.inl rfl
    · exact Or.inr he'
  · rcases List.mem_append.mp he with he | he
    · exact Or.inr he
    · exact Or.inl (List.mem_singleton.mp he)

theorem insert_of_absent (h : l.any (Pair.hasKey k) = false) : insert l k pair = l ++ [pair] := by
  unfold insert
  rw [if_neg (by simp [h])]

/-- A key that has a pair stands where it stood. -/
theorem keys_insert_of_present (hpair : pair.hasKey k = true) (h : l.any (Pair.hasKey k) = true) :
    (insert l k pair).map Pair.key = l.map Pair.key := by
  unfold insert
  rw [if_pos h, List.map_map]
  refine List.map_congr_left fun e _ => ?_
  rw [Function.comp_apply]
  split
  case isTrue he =>
    exact ((Pair.hasKey_iff_eq (Pair.hasKey_iff.mp hpair)).mp he).symm
  case isFalse => rfl

/-- Searching the list with the pair put in for a key is searching the list, up to the pair found. -/
theorem find?_replaced (hpair : pair.hasKey k = true) :
    (l.map fun e => if e.hasKey k then pair else e).find? (Pair.hasKey k') =
      (l.find? (Pair.hasKey k')).map fun e => if e.hasKey k then pair else e := by
  rw [List.find?_map]
  congr 2
  funext e
  rw [Function.comp_apply]
  split
  case isTrue he => exact Pair.hasKey_congr hpair he k'
  case isFalse => rfl

theorem find?_insert_self (hpair : pair.hasKey k = true) :
    (insert l k pair).find? (Pair.hasKey k) = some pair := by
  unfold insert
  split
  case isTrue h =>
    rw [find?_replaced hpair]
    cases hfound : l.find? (Pair.hasKey k) with
    | none =>
      rw [← List.isSome_find?, hfound] at h
      cases h
    | some e => rw [Option.map_some, if_pos (List.find?_some hfound)]
  case isFalse h =>
    have hnone : l.find? (Pair.hasKey k) = none := by
      rw [← Option.not_isSome_iff_eq_none, List.isSome_find?]
      exact h
    rw [List.find?_append, hnone, Option.none_or, List.find?_cons_of_pos hpair]

theorem find?_insert_of_ne (hpair : pair.hasKey k = true) (hne : k' ≠ k) :
    (insert l k pair).find? (Pair.hasKey k') = l.find? (Pair.hasKey k') := by
  unfold insert
  split
  · rw [find?_replaced hpair]
    cases hfound : l.find? (Pair.hasKey k') with
    | none => rfl
    | some e =>
      rw [Option.map_some, if_neg (by simp [Pair.hasKey_of_ne (List.find?_some hfound) hne.symm])]
  · rw [List.find?_append, List.find?_cons_of_neg (by simp [Pair.hasKey_of_ne hpair hne]),
      List.find?_nil, Option.or_none]

/-- Without the pairs of a key, none is found for it. -/
theorem any_filter_self : (l.filter fun e => !e.hasKey k).any (Pair.hasKey k) = false := by
  simp [List.any_eq_false]

theorem find?_filter_of_ne (hne : k' ≠ k) :
    (l.filter fun e => !e.hasKey k).find? (Pair.hasKey k') = l.find? (Pair.hasKey k') := by
  rw [List.find?_filter]
  congr 1
  funext e
  by_cases he : e.hasKey k' = true
  · simp [he, Pair.hasKey_of_ne he hne.symm]
  · simp [he]

/-- A pair that was put at the end and is taken away again. -/
theorem filter_append_self (hpair : pair.hasKey k = true) (h : l.any (Pair.hasKey k) = false) :
    (l ++ [pair]).filter (fun e => !e.hasKey k) = l := by
  have hl : l.filter (fun e => !e.hasKey k) = l := by
    rw [List.filter_eq_self]
    intro e he
    simpa using List.any_eq_false.mp h e he
  rw [List.filter_append, hl, List.filter_cons_of_neg (by simp [hpair]), List.filter_nil,
    List.append_nil]

end Listing

/-! ## The index -/

namespace Pairs

/-- The index maps the key of each entry to the place of the entry, and it maps nothing else. -/
structure Indexed (p : Pairs) : Prop where
  nodup : (p.index.map Prod.fst).Nodup
  mem_iff : ∀ k i, (k, i) ∈ p.index ↔ ∃ e, p.entries[i]? = some e ∧ e.hasKey k = true

theorem indexed_empty : Pairs.empty.Indexed := by
  constructor
  · exact List.nodup_nil
  · intro k i
    simp [Pairs.empty]

section Indexed

variable {p : Pairs} {k : Key} {i : Nat}

/-- In a list of pairs whose first parts differ, a pair is found by its first part. -/
theorem lookup_eq_some_iff {β : Type} {xs : List (Key × β)} (h : (xs.map Prod.fst).Nodup) {b : β} :
    xs.lookup k = some b ↔ (k, b) ∈ xs := by
  constructor
  · intro hlook
    obtain ⟨before, after, rfl, -⟩ := List.lookup_eq_some_iff.mp hlook
    simp
  · intro hmem
    obtain ⟨before, after, rfl⟩ := List.append_of_mem hmem
    refine List.lookup_eq_some_iff.mpr ⟨before, after, rfl, fun q hq => ?_⟩
    rw [List.map_append, List.nodup_append] at h
    have hne := h.2.2 q.1 (List.mem_map_of_mem hq) k (by simp)
    simpa using hne.symm

theorem Indexed.place?_eq_some_iff (h : p.Indexed) : p.place? k = some i ↔ (k, i) ∈ p.index :=
  lookup_eq_some_iff h.nodup

/-- The index has the place of every entry. -/
theorem Indexed.place?_of_entry (h : p.Indexed) {e : Pair} (he : p.entries[i]? = some e)
    (hk : e.hasKey k = true) : p.place? k = some i :=
  h.place?_eq_some_iff.mpr ((h.mem_iff k i).mpr ⟨e, he, hk⟩)

/-- The place that the index gives for a key is the only one with a pair of this key. -/
theorem Indexed.onlyAt (h : p.Indexed) (hi : p.place? k = some i) :
    OnlyAt (Pair.hasKey k) i p.entries := by
  intro j e hj
  constructor
  · intro hk
    have hplace := h.place?_of_entry hj hk
    rw [hi, Option.some.injEq] at hplace
    exact hplace.symm
  · rintro rfl
    obtain ⟨e', he', hk⟩ := (h.mem_iff k j).mp (h.place?_eq_some_iff.mp hi)
    rw [hj, Option.some.injEq] at he'
    rw [he']
    exact hk

/-- The place that the index gives is one of the entries. -/
theorem Indexed.entry (h : p.Indexed) (hi : p.place? k = some i) :
    ∃ e, p.entries[i]? = some e ∧ e.hasKey k = true :=
  (h.mem_iff k i).mp (h.place?_eq_some_iff.mp hi)

/-- Where the index gives no place there is no pair of the key. -/
theorem Indexed.absent (h : p.Indexed) (hi : p.place? k = none) :
    ∀ e ∈ p.entries, e.hasKey k = false := by
  intro e he
  obtain ⟨j, hj⟩ := List.mem_iff_getElem?.mp he
  rw [Bool.eq_false_iff]
  intro hk
  have hplace := h.place?_of_entry hj hk
  rw [hi] at hplace
  cases hplace

theorem Indexed.findAt?_eq (h : p.Indexed) (k : Key) :
    p.findAt? k = p.entries.find? (Pair.hasKey k) := by
  unfold findAt?
  cases hi : p.place? k with
  | none =>
    have hnone : p.entries.find? (Pair.hasKey k) = none := by
      rw [List.find?_eq_none]
      intro e he
      simp [h.absent hi e he]
    exact hnone.symm
  | some i =>
    obtain ⟨e, he, -⟩ := h.entry hi
    rw [(h.onlyAt hi).find? he]
    exact he

theorem Indexed.isSome_place? (h : p.Indexed) (k : Key) :
    (p.place? k).isSome = p.entries.any (Pair.hasKey k) := by
  cases hi : p.place? k with
  | none =>
    symm
    rw [Option.isSome_none, List.any_eq_false]
    intro e he
    simp [h.absent hi e he]
  | some i =>
    obtain ⟨e, he, hk⟩ := h.entry hi
    symm
    rw [Option.isSome_some, List.any_eq_true]
    exact ⟨e, List.mem_of_getElem? he, hk⟩

/-! ### Putting a pair -/

theorem Indexed.entries_insertAt (h : p.Indexed) (k : Key) (pair : Pair) :
    (p.insertAt k pair).entries = Listing.insert p.entries k pair := by
  unfold insertAt Listing.insert
  rw [← h.isSome_place? k]
  cases hi : p.place? k with
  | none => rfl
  | some i => exact ((h.onlyAt hi).map_eq_set pair).symm

theorem Indexed.insertAt (h : p.Indexed) {pair : Pair} (hpair : pair.hasKey k = true) :
    (p.insertAt k pair).Indexed := by
  unfold Pairs.insertAt
  cases hi : p.place? k with
  | some i =>
    -- the new pair has the key of the old one, so the index stays right
    obtain ⟨old, hold, hkey⟩ := h.entry hi
    have hsame : ∀ k', pair.hasKey k' = old.hasKey k' := Pair.hasKey_congr hpair hkey
    obtain ⟨hlt, -⟩ := List.getElem?_eq_some_iff.mp hold
    refine ⟨h.nodup, fun k' j => ?_⟩
    rw [h.mem_iff, List.getElem?_set]
    by_cases hij : i = j
    · subst hij
      rw [if_pos rfl, if_pos hlt, hold]
      simp [hsame]
    · rw [if_neg hij]
  | none =>
    -- the new pair stands behind all others, whose keys differ from its own
    have hfresh : ∀ j, (k, j) ∉ p.index := by
      intro j hmem
      have hplace := h.place?_eq_some_iff.mpr hmem
      rw [hi] at hplace
      cases hplace
    have hself : ∀ k', pair.hasKey k' = true ↔ k' = k := fun k' => Pair.hasKey_iff_of_hasKey hpair
    refine ⟨?_, fun k' j => ?_⟩
    · rw [List.map_cons, List.nodup_cons]
      refine ⟨fun hmem => ?_, h.nodup⟩
      obtain ⟨⟨k', j⟩, hq, rfl⟩ := List.mem_map.mp hmem
      exact hfresh j hq
    · rw [List.mem_cons, h.mem_iff, Prod.mk.injEq, List.getElem?_append]
      by_cases hj : j < p.entries.length
      · have hne : j ≠ p.entries.length := Nat.ne_of_lt hj
        simp [hj, hne]
      · by_cases hend : j = p.entries.length
        · subst hend
          simp [hself]
        · have hbeyond : [pair][j - p.entries.length]? = none :=
            List.getElem?_eq_none_iff.mpr (by simp; omega)
          simp [hj, hend, hbeyond]

/-! ### Taking a pair away -/

/-- After the element at a place is gone, the others stand where `shiftPlace` says. -/
theorem getElem?_eraseIdx_iff {α : Type} {xs : List α} {gone j : Nat} {x : α} :
    (xs.eraseIdx gone)[j]? = some x ↔
      ∃ i, i ≠ gone ∧ xs[i]? = some x ∧ shiftPlace gone i = j := by
  rw [List.getElem?_eraseIdx]
  unfold shiftPlace
  constructor
  · intro hx
    by_cases hj : j < gone
    · rw [if_pos hj] at hx
      exact ⟨j, by omega, hx, if_neg (by omega)⟩
    · rw [if_neg hj] at hx
      exact ⟨j + 1, by omega, hx, by rw [if_pos (by omega)]; omega⟩
  · rintro ⟨i, hne, hx, rfl⟩
    by_cases hi : gone < i
    · have hback : i - 1 + 1 = i := by omega
      rw [if_pos hi, if_neg (by omega), hback]
      exact hx
    · rw [if_neg hi, if_pos (by omega)]
      exact hx

theorem mem_index_eraseAt {gone j : Nat} {k' : Key} :
    (k', j) ∈ (p.eraseAt k gone).index ↔
      ∃ i, (k', i) ∈ p.index ∧ k' ≠ k ∧ shiftPlace gone i = j := by
  unfold Pairs.eraseAt
  rw [List.mem_map]
  constructor
  · rintro ⟨⟨k₁, i⟩, hq, heq⟩
    obtain ⟨rfl, rfl⟩ := Prod.mk.inj heq
    obtain ⟨hindex, hne⟩ := List.mem_filter.mp hq
    exact ⟨i, hindex, by simpa using hne, rfl⟩
  · rintro ⟨i, hindex, hne, rfl⟩
    exact ⟨(k', i), List.mem_filter.mpr ⟨hindex, by simpa using hne⟩, rfl⟩

theorem keys_eraseAt (gone : Nat) :
    (p.eraseAt k gone).index.map Prod.fst = (p.index.filter (·.1 ≠ k)).map Prod.fst := by
  unfold Pairs.eraseAt
  rw [List.map_map]
  rfl

theorem Indexed.eraseAt (h : p.Indexed) (hi : p.place? k = some i) : (p.eraseAt k i).Indexed := by
  constructor
  · rw [keys_eraseAt]
    exact h.nodup.sublist (List.filter_sublist.map Prod.fst)
  · intro k' j
    have honly := h.onlyAt hi
    rw [mem_index_eraseAt]
    constructor
    · rintro ⟨i', hindex, hne, hj⟩
      obtain ⟨e, he, hk⟩ := (h.mem_iff k' i').mp hindex
      refine ⟨e, getElem?_eraseIdx_iff.mpr ⟨i', ?_, he, hj⟩, hk⟩
      -- the entry that goes has the key that goes, and no other one
      rintro rfl
      have hgone : e.hasKey k = true := (honly i' e he).mpr rfl
      exact hne ((Pair.hasKey_iff_of_hasKey hgone).mp hk)
    · rintro ⟨e, hj, hk⟩
      obtain ⟨i', hne, he, hj⟩ := getElem?_eraseIdx_iff.mp hj
      refine ⟨i', (h.mem_iff k' i').mpr ⟨e, he, hk⟩, ?_, hj⟩
      rintro rfl
      exact hne ((honly i' e he).mp hk)

theorem Indexed.removeAt (h : p.Indexed) (k : Key) : (p.removeAt k).2.Indexed := by
  unfold Pairs.removeAt
  cases hi : p.place? k with
  | none => exact h
  | some i => exact h.eraseAt hi

theorem Indexed.removeAt_eq (h : p.Indexed) (k : Key) :
    (p.removeAt k).1 = p.entries.find? (Pair.hasKey k) ∧
      (p.removeAt k).2.entries = p.entries.filter fun e => !e.hasKey k := by
  unfold Pairs.removeAt
  cases hi : p.place? k with
  | none =>
    have habsent := h.absent hi
    constructor
    · symm
      rw [List.find?_eq_none]
      intro e he
      simp [habsent e he]
    · symm
      rw [List.filter_eq_self]
      intro e he
      simp [habsent e he]
  | some i =>
    obtain ⟨e, he, -⟩ := h.entry hi
    have honly := h.onlyAt hi
    refine ⟨?_, honly.filter_eq_eraseIdx.symm⟩
    rw [honly.find? he]
    exact he

end Indexed

/-! ## Calls on pairs and calls on a list -/

/-- Pairs that are indexed have given what the list gives, and they are the list that is left. -/
structure Agrees (r : CallResult × Pairs) (r' : CallResult × List Pair) : Prop where
  result : r.1 = r'.1
  entries : r.2.entries = r'.2
  indexed : r.2.Indexed

/-- Operations that agree for every key agree for every value given as the key. -/
theorem Indexed.keyed {p : Pairs} (h : p.Indexed) {key : Value} {g : Key → CallAnswer × Pairs}
    {f : Key → CallAnswer × List Pair}
    (hgf : ∀ k, key.key? = some k → Agrees (.ok (g k).1, (g k).2) (.ok (f k).1, (f k).2)) :
    Agrees (p.orRefuse key (key.key?.map g)) (Listing.keyed p.entries key f) := by
  unfold orRefuse Listing.keyed
  cases hk : key.key? with
  | none => exact ⟨rfl, rfl, h⟩
  | some k => exact hgf k hk

/-- A call gives what it gives for the list, and leaves the list that it leaves there. -/
theorem Indexed.call {p : Pairs} (h : p.Indexed) (c : Call) :
    Agrees (p.call c) (Listing.call p.entries c) := by
  cases c with
  | insert key value =>
    simp only [Pairs.call, Listing.call, Pairs.insert?, Option.map_map]
    refine h.keyed fun k hk => ?_
    have hpair : Pair.hasKey k ⟨key, value⟩ = true := Pair.hasKey_iff.mpr hk
    exact ⟨rfl, h.entries_insertAt k _, h.insertAt hpair⟩
  | remove key =>
    simp only [Pairs.call, Listing.call, Pairs.remove?, Option.map_map]
    refine h.keyed fun k _ => ?_
    obtain ⟨hgone, hentries⟩ := h.removeAt_eq k
    exact ⟨congrArg (fun o => Except.ok (CallAnswer.pair o)) hgone, hentries, h.removeAt k⟩
  | get key =>
    simp only [Pairs.call, Listing.call, Pairs.find?, Option.map_map]
    refine h.keyed fun k _ => ?_
    exact ⟨congrArg (fun o => Except.ok (CallAnswer.pair o)) (h.findAt?_eq k), rfl, h⟩
  | contains key =>
    simp only [Pairs.call, Listing.call, Pairs.contains?, Option.map_map]
    refine h.keyed fun k _ => ?_
    exact ⟨congrArg (fun b => Except.ok (CallAnswer.truth b)) (h.isSome_place? k), rfl, h⟩
  | len => exact ⟨rfl, rfl, h⟩
  | iter => exact ⟨rfl, rfl, h⟩

/-- Whatever is called on pairs that are indexed, each call gives what it gives for the list. -/
theorem Indexed.results {p : Pairs} (h : p.Indexed) (cs : List Call) :
    (results Pairs.call p cs).1 = (results Listing.call p.entries cs).1 ∧
      (results Pairs.call p cs).2.entries = (results Listing.call p.entries cs).2 ∧
        (results Pairs.call p cs).2.Indexed := by
  induction cs generalizing p with
  | nil => exact ⟨rfl, rfl, h⟩
  | cons c cs ih =>
    obtain ⟨hresult, hentries, hindexed⟩ := h.call c
    have hrest := ih hindexed
    rw [hentries] at hrest
    refine ⟨?_, hrest.2⟩
    show (p.call c).1 :: _ = (Listing.call p.entries c).1 :: _
    rw [hresult]
    exact congrArg (_ :: ·) hrest.1

/-- After any calls on new pairs: each call gave what it gives for a list, the pairs are the list that
    is left, and the index maps the key of each entry to its place and nothing else. Values that are
    keys differ in the codes of their keys, also across kinds, unless a digest fails to tell two strings
    apart. -/
theorem results_listing (cs : List Call) :
    (results Pairs.call .empty cs).1 = (results Listing.call [] cs).1 ∧
      (results Pairs.call .empty cs).2.entries = (results Listing.call [] cs).2 ∧
      (results Pairs.call .empty cs).2.Indexed ∧
      ∀ (digest : String → UInt64) (v w : Value) (k k' : Key), v.key? = some k → w.key? = some k' →
        k.code digest = k'.code digest →
          v = w ∨ ∃ s t, k = .str s ∧ k' = .str t ∧ s ≠ t ∧ digest s = digest t := by
  obtain ⟨hresults, hentries, hindexed⟩ := indexed_empty.results cs
  refine ⟨hresults, hentries, hindexed, fun digest v w k k' hv hw hcode => ?_⟩
  rcases Key.eq_of_code hcode with rfl | hdigest
  · exact Or.inl (Value.eq_of_key? hv hw)
  · exact Or.inr hdigest

end Pairs

end Scriptlet
