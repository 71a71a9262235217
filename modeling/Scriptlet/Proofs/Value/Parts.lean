import Scriptlet.Value.Pairs

/-!
# `Proofs.Value.Parts` — what is inside a value

Arrays and hashes hold values, which may hold others. A property of everything inside a value passes
on to whatever programs take out of it, and to what they put together from values that have it.

## Contents
- `Value.Part`: a value is the other one or stands somewhere inside it.
- `Value.Every P`: everything inside the value has the property. There is one lemma for each way to
  make a value.
- `Value.Closes`, `Value.Over`: the frames that the functions inside the value close over.
- `AllEvery`, `Pairs.Every`: the same for lists and for the pairs of a hash, with one lemma for each
  operation on them.
-/

namespace Scriptlet

namespace Value

/-! ## Parts -/

/-- The second value is the first one or stands inside it. -/
inductive Part : Value → Value → Prop
  | self (v : Value) : Part v v
  | element {id : Nat} {vs : List Value} {v w : Value} (hv : v ∈ vs) (h : Part v w) :
      Part (.array id vs) w
  | key {id : Nat} {ps : Pairs} {p : Pair} {w : Value} (hp : p ∈ ps.entries) (h : Part p.key w) :
      Part (.hash id ps) w
  | value {id : Nat} {ps : Pairs} {p : Pair} {w : Value} (hp : p ∈ ps.entries)
      (h : Part p.value w) : Part (.hash id ps) w
  | returned {v w : Value} (h : Part v w) : Part (.returned v) w

/-- Values with nothing inside that operators and builtin functions can make. -/
def isScalar : Value → Bool
  | int _ | float _ | bool _ | null | str _ => true
  | _ => false

/-- Everything inside the value has the property. -/
def Every (P : Value → Prop) (v : Value) : Prop := ∀ w, v.Part w → P w

variable {P : Value → Prop} {v : Value}

theorem Every.self (h : v.Every P) : P v := h v (.self v)

theorem every_scalar (hv : v.isScalar = true) (h : P v) : v.Every P := by
  intro w hw
  cases hw with
  | self => exact h
  | element | key | value | returned => cases hv

theorem every_builtin {b : Builtin} (h : P (.builtin b)) : (Value.builtin b).Every P := by
  intro w hw
  cases hw
  exact h

theorem every_func {id frame : Nat} {parameters : List Ident} {body : Block}
    (h : P (.func id parameters body frame)) : (Value.func id parameters body frame).Every P := by
  intro w hw
  cases hw
  exact h

theorem every_array {id : Nat} {vs : List Value} (h : P (.array id vs))
    (hvs : ∀ v ∈ vs, v.Every P) : (Value.array id vs).Every P := by
  intro w hw
  cases hw with
  | self => exact h
  | element hv hw => exact hvs _ hv w hw

end Value

/-! ## Functions -/

namespace Value

/-- The value is no function, or one that closes over one of these frames. -/
def ClosesOver (near : Nat → Prop) : Value → Prop
  | .func _ _ _ frame => near frame
  | _ => True

variable {near : Nat → Prop}

theorem closesOver_of_isScalar (v : Value) (h : v.isScalar = true) : v.ClosesOver near := by
  cases v <;> trivial

/-- A function inside the value closes over the frame. -/
def Closes (v : Value) (frame : Nat) : Prop :=
  ∃ id parameters body, v.Part (.func id parameters body frame)

/-- Every function inside the value closes over one of these frames. -/
def Over (near : Nat → Prop) (v : Value) : Prop := v.Every (ClosesOver near)

theorem over_iff {v : Value} : v.Over near ↔ ∀ i, v.Closes i → near i := by
  constructor
  · rintro h i ⟨id, parameters, body, hpart⟩
    exact h _ hpart
  · intro h w hw
    cases w with
    | func id parameters body frame => exact h frame ⟨id, parameters, body, hw⟩
    | _ => trivial

theorem over_scalar {v : Value} (h : v.isScalar = true) : v.Over near :=
  every_scalar h (v.closesOver_of_isScalar h)

end Value

/-! ## Lists -/

/-- Everything inside each of the values has the property. -/
def AllEvery (P : Value → Prop) (vs : List Value) : Prop := ∀ v ∈ vs, v.Every P

section Lists

variable {P : Value → Prop} {vs : List Value}

theorem allEvery_nil : AllEvery P [] := by
  intro v hv
  simp at hv

theorem AllEvery.cons {v : Value} (hv : v.Every P) (hvs : AllEvery P vs) : AllEvery P (v :: vs) :=
  List.forall_mem_cons.mpr ⟨hv, hvs⟩

/-- Lists of some of the values. -/
theorem AllEvery.of_subset {ws : List Value} (h : AllEvery P vs) (hs : ∀ w ∈ ws, w ∈ vs) :
    AllEvery P ws :=
  fun w hw => h w (hs w hw)

theorem AllEvery.getD {o : Option Value} (h : AllEvery P vs) (hnull : P .null)
    (ho : ∀ v, o = some v → v ∈ vs) : (o.getD .null).Every P := by
  cases o with
  | none => exact Value.every_scalar rfl hnull
  | some v => exact h v (ho v rfl)

theorem Value.Every.elements {id : Nat} (h : (Value.array id vs).Every P) : AllEvery P vs :=
  fun _ hv w hw => h w (.element hv hw)

end Lists

/-! ## The pairs of a hash -/

namespace Pairs

/-- Everything inside the keys and values has the property. -/
def Every (P : Value → Prop) (ps : Pairs) : Prop :=
  ∀ p ∈ ps.entries, p.key.Every P ∧ p.value.Every P

variable {P : Value → Prop} {ps : Pairs}

theorem Every.hash {id : Nat} (h : ps.Every P) (hid : P (.hash id ps)) :
    (Value.hash id ps).Every P := by
  intro w hw
  cases hw with
  | self => exact hid
  | key hp hw => exact (h _ hp).1 w hw
  | value hp hw => exact (h _ hp).2 w hw

theorem every_empty : Pairs.empty.Every P := by
  intro p hp
  simp [Pairs.empty] at hp

theorem every_insertAt (h : ps.Every P) (k : Key) {pair : Pair} (hk : pair.key.Every P)
    (hv : pair.value.Every P) : (ps.insertAt k pair).Every P := by
  unfold insertAt
  split
  · intro p hp
    rcases List.mem_or_eq_of_mem_set hp with hp | rfl
    · exact h p hp
    · exact ⟨hk, hv⟩
  · intro p hp
    rcases List.mem_append.mp hp with hp | hp
    · exact h p hp
    · rw [List.mem_singleton.mp hp]
      exact ⟨hk, hv⟩

theorem every_insert? {more : Pairs} {key value : Value} (h : ps.Every P) (hk : key.Every P)
    (hv : value.Every P) (hm : ps.insert? key value = some more) : more.Every P := by
  unfold insert? at hm
  obtain ⟨k, -, rfl⟩ := Option.map_eq_some_iff.mp hm
  exact every_insertAt h k hk hv

theorem every_removeAt (h : ps.Every P) (k : Key) : (ps.removeAt k).2.Every P := by
  unfold removeAt
  split
  · exact fun p hp => h p (List.mem_of_mem_eraseIdx hp)
  · exact h

theorem every_find? {key : Value} {found : Option Pair} (h : ps.Every P) (hnull : P .null)
    (hf : ps.find? key = some found) : ((found.map Pair.value).getD .null).Every P := by
  unfold find? at hf
  obtain ⟨k, -, rfl⟩ := Option.map_eq_some_iff.mp hf
  cases hp : ps.findAt? k with
  | none => exact Value.every_scalar rfl hnull
  | some p =>
    obtain ⟨i, -, hi⟩ := Option.bind_eq_some_iff.mp hp
    exact (h p (List.mem_of_getElem? hi)).2

theorem every_keys (h : ps.Every P) : AllEvery P ps.keys := by
  intro v hv
  obtain ⟨p, hp, rfl⟩ := List.mem_map.mp hv
  exact (h p hp).1

theorem every_values (h : ps.Every P) : AllEvery P ps.values := by
  intro v hv
  obtain ⟨p, hp, rfl⟩ := List.mem_map.mp hv
  exact (h p hp).2

end Pairs

theorem Value.Every.pairs {P : Value → Prop} {id : Nat} {ps : Pairs}
    (h : (Value.hash id ps).Every P) : ps.Every P :=
  fun _ hp => ⟨fun w hw => h w (.key hp hw), fun w hw => h w (.value hp hw)⟩

end Scriptlet
