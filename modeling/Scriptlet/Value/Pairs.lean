import Scriptlet.Value.Basic

/-!
# `Value.Pairs` — the operations on the pairs of a hash

A new key goes to the end; a key that is there keeps its place and gets the new value. The index
answers where a key stands, so that no operation compares keys with the entries themselves.

## Contents
- `Pairs.insert?`, `Pairs.remove?`, `Pairs.find?`, `Pairs.contains?`: by a value as the key, which
  may be none. Each rests on an operation by `Key`: `insertAt`, `removeAt`, `findAt?`, `place?`.
- `Pairs.keys`, `Pairs.values`, `Pairs.size`.
-/

namespace Scriptlet.Pairs

/-- No pairs. -/
def empty : Pairs := ⟨[], []⟩

/-- Where a key stands. -/
def place? (p : Pairs) (k : Key) : Option Nat := p.index.lookup k

/-- Puts a pair whose key is `k`. -/
def insertAt (p : Pairs) (k : Key) (pair : Pair) : Pairs :=
  match p.place? k with
  | some i => { p with entries := p.entries.set i pair }
  | none => ⟨p.entries ++ [pair], (k, p.entries.length) :: p.index⟩

/-- Puts a key with its value; nothing if the value given as the key is none. -/
def insert? (p : Pairs) (key value : Value) : Option Pairs :=
  key.key?.map fun k => p.insertAt k ⟨key, value⟩

/-- The place of an entry after the one at place `gone` is taken away. -/
def shiftPlace (gone place : Nat) : Nat := if gone < place then place - 1 else place

/-- Takes the pair at a place away. -/
def eraseAt (p : Pairs) (k : Key) (gone : Nat) : Pairs where
  entries := p.entries.eraseIdx gone
  index := (p.index.filter fun (k', _) => k' ≠ k).map fun (k', i) => (k', shiftPlace gone i)

/-- Takes the pair of a key away, if there is one. -/
def removeAt (p : Pairs) (k : Key) : Option Pair × Pairs :=
  match p.place? k with
  | some i => (p.entries[i]?, p.eraseAt k i)
  | none => (none, p)

/-- Takes the pair of a key away; nothing if the value given as the key is none. -/
def remove? (p : Pairs) (key : Value) : Option (Option Pair × Pairs) :=
  key.key?.map p.removeAt

/-- The pair of a key. -/
def findAt? (p : Pairs) (k : Key) : Option Pair := (p.place? k).bind fun i => p.entries[i]?

/-- The pair of a key; nothing if the value given as the key is none. -/
def find? (p : Pairs) (key : Value) : Option (Option Pair) := key.key?.map p.findAt?

/-- Whether a key has a pair; nothing if the value given as the key is none. -/
def contains? (p : Pairs) (key : Value) : Option Bool :=
  key.key?.map fun k => (p.place? k).isSome

/-- The number of pairs. -/
def size (p : Pairs) : Nat := p.entries.length

/-- The values given as keys, in order. -/
def keys (p : Pairs) : List Value := p.entries.map Pair.key

/-- The values, in order. -/
def values (p : Pairs) : List Value := p.entries.map Pair.value

end Scriptlet.Pairs
