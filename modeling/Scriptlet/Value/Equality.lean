import Scriptlet.Value.Basic

/-!
# `Value.Equality` — two ways of being equal

## Contents
- `Value.same`: a host's equality, by content. Functions are the same if they have the same tree,
  spans included, and close over the same frame. Floats are compared as numbers.
- `Value.identical`: the language's equality where the two values are neither two numbers nor two
  strings. Arrays, hashes and functions are equal to themselves alone.
-/

namespace Scriptlet

mutual

/-- Equality by content. -/
def Value.same : Value → Value → Bool
  | .int a, .int b => a = b
  | .float x, .float y => x == y
  | .bool a, .bool b => a = b
  | .null, .null => true
  | .str s, .str t => s = t
  | .array _ es, .array _ es' => Value.sameList es es'
  | .hash _ ps, .hash _ ps' => ps.same ps'
  | .func _ ps b f, .func _ ps' b' f' => ps = ps' && b.same b' && f = f'
  | .builtin a, .builtin b => a = b
  | .error m, .error m' => m = m'
  | .returned v, .returned v' => v.same v'
  | _, _ => false

/-- Equality of values one by one. -/
def Value.sameList : List Value → List Value → Bool
  | [], [] => true
  | v :: vs, v' :: vs' => v.same v' && Value.sameList vs vs'
  | _, _ => false

/-- Equality of pairs, by content and in order. -/
def Pairs.same : Pairs → Pairs → Bool
  | ⟨es, _⟩, ⟨es', _⟩ => Pair.sameList es es'

/-- Equality of pairs one by one. -/
def Pair.sameList : List Pair → List Pair → Bool
  | [], [] => true
  | p :: ps, p' :: ps' => p.same p' && Pair.sameList ps ps'
  | _, _ => false

/-- Equality of keys and of values. -/
def Pair.same : Pair → Pair → Bool
  | ⟨k, v⟩, ⟨k', v'⟩ => k.same k' && v.same v'

end

/-- The language's equality of two values that are neither two numbers nor two strings. -/
def Value.identical : Value → Value → Bool
  | .null, .null => true
  | .bool a, .bool b => a = b
  | .array i _, .array j _ => i = j
  | .hash i _, .hash j _ => i = j
  | .func i _ _ _, .func j _ _ _ => i = j
  | .builtin a, .builtin b => a = b
  | _, _ => false

end Scriptlet
