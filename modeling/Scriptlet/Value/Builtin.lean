/-!
# `Value.Builtin` — the functions that every program can call

## Contents
- `Builtin`: one constructor for each function; `Builtin.all` lists them.
- `Builtin.name` and `Builtin.ofName?`: the name in the language and back. A name belongs to one
  function (`ofName?_name`).
-/

namespace Scriptlet

/-- A function of the language itself. -/
inductive Builtin where
  | len
  | print
  | type
  | isInt
  | isFloat
  | isBool
  | isString
  | isArray
  | isHash
  | isNull
  | isFunction
  | int
  | float
  | string
  | array
  | bool
  | first
  | last
  | rest
  | init
  | at
  | setAt
  | push
  | pop
  | pushFront
  | popFront
  | insert
  | remove
  | reverse
  | keys
  | values
  | entries
  | hasKey
  | set
  | delete
  | char
  | ascii
  | split
  | splitOnce
  | join
deriving DecidableEq, Repr

namespace Builtin

/-- All functions. -/
def all : List Builtin :=
  [len, print, type, isInt, isFloat, isBool, isString, isArray, isHash, isNull, isFunction, int,
   float, string, array, bool, first, last, rest, init, .at, setAt, push, pop, pushFront, popFront,
   insert, remove, reverse, keys, values, entries, hasKey, set, delete, char, ascii, split,
   splitOnce, join]

theorem mem_all (b : Builtin) : b ∈ all := by cases b <;> decide

/-- The name that calls the function. -/
def name : Builtin → String
  | len => "len"
  | print => "print"
  | type => "type"
  | isInt => "is_int"
  | isFloat => "is_float"
  | isBool => "is_bool"
  | isString => "is_string"
  | isArray => "is_array"
  | isHash => "is_hash"
  | isNull => "is_null"
  | isFunction => "is_function"
  | int => "int"
  | float => "float"
  | string => "string"
  | array => "array"
  | bool => "bool"
  | first => "first"
  | last => "last"
  | rest => "rest"
  | init => "init"
  | .at => "at"
  | setAt => "set_at"
  | push => "push"
  | pop => "pop"
  | pushFront => "push_front"
  | popFront => "pop_front"
  | insert => "insert"
  | remove => "remove"
  | reverse => "reverse"
  | keys => "keys"
  | values => "values"
  | entries => "entries"
  | hasKey => "has_key"
  | set => "set"
  | delete => "delete"
  | char => "char"
  | ascii => "ascii"
  | split => "split"
  | splitOnce => "split_once"
  | join => "join"

/-- The function that a name calls. -/
def ofName? (s : String) : Option Builtin := all.find? fun b => b.name = s

theorem ofName?_name (b : Builtin) : ofName? b.name = some b := by cases b <;> decide

end Builtin

end Scriptlet
