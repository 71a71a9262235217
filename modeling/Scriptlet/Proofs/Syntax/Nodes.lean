import Scriptlet.Syntax.Outline

/-!
# `Proofs.Syntax.Nodes` — the nodes of a tree and their children

A tree is made of programs, statements, blocks, expressions and names. This module gives them one type,
so that what holds of a node and its children can be said once for all of them.

## Contents
- `Node`, `Node.place`, `Node.children`: a node, its kind and span, and the nodes right below it from
  left to right.
- `Node.Under`: the nodes of a tree. `Node.Under.forall_iff` takes a property of all of them apart.
- `mem_places_iff`: the places that `Program.places` lists are those of the program's nodes.
-/

namespace Scriptlet

/-- A node of a tree. A block that is a statement is one node, not two. -/
inductive Node where
  | program (p : Program)
  | stmt (s : Stmt)
  | block (b : Block)
  | expr (e : Expr)
  | name (name : Ident)

/-! ## Children -/

/-- The nodes of a key and its value, which make no node of their own. -/
def Entry.nodes (p : Entry) : List Node := [.expr p.key, .expr p.value]

/-- The nodes right below an expression, from left to right. -/
def Expr.children : Expr → List Node
  | .ident _ | .int .. | .float .. | .bool .. | .str .. => []
  | .array elements _ => elements.map .expr
  | .hash entries _ => entries.flatMap Entry.nodes
  | .unary _ operand _ => [.expr operand]
  | .binary left _ right _ => [.expr left, .expr right]
  | .cond condition consequence alternative _ =>
    .expr condition :: .block consequence :: alternative.toList.map .block
  | .loop condition body _ => [.expr condition, .block body]
  | .func parameters body _ => parameters.map .name ++ [.block body]
  | .call callee arguments _ => .expr callee :: arguments.map .expr
  | .index target position _ => [.expr target, .expr position]

/-- The nodes right below a statement, from left to right. -/
def Stmt.children : Stmt → List Node
  | .bind name value _ => [.name name, .expr value]
  | .ret value _ | .expr value => [.expr value]
  | .block body => body.statements.map .stmt
  | .blank _ => []

namespace Node

/-- The nodes right below a node, from left to right. -/
def children : Node → List Node
  | program p => p.statements.map .stmt
  | stmt s => s.children
  | block b => b.statements.map .stmt
  | expr e => e.children
  | name _ => []

/-- The kind and the span of a node. -/
def place : Node → Place
  | program p => ⟨.program, p.span⟩
  | stmt s => ⟨s.kind, s.span⟩
  | block b => ⟨.blockStatement, b.span⟩
  | expr e => ⟨e.kind, e.span⟩
  | name i => i.place

/-- Where a node stands. -/
def span (n : Node) : Span := n.place.span

/-! ## The nodes of a tree -/

/-- The second node is the first one or lies somewhere below it. -/
inductive Under : Node → Node → Prop
  | refl (n : Node) : Under n n
  | child {n c m : Node} (hc : c ∈ n.children) (h : Under c m) : Under n m

/-- What holds of all nodes of a tree holds of its root and of all nodes of the trees below it. -/
theorem Under.forall_iff {P : Node → Prop} {n : Node} :
    (∀ m, Under n m → P m) ↔ P n ∧ ∀ c ∈ n.children, ∀ m, Under c m → P m := by
  constructor
  · intro h
    exact ⟨h n (.refl n), fun c hc m hm => h m (.child hc hm)⟩
  · rintro ⟨hn, hchildren⟩ m hm
    cases hm with
    | refl => exact hn
    | child hc hm => exact hchildren _ hc m hm

/-! ## The list of places -/

/-- The places inside a node, its own first. -/
def places : Node → List Place
  | program p => p.places
  | stmt s => s.places
  | block b => b.places
  | expr e => e.places
  | name i => [i.place]

end Node

theorem Expr.placesList_eq (es : List Expr) :
    Expr.placesList es = (es.map Node.expr).flatMap Node.places := by
  induction es with
  | nil => rfl
  | cons e es ih =>
    rw [Expr.placesList, ih]
    rfl

theorem Stmt.placesList_eq (ss : List Stmt) :
    Stmt.placesList ss = (ss.map Node.stmt).flatMap Node.places := by
  induction ss with
  | nil => rfl
  | cons s ss ih =>
    rw [Stmt.placesList, ih]
    rfl

theorem Entry.placesList_eq (ps : List Entry) :
    Entry.placesList ps = (ps.flatMap Entry.nodes).flatMap Node.places := by
  induction ps with
  | nil => rfl
  | cons p ps ih =>
    obtain ⟨key, value⟩ := p
    rw [Entry.placesList, ih, Entry.places]
    simp [Entry.nodes, Node.places]

theorem Block.placesOption_eq (b : Option Block) :
    Block.placesOption b = (b.toList.map Node.block).flatMap Node.places := by
  cases b with
  | none => rfl
  | some b => simp [Block.placesOption, Node.places]

theorem Ident.map_place (names : List Ident) :
    names.map Ident.place = (names.map Node.name).flatMap Node.places := by
  induction names with
  | nil => rfl
  | cons i names ih =>
    rw [List.map_cons, ih]
    rfl

theorem Expr.places_eq (e : Expr) :
    e.places = (Node.expr e).place :: e.children.flatMap Node.places := by
  cases e <;>
    simp [Expr.places, Expr.children, Node.place, Node.places, Expr.kind, Expr.span, Ident.place,
      Expr.placesList_eq, Entry.placesList_eq, Block.placesOption_eq, Ident.map_place]

theorem Stmt.places_eq (s : Stmt) :
    s.places = (Node.stmt s).place :: s.children.flatMap Node.places := by
  cases s with
  | block b =>
    obtain ⟨statements, span⟩ := b
    rw [Stmt.places, Block.places, Stmt.placesList_eq]
    rfl
  | _ => simp [Stmt.places, Stmt.children, Node.place, Node.places, Stmt.kind, Stmt.span, Ident.place]

namespace Node

/-- A node's place comes first, then those of its children. -/
theorem places_eq (n : Node) : n.places = n.place :: n.children.flatMap places := by
  cases n with
  | program p => exact congrArg (_ :: ·) (Stmt.placesList_eq p.statements)
  | stmt s => exact s.places_eq
  | block b =>
    obtain ⟨statements, span⟩ := b
    exact congrArg (_ :: ·) (Stmt.placesList_eq statements)
  | expr e => exact e.places_eq
  | name i => rfl

theorem length_places_child {n c : Node} (hc : c ∈ n.children) :
    c.places.length < n.places.length := by
  obtain ⟨before, after, hsplit⟩ := List.append_of_mem hc
  rw [places_eq n, hsplit]
  simp only [List.flatMap_append, List.flatMap_cons, List.length_cons, List.length_append]
  omega

/-- The places listed for a tree are those of its nodes. -/
theorem mem_places {n : Node} {x : Place} : x ∈ n.places ↔ ∃ m, Under n m ∧ m.place = x := by
  rw [places_eq, List.mem_cons, List.mem_flatMap]
  constructor
  · rintro (rfl | ⟨c, hc, hx⟩)
    · exact ⟨n, .refl n, rfl⟩
    · -- the children have fewer places, which both directions recurse on
      have hless := length_places_child hc
      obtain ⟨m, hm, hplace⟩ := mem_places.mp hx
      exact ⟨m, .child hc hm, hplace⟩
  · rintro ⟨m, hm, rfl⟩
    cases hm with
    | refl => exact Or.inl rfl
    | child hc hm =>
      have hless := length_places_child hc
      exact Or.inr ⟨_, hc, mem_places.mpr ⟨m, hm, rfl⟩⟩
termination_by n.places.length

end Node

/-- The places that are listed for a program are those of its nodes. -/
theorem Program.mem_places_iff {p : Program} {x : Place} :
    x ∈ p.places ↔ ∃ n, Node.Under (.program p) n ∧ n.place = x :=
  Node.mem_places (n := .program p)

end Scriptlet
