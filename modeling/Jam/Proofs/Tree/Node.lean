import Jam.Proofs.Tree.Unparse

/-!
The nodes of a tree at every depth. A node is a part of a program together with the place it has
there, since a condition and a returned type have rules of their own. Each node keeps some tokens
itself, and the other tokens in what it is written as are those of its children.
-/
namespace Jam

open Slot

/-- The expressions directly inside an expression. -/
def Expr.children : Expr → List Expr
  | .literal .. => []
  | .name _ => []
  | .element _ indices => indices
  | .group inner => [inner]
  | .call _ _ args => args
  | .binary left _ right => [left, right]

/-- The tokens that an expression keeps outside the expressions inside it. -/
def Expr.tokens : Expr → List Token
  | .literal t _ => [t]
  | .name t => [t]
  | .element t _ => [t]
  | .group _ => []
  | .call word callee _ => [word, callee]
  | .binary _ op _ => [op]

inductive Node where
  | program (p : Program)
  | item (i : Item)
  | func (f : Func)
  | param (p : Param)
  | stmt (s : Stmt)
  | tail (t : Tail)
  | assign (a : Assign)
  | target (t : Target)
  | decl (d : Decl)
  | init (i : Init)
  | returned (t : TypeRef)
  | type (t : TypeRef)
  | condition (e : Expr)
  | value (e : Expr)

namespace Node

def children : Node → List Node
  | program p => p.items.map item
  | item (.declare d) => [decl d]
  | item (.stmt s) => [stmt s]
  | item (.func f) => [func f]
  | func f => returned f.returns :: (f.params.map param ++ f.body.map stmt)
  | param p => [type p.type]
  | stmt (.declare d) => [decl d]
  | stmt (.ret e) => [value e]
  | stmt (.assign a) => [assign a]
  | stmt (.call c) => [value c.expr]
  | stmt (.branch e body t) => condition e :: (body.map stmt ++ [tail t])
  | stmt (.rangeLoop _ start stop body) => value start :: value stop :: body.map stmt
  | stmt (.stepLoop d e a body) => decl d :: condition e :: assign a :: body.map stmt
  | stmt (.whileLoop e body) => condition e :: body.map stmt
  | tail .nothing => []
  | tail (.otherwise body) => body.map stmt
  | tail (.orIf e body t) => condition e :: (body.map stmt ++ [tail t])
  | assign a => [value a.value, target a.target]
  | target t => t.indices.map value
  | decl d => type d.type :: (d.dims.map value ++ d.init.toList.map init)
  | init (.value e) => [value e]
  | init (.braces items) => items.map init
  | returned _ => []
  | type _ => []
  | condition e => e.children.map value
  | value e => e.children.map value

/-- The tokens that a node keeps outside its children. -/
def tokens : Node → List Token
  | func f => [f.name]
  | param p => [p.name]
  | stmt (.rangeLoop var _ _ _) => [var]
  | target t => [t.name]
  | decl d => d.names
  | returned t => t.word.toList
  | type t => t.word.toList
  | condition e => e.tokens
  | value e => e.tokens
  | _ => []

def unparse : Node → List Slot
  | program p => p.unparse
  | item i => i.unparse
  | func f => f.unparse
  | param p => p.unparse
  | stmt s => s.unparse
  | tail t => t.unparse
  | assign a => a.unparse
  | target t => t.unparse
  | decl d => d.unparse
  | init i => i.unparse
  | returned t => t.unparse
  | type t => t.unparse
  | condition e => e.unparse
  | value e => e.unparse

/-- The nodes that are reached from a node by going down to children, the node itself included. -/
inductive Within (root : Node) : Node → Prop
  | self : Within root root
  | child {n m : Node} (h : Within root n) (hm : m ∈ n.children) : Within root m

end Node

/-- What an expression keeps is what it keeps itself and what the expressions inside it keep. -/
theorem Expr.kept_mem_unparse {e : Expr} {t : Token} :
    kept t ∈ e.unparse ↔ t ∈ e.tokens ∨ ∃ inner ∈ e.children, kept t ∈ inner.unparse := by
  cases e with
  | element u indices => simp [Expr.unparse_element, Expr.tokens, Expr.children]
  | call word callee args => simp [Expr.unparse_call, Expr.tokens, Expr.children, or_assoc]
  | binary left op right =>
    simp [Expr.unparse, Expr.tokens, Expr.children, or_left_comm]
  | _ => simp [Expr.unparse, Expr.tokens, Expr.children]

namespace Node

/-- A node keeps its own tokens and those that its children keep. -/
theorem kept_mem_unparse {n : Node} {t : Token} :
    kept t ∈ n.unparse ↔ t ∈ n.tokens ∨ ∃ m ∈ n.children, kept t ∈ m.unparse := by
  cases n with
  | program p => simp [unparse, tokens, children, Program.unparse]
  | item i => cases i <;> simp [unparse, tokens, children, Item.unparse]
  | func f =>
    simp [unparse, tokens, children, Func.unparse, Stmt.unparses_eq_flatMap, or_and_right,
      exists_or, or_left_comm]
  | param p => simp [unparse, tokens, children, Param.unparse, or_comm]
  | stmt s =>
    cases s <;> simp [unparse, tokens, children, Stmt.unparse, Stmt.unparses_eq_flatMap,
      Call.unparse, or_and_right, exists_or, or_assoc]
  | tail t =>
    cases t <;> simp [unparse, tokens, children, Tail.unparse, Stmt.unparses_eq_flatMap,
      or_and_right, exists_or, or_assoc]
  | assign a => simp [unparse, tokens, children, Assign.unparse]
  | target t => simp [unparse, tokens, children, Target.unparse]
  | decl d =>
    simp [unparse, tokens, children, Decl.kept_mem_unparse, TypeRef.kept_mem_unparse,
      or_and_right, exists_or, or_left_comm]
  | init i => cases i <;> simp [unparse, tokens, children, Init.unparse, Init.unparses_eq_map]
  | returned t => simp [unparse, tokens, children, TypeRef.kept_mem_unparse]
  | type t => simp [unparse, tokens, children, TypeRef.kept_mem_unparse]
  | condition e => simpa [unparse, tokens, children] using Expr.kept_mem_unparse
  | value e => simpa [unparse, tokens, children] using Expr.kept_mem_unparse

/-- What is inside a child is inside the node. -/
theorem Within.of_child {n m k : Node} (h : Within m k) (hm : m ∈ n.children) : Within n k := by
  induction h with
  | self => exact .child .self hm
  | child _ hk ih => exact .child ih hk

/-- What a node inside a tree keeps is kept by the tree. -/
theorem Within.kept_of_kept {root n : Node} {t : Token} (h : Within root n)
    (ht : kept t ∈ n.unparse) : kept t ∈ root.unparse := by
  induction h with
  | self => exact ht
  | child _ hm ih => exact ih (Node.kept_mem_unparse.mpr (Or.inr ⟨_, hm, ht⟩))

theorem Within.kept_mem_unparse {root n : Node} {t : Token} (h : Within root n)
    (ht : t ∈ n.tokens) : kept t ∈ root.unparse :=
  h.kept_of_kept (Node.kept_mem_unparse.mpr (Or.inl ht))

end Node

/-- The expressions inside an expression are parts of it. -/
theorem Expr.sizeOf_child {e inner : Expr} (h : inner ∈ e.children) :
    sizeOf inner < sizeOf e := by
  cases e with
  | literal t value => cases h
  | name t => cases h
  | element t indices =>
    have hlt : sizeOf inner < sizeOf indices := List.sizeOf_lt_of_mem h
    rw [element.sizeOf_spec]
    omega
  | group e =>
    rw [List.mem_singleton.mp h, group.sizeOf_spec]
    omega
  | call word callee args =>
    have hlt : sizeOf inner < sizeOf args := List.sizeOf_lt_of_mem h
    rw [call.sizeOf_spec]
    omega
  | binary left op right =>
    simp only [children, List.mem_cons, List.not_mem_nil, or_false] at h
    rw [binary.sizeOf_spec]
    rcases h with rfl | rfl <;> omega

namespace Node

/-- The children of a node are parts of it, so going down comes to an end. -/
theorem sizeOf_child {n : Node} : ∀ m ∈ n.children, sizeOf m < sizeOf n := by
  have hcall : ∀ c : Call, sizeOf c.expr = sizeOf c := by
    rintro ⟨word, callee, args⟩
    simp [Call.expr]
  cases n with
  | program p =>
    cases p
    grind [children, → List.sizeOf_lt_of_mem]
  | item i => cases i <;> grind [children]
  | func f =>
    cases f
    grind [children, → List.sizeOf_lt_of_mem]
  | param p =>
    cases p
    grind [children]
  | stmt s => cases s <;> grind [children, → List.sizeOf_lt_of_mem]
  | tail t => cases t <;> grind [children, → List.sizeOf_lt_of_mem]
  | assign a =>
    cases a
    grind [children]
  | target t =>
    cases t
    grind [children, → List.sizeOf_lt_of_mem]
  | decl d =>
    cases d
    grind [children, → List.sizeOf_lt_of_mem]
  | init i => cases i <;> grind [children, → List.sizeOf_lt_of_mem]
  | returned t => grind [children]
  | type t => grind [children]
  | condition e => grind [children, → Expr.sizeOf_child]
  | value e => grind [children, → Expr.sizeOf_child]

/-- What holds of a node if it holds of its children holds of every node. -/
@[elab_as_elim]
theorem induction {P : Node → Prop} (step : ∀ n, (∀ m ∈ n.children, P m) → P n) (n : Node) :
    P n := by
  induction h : sizeOf n using Nat.strongRecOn generalizing n with
  | ind size ih =>
    apply step
    intro m hm
    have hlt := sizeOf_child m hm
    exact ih (sizeOf m) (by omega) m rfl

/-- Whatever a tree keeps is kept by one of its nodes. -/
theorem exists_within_of_kept {n : Node} {t : Token} (h : kept t ∈ n.unparse) :
    ∃ m, Within n m ∧ t ∈ m.tokens := by
  induction n using Node.induction with
  | step n ih =>
    rcases kept_mem_unparse.mp h with ht | ⟨m, hm, ht⟩
    · exact ⟨n, .self, ht⟩
    · obtain ⟨k, hk, ht⟩ := ih m hm ht
      exact ⟨k, hk.of_child hm, ht⟩

end Node
end Jam
