import Jam.Grammar.Expression
import Jam.Proofs.Tree.Induction

/-!
The trees that a program can have. Their shape obeys the grammar, the tokens they keep are of the
kind that their place asks for, and the value of a number is that of its token. Nothing is said
of how tokens are spelled or where they stand.
-/
namespace Jam

/-- The expressions that can stand beside an arithmetic operator. -/
def Expr.IsOperand : Expr → Prop
  | .call .. => False
  | .binary .. => False
  | _ => True

mutual

/-- The operator of a well-formed expression is arithmetic. -/
def Expr.WellFormed : Expr → Prop
  | .literal t value => t.kind = .number ∧ t.literal = some value
  | .name t => t.kind = .name
  | .element t indices => t.kind = .name ∧ indices ≠ [] ∧ Expr.AllWellFormed indices
  | .group inner => inner.WellFormed
  | .call word callee args =>
    word.kind = .keyword .call ∧ callee.kind = .name ∧ Expr.AllWellFormed args
  | .binary left op right =>
    KindClass.arithmetic op.kind = true ∧ (left.IsOperand ∧ left.WellFormed) ∧
      right.IsOperand ∧ right.WellFormed

def Expr.AllWellFormed : List Expr → Prop
  | [] => True
  | e :: rest => e.WellFormed ∧ Expr.AllWellFormed rest

end

/-- A comparison, which stands in no other place. -/
def Expr.IsCondition : Expr → Prop
  | .binary left op right =>
    KindClass.relational op.kind = true ∧ left.WellFormed ∧ right.WellFormed
  | _ => False

def Call.WellFormed (c : Call) : Prop := c.expr.WellFormed

namespace TypeRef

/-- The types of variables and parameters: `void` is none of them, and the word is always kept. -/
def IsOfValue (t : TypeRef) : Prop :=
  ∃ s word, t.kind = .scalar s ∧ t.word = some word ∧ word.kind = .keyword (.scalar s)

/-- A function that returns nothing may say so, and has no dimensions. -/
def IsVoid (t : TypeRef) : Prop :=
  t.kind = .void ∧ t.rank = 0 ∧ ∀ word ∈ t.word, word.kind = .keyword .void

def IsReturned (t : TypeRef) : Prop := t.IsVoid ∨ t.IsOfValue

end TypeRef

/-- As many levels of braces on every path as there are dimensions, and none of them empty. -/
def Init.HasDepth : Nat → Init → Prop
  | 0, .value e => e.WellFormed
  | dims + 1, .braces items => items ≠ [] ∧ ∀ i ∈ items, Init.HasDepth dims i
  | _, _ => False

structure Decl.WellFormed (d : Decl) : Prop where
  type : d.type.IsOfValue
  rank : d.type.rank = d.dims.length
  dims : ∀ e ∈ d.dims, e.WellFormed
  names : d.names ≠ [] ∧ ∀ t ∈ d.names, t.kind = .name
  init : ∀ i ∈ d.init, Init.HasDepth d.dims.length i

structure Target.WellFormed (t : Target) : Prop where
  name : t.name.kind = .name
  indices : ∀ e ∈ t.indices, e.WellFormed

structure Assign.WellFormed (a : Assign) : Prop where
  value : a.value.WellFormed
  target : a.target.WellFormed

mutual

def Stmt.WellFormed : Stmt → Prop
  | .declare d => d.WellFormed
  | .ret value => value.WellFormed
  | .assign a => a.WellFormed
  | .call c => c.WellFormed
  | .branch condition body tail =>
    condition.IsCondition ∧ Stmt.AllWellFormed body ∧ tail.WellFormed
  | .rangeLoop var start stop body =>
    var.kind = .name ∧ start.WellFormed ∧ stop.WellFormed ∧ Stmt.AllWellFormed body
  | .stepLoop init condition step body =>
    init.WellFormed ∧ condition.IsCondition ∧ step.WellFormed ∧ Stmt.AllWellFormed body
  | .whileLoop condition body => condition.IsCondition ∧ Stmt.AllWellFormed body

def Stmt.AllWellFormed : List Stmt → Prop
  | [] => True
  | s :: rest => s.WellFormed ∧ Stmt.AllWellFormed rest

def Tail.WellFormed : Tail → Prop
  | .nothing => True
  | .otherwise body => Stmt.AllWellFormed body
  | .orIf condition body tail =>
    condition.IsCondition ∧ Stmt.AllWellFormed body ∧ tail.WellFormed

end

structure Param.WellFormed (p : Param) : Prop where
  name : p.name.kind = .name
  type : p.type.IsOfValue

structure Func.WellFormed (f : Func) : Prop where
  name : f.name.kind = .name
  params : ∀ p ∈ f.params, p.WellFormed
  returns : f.returns.IsReturned
  body : ∀ s ∈ f.body, s.WellFormed

/-- A statement that can stand outside all blocks and is no declaration. -/
def Stmt.IsOuter : Stmt → Prop
  | .declare _ => False
  | .ret _ => False
  | _ => True

def Item.WellFormed : Item → Prop
  | .declare d => d.WellFormed
  | .stmt s => s.IsOuter ∧ s.WellFormed
  | .func f => f.WellFormed

def Program.WellFormed (p : Program) : Prop := ∀ i ∈ p.items, i.WellFormed

theorem Expr.allWellFormed_iff {es : List Expr} :
    Expr.AllWellFormed es ↔ ∀ e ∈ es, e.WellFormed := by
  induction es with
  | nil => simp [Expr.AllWellFormed]
  | cons e es ih => rw [Expr.AllWellFormed, ih, List.forall_mem_cons]

theorem Stmt.allWellFormed_iff {ss : List Stmt} :
    Stmt.AllWellFormed ss ↔ ∀ s ∈ ss, s.WellFormed := by
  induction ss with
  | nil => simp [Stmt.AllWellFormed]
  | cons s ss ih => rw [Stmt.AllWellFormed, ih, List.forall_mem_cons]

/-- A tail is well-formed if all its arms and its last block are. -/
theorem Tail.wellFormed_ofArms {arms : List (Expr × List Stmt)} {last : Option (List Stmt)} :
    (Tail.ofArms arms last).WellFormed ↔
      (∀ arm ∈ arms, arm.1.IsCondition ∧ ∀ s ∈ arm.2, s.WellFormed) ∧
        ∀ body ∈ last, ∀ s ∈ body, s.WellFormed := by
  induction arms with
  | nil =>
    cases last with
    | none => simp [Tail.ofArms, Tail.WellFormed]
    | some body => simp [Tail.ofArms, Tail.WellFormed, Stmt.allWellFormed_iff]
  | cons arm arms ih =>
    rw [Tail.ofArms] at ih
    rw [Tail.ofArms, List.foldr_cons, Tail.WellFormed, ih, Stmt.allWellFormed_iff,
      List.forall_mem_cons]
    simp only [and_assoc]

end Jam
