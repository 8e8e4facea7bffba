import Jam.Proofs.Tree.Induction
import Jam.Proofs.Tree.Row

/-!
Writing out a tree walks it in the order of the grammar. The word `array` stands before a type
exactly when the type has dimensions, and a function has a return type exactly when the tree
keeps its word.
-/
namespace Jam

open Slot

mutual

def Expr.unparse : Expr → List Slot
  | .literal t _ => [kept t]
  | .name t => [kept t]
  | .element t indices => kept t :: (Expr.unparses indices).flatMap bracketed
  | .group inner => grouped inner.unparse
  | .call word callee args =>
    kept word :: kept callee :: grouped (commas (Expr.unparses args))
  | .binary left op right => left.unparse ++ kept op :: right.unparse

def Expr.unparses : List Expr → List (List Slot)
  | [] => []
  | e :: rest => e.unparse :: Expr.unparses rest

end

def Call.unparse (c : Call) : List Slot := c.expr.unparse

def TypeRef.unparse (t : TypeRef) : List Slot :=
  arrayWord t.rank ++ t.word.toList.map kept ++ (List.replicate t.rank (bracketed [])).flatten

mutual

def Init.unparse : Init → List Slot
  | .value e => e.unparse
  | .braces items => braced (commas (Init.unparses items))

def Init.unparses : List Init → List (List Slot)
  | [] => []
  | i :: rest => i.unparse :: Init.unparses rest

end

/-- The first name has the initializer, and the others follow after commas. -/
def unparseNames (init : List Slot) : List Token → List Slot
  | [] => init
  | first :: others => kept first :: (init ++ others.flatMap fun t => [symbol .comma, kept t])

def Decl.unparse (d : Decl) : List Slot :=
  arrayWord d.type.rank ++ d.type.word.toList.map kept ++
    d.dims.flatMap (fun e => bracketed e.unparse) ++
    unparseNames (d.init.elim [] fun i => symbol .assign :: i.unparse) d.names ++
    [symbol .semicolon]

def Target.unparse (t : Target) : List Slot :=
  kept t.name :: t.indices.flatMap fun e => bracketed e.unparse

def Assign.unparse (a : Assign) : List Slot :=
  a.value.unparse ++ symbol .assign :: a.target.unparse

/-- A condition and the block that is carried out if it holds. -/
def unparseArm (condition body : List Slot) : List Slot := grouped condition ++ braced body

mutual

def Stmt.unparse : Stmt → List Slot
  | .declare d => d.unparse
  | .ret value => keyword .return_ :: (value.unparse ++ [symbol .semicolon])
  | .assign a => a.unparse ++ [symbol .semicolon]
  | .call c => c.unparse ++ [symbol .semicolon]
  | .branch condition body tail =>
    keyword .if_ :: (unparseArm condition.unparse (Stmt.unparses body) ++ tail.unparse)
  | .rangeLoop var start stop body =>
    keyword .for_ :: symbol .leftParen :: kept var :: keyword .moves :: keyword .from_ ::
      (start.unparse ++ keyword .to_ :: (stop.unparse ++
        symbol .rightParen :: braced (Stmt.unparses body)))
  | .stepLoop init condition step body =>
    keyword .for_ :: symbol .leftParen :: (init.unparse ++ (condition.unparse ++
      symbol .semicolon :: (step.unparse ++
        symbol .rightParen :: braced (Stmt.unparses body))))
  | .whileLoop condition body =>
    keyword .while_ :: unparseArm condition.unparse (Stmt.unparses body)

def Stmt.unparses : List Stmt → List Slot
  | [] => []
  | s :: rest => s.unparse ++ Stmt.unparses rest

def Tail.unparse : Tail → List Slot
  | .nothing => []
  | .otherwise body => keyword .else_ :: braced (Stmt.unparses body)
  | .orIf condition body tail =>
    keyword .or_ :: keyword .if_ ::
      (unparseArm condition.unparse (Stmt.unparses body) ++ tail.unparse)

end

def Param.unparse (p : Param) : List Slot := p.type.unparse ++ [kept p.name]

def Func.unparse (f : Func) : List Slot :=
  keyword .func :: (f.returns.unparse ++ kept f.name ::
    (grouped (commas (f.params.map Param.unparse)) ++ braced (Stmt.unparses f.body)))

def Item.unparse : Item → List Slot
  | .declare d => d.unparse
  | .stmt s => s.unparse
  | .func f => f.unparse

def Program.unparse (p : Program) : List Slot := p.items.flatMap Item.unparse

theorem Expr.unparses_eq_map (es : List Expr) : Expr.unparses es = es.map Expr.unparse := by
  induction es with
  | nil => rfl
  | cons e es ih => rw [Expr.unparses, List.map_cons, ih]

theorem Init.unparses_eq_map (is : List Init) : Init.unparses is = is.map Init.unparse := by
  induction is with
  | nil => rfl
  | cons i is ih => rw [Init.unparses, List.map_cons, ih]

theorem Stmt.unparses_eq_flatMap (ss : List Stmt) : Stmt.unparses ss = ss.flatMap Stmt.unparse := by
  induction ss with
  | nil => rfl
  | cons s ss ih => rw [Stmt.unparses, List.flatMap_cons, ih]

theorem Expr.unparse_element (t : Token) (indices : List Expr) :
    (Expr.element t indices).unparse =
      kept t :: indices.flatMap fun e => bracketed e.unparse := by
  rw [Expr.unparse, Expr.unparses_eq_map, List.flatMap_map]

theorem Expr.unparse_call (word callee : Token) (args : List Expr) :
    (Expr.call word callee args).unparse =
      kept word :: kept callee :: grouped (commas (args.map Expr.unparse)) := by
  rw [Expr.unparse, Expr.unparses_eq_map]

theorem Init.unparse_braces (items : List Init) :
    (Init.braces items).unparse = braced (commas (items.map Init.unparse)) := by
  rw [Init.unparse, Init.unparses_eq_map]

/-- The arms of a tail are written in order, and its last block at the end. -/
theorem Tail.unparse_ofArms (arms : List (Expr × List Stmt)) (last : Option (List Stmt)) :
    (Tail.ofArms arms last).unparse =
      arms.flatMap (fun arm => keyword .or_ :: keyword .if_ ::
        unparseArm arm.1.unparse (Stmt.unparses arm.2)) ++
      last.elim [] (fun body => keyword .else_ :: braced (Stmt.unparses body)) := by
  induction arms with
  | nil => cases last <;> rfl
  | cons arm arms ih =>
    rw [Tail.ofArms] at ih
    rw [Tail.ofArms, List.foldr_cons, Tail.unparse, ih]
    simp

section Kept

variable {t : Token} {row others : List Slot}

@[simp]
theorem kept_mem_unparseArm : kept t ∈ unparseArm row others ↔ kept t ∈ row ∨ kept t ∈ others := by
  simp [unparseArm]

theorem kept_mem_unparseNames {names : List Token} :
    kept t ∈ unparseNames row names ↔ t ∈ names ∨ kept t ∈ row := by
  cases names with
  | nil => simp [unparseNames]
  | cons first others => grind [unparseNames]

theorem TypeRef.kept_mem_unparse {type : TypeRef} : kept t ∈ type.unparse ↔ t ∈ type.word := by
  simp [TypeRef.unparse]

theorem Decl.kept_mem_unparse {d : Decl} :
    kept t ∈ d.unparse ↔ t ∈ d.type.word ∨ (∃ e ∈ d.dims, kept t ∈ e.unparse) ∨
      t ∈ d.names ∨ ∃ i ∈ d.init, kept t ∈ i.unparse := by
  have hinit : kept t ∈ d.init.elim [] (fun i => .symbol .assign :: i.unparse) ↔
      ∃ i ∈ d.init, kept t ∈ i.unparse := by
    cases d.init <;> simp
  simp [Decl.unparse, kept_mem_unparseNames, hinit]

end Kept

end Jam
