import Jam.Proofs.Tree.Induction
import Jam.Proofs.Tree.Relabel

/-!
The tree with the positions that its JSON tells. Numbers, names and elements of arrays in
expressions, the names of functions and the keywords of calls keep their spans; the spans of all
other tokens are forgotten. Nothing else of the tree is changed.
-/
namespace Jam

mutual

/-- The expression with the spans that its JSON tells: those of numbers, of names and elements, and
of the keywords of calls. -/
def Expr.located : Expr → Expr
  | .literal t value => .literal t value
  | .name t => .name t
  | .element t indices => .element t (Expr.locatedAll indices)
  | .group inner => .group inner.located
  | .call word callee args => .call word callee.withoutSpan (Expr.locatedAll args)
  | .binary left op right => .binary left.located op.withoutSpan right.located

def Expr.locatedAll : List Expr → List Expr
  | [] => []
  | e :: rest => e.located :: Expr.locatedAll rest

end

def Call.located (c : Call) : Call :=
  ⟨c.keyword, c.callee.withoutSpan, c.args.map Expr.located⟩

mutual

def Init.located : Init → Init
  | .value e => .value e.located
  | .braces items => .braces (Init.locatedAll items)

def Init.locatedAll : List Init → List Init
  | [] => []
  | i :: rest => i.located :: Init.locatedAll rest

end

def Decl.located (d : Decl) : Decl :=
  ⟨d.type.relabel Token.withoutSpan, d.dims.map Expr.located, d.names.map Token.withoutSpan,
    d.init.map Init.located⟩

def Target.located (t : Target) : Target := ⟨t.name.withoutSpan, t.indices.map Expr.located⟩

def Assign.located (a : Assign) : Assign := ⟨a.value.located, a.target.located⟩

mutual

def Stmt.located : Stmt → Stmt
  | .declare d => .declare d.located
  | .ret value => .ret value.located
  | .assign a => .assign a.located
  | .call c => .call c.located
  | .branch condition body tail => .branch condition.located (Stmt.locatedAll body) tail.located
  | .rangeLoop var start stop body =>
    .rangeLoop var.withoutSpan start.located stop.located (Stmt.locatedAll body)
  | .stepLoop init condition step body =>
    .stepLoop init.located condition.located step.located (Stmt.locatedAll body)
  | .whileLoop condition body => .whileLoop condition.located (Stmt.locatedAll body)

def Stmt.locatedAll : List Stmt → List Stmt
  | [] => []
  | s :: rest => s.located :: Stmt.locatedAll rest

def Tail.located : Tail → Tail
  | .nothing => .nothing
  | .otherwise body => .otherwise (Stmt.locatedAll body)
  | .orIf condition body tail => .orIf condition.located (Stmt.locatedAll body) tail.located

end

/-- The JSON of a function tells where its name stands. -/
def Func.located (f : Func) : Func :=
  ⟨f.name, f.params.map (Param.relabel Token.withoutSpan), f.returns.relabel Token.withoutSpan,
    f.body.map Stmt.located⟩

def Item.located : Item → Item
  | .declare d => .declare d.located
  | .stmt s => .stmt s.located
  | .func f => .func f.located

/-- The tree with the spans that its JSON tells, and all other spans forgotten. -/
def Program.located (p : Program) : Program := ⟨p.items.map Item.located⟩

theorem Expr.locatedAll_eq_map (es : List Expr) : Expr.locatedAll es = es.map Expr.located := by
  induction es with
  | nil => rfl
  | cons e es ih => rw [Expr.locatedAll, List.map_cons, ih]

theorem Init.locatedAll_eq_map (is : List Init) : Init.locatedAll is = is.map Init.located := by
  induction is with
  | nil => rfl
  | cons i is ih => rw [Init.locatedAll, List.map_cons, ih]

theorem Stmt.locatedAll_eq_map (ss : List Stmt) : Stmt.locatedAll ss = ss.map Stmt.located := by
  induction ss with
  | nil => rfl
  | cons s ss ih => rw [Stmt.locatedAll, List.map_cons, ih]

/-- A tail is located by its arms and its last block. -/
theorem Tail.located_eq_ofArms (tail : Tail) :
    tail.located =
      .ofArms (tail.arms.map fun arm => (arm.1.located, arm.2.map Stmt.located))
        (tail.last.map (List.map Stmt.located)) := by
  cases tail with
  | nothing => rfl
  | otherwise body => exact congrArg Tail.otherwise (Stmt.locatedAll_eq_map body)
  | orIf condition body tail =>
    have ih := located_eq_ofArms tail
    rw [located, ih, Stmt.locatedAll_eq_map]
    rfl

end Jam
