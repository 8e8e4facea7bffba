import Jam.Tree.Basic

/-!
A listing shows a program as an outline: one line for each node, two blanks further in than the
node it belongs to. It is written from top to bottom; the writer keeps the text so far and how
deep it stands. Positions and the spelling of numbers are not shown.
-/
namespace Jam

structure Listing where
  text : String
  depth : Nat
deriving DecidableEq, Repr

namespace Listing

def empty : Listing := ⟨"", 0⟩

/-- Writes one line. -/
def line (label : String) (l : Listing) : Listing :=
  { l with
    text := l.text ++ String.ofList (List.replicate (2 * l.depth) ' ') ++ label ++ "\n" }

/-- Writes one line and what belongs to it. -/
def node (label : String) (parts : Listing → Listing) (l : Listing) : Listing :=
  let l := l.line label
  let l := parts { l with depth := l.depth + 1 }
  { l with depth := l.depth - 1 }

end Listing

/-- A type is shown by its name and one pair of brackets for each dimension. -/
def TypeRef.label (t : TypeRef) : String :=
  t.kind.spelling ++ String.join (List.replicate t.rank "[]")

mutual

def Expr.list : Expr → Listing → Listing
  | .literal _ value, l => l.line ("Literal " ++ toString value)
  | .name t, l => l.line ("Ident " ++ t.lexeme)
  | .element t indices, l => l.node ("Index " ++ t.lexeme) (Expr.lists indices)
  | .group inner, l => l.node "Group" inner.list
  | .call _ callee args, l => l.node ("Call " ++ callee.lexeme) (Expr.lists args)
  | .binary left op right, l =>
    l.node ("Binary " ++ op.lexeme) fun l => right.list (left.list l)

def Expr.lists : List Expr → Listing → Listing
  | [], l => l
  | e :: rest, l => Expr.lists rest (e.list l)

end

mutual

def Init.list : Init → Listing → Listing
  | .value e, l => e.list l
  | .braces items, l => l.node "List" (Init.lists items)

def Init.lists : List Init → Listing → Listing
  | [], l => l
  | i :: rest, l => Init.lists rest (i.list l)

end

/-- A declaration is labelled by its type and all its names. -/
def Decl.label (d : Decl) : String :=
  "VarDecl " ++ d.type.label ++ " " ++ String.intercalate ", " (d.names.map (·.lexeme))

def Decl.list (d : Decl) (l : Listing) : Listing :=
  l.node d.label fun l =>
    let l := if d.dims.isEmpty then l else l.node "Dims" (Expr.lists d.dims)
    d.init.elim l fun init => l.node "Init" init.list

def Target.list (t : Target) (l : Listing) : Listing :=
  l.node ("Target " ++ t.name.lexeme) (Expr.lists t.indices)

def Assign.list (a : Assign) (l : Listing) : Listing :=
  l.node "Assign" fun l => a.target.list (a.value.list l)

/-- A block that is carried out under a condition. -/
def listArm (label : String) (condition : Expr) (body : Listing → Listing) (l : Listing) :
    Listing :=
  l.node label fun l => (condition.list l).node "Then" body

mutual

def Stmt.list : Stmt → Listing → Listing
  | .declare d, l => d.list l
  | .ret value, l => l.node "Return" value.list
  | .assign a, l => a.list l
  | .call c, l => l.node "CallStmt" c.expr.list
  | .branch condition body tail, l =>
    l.node "If" fun l => tail.list (listArm "Arm" condition (Stmt.lists body) l)
  | .rangeLoop var start stop body, l =>
    l.node ("For " ++ var.lexeme) fun l =>
      ((l.node "From" start.list).node "To" stop.list).node "Body" (Stmt.lists body)
  | .stepLoop init condition step body, l =>
    l.node "ForClassic" fun l =>
      (step.list (condition.list (init.list l))).node "Body" (Stmt.lists body)
  | .whileLoop condition body, l =>
    l.node "While" fun l => (condition.list l).node "Body" (Stmt.lists body)

def Stmt.lists : List Stmt → Listing → Listing
  | [], l => l
  | s :: rest, l => Stmt.lists rest (s.list l)

def Tail.list : Tail → Listing → Listing
  | .nothing, l => l
  | .otherwise body, l => l.node "Else" (Stmt.lists body)
  | .orIf condition body tail, l => tail.list (listArm "OrIf" condition (Stmt.lists body) l)

end

def Param.list (p : Param) (l : Listing) : Listing :=
  l.line ("Param " ++ p.name.lexeme ++ ": " ++ p.type.label)

def Func.list (f : Func) (l : Listing) : Listing :=
  l.node ("FuncDef " ++ f.name.lexeme ++ " -> " ++ f.returns.label) fun l =>
    (f.params.foldl (fun l p => p.list l) l).node "Body" (Stmt.lists f.body)

def Item.list : Item → Listing → Listing
  | .declare d, l => d.list l
  | .stmt s, l => s.list l
  | .func f, l => f.list l

def Program.list (p : Program) (l : Listing) : Listing :=
  l.node "Program" fun l => p.items.foldl (fun l i => i.list l) l

/-- Writes a program onto a cleared listing and hands out its text; the listing can be used
again. -/
def Listing.emit (p : Program) (l : Listing) : String × Listing :=
  let l := p.list { l with text := "", depth := 0 }
  (l.text, { l with text := "" })

end Jam
