import Jam.Json.Value
import Jam.Tree.Basic

/-!
Programs as JSON. Every node is an object that tells its sort, its parts and, for functions,
calls, names and numbers, where it stands. Fields are listed in ascending order of their keys.
-/
namespace Jam

/-- A position is the line and the first and last column. -/
def Span.json (s : Span) : Json := .array [.number s.line, .number s.colStart, .number s.colEnd]

def Token.json (t : Token) : Json := .string t.lexeme

/-- A type is told by its word, as it was written. -/
def TypeRef.json (t : TypeRef) : Json :=
  .object [("base", t.word.elim (.string "implicit void") (·.json)), ("rank", .number t.rank)]

mutual

def Expr.json : Expr → Json
  | .literal t value =>
    .object [("pos", t.span.json), ("type", .string "literal"), ("value", .number value)]
  | .name t => .object [("name", t.json), ("pos", t.span.json), ("type", .string "ident")]
  | .element t indices =>
    .object [("indices", .array (Expr.jsons indices)), ("name", t.json), ("pos", t.span.json),
      ("type", .string "index")]
  | .group inner => .object [("expr", inner.json), ("type", .string "group")]
  | .call keyword callee args =>
    .object [("args", .array (Expr.jsons args)), ("name", callee.json),
      ("pos", keyword.span.json), ("type", .string "call")]
  | .binary left op right =>
    .object [("left", left.json), ("op", op.json), ("right", right.json),
      ("type", .string "binary")]

def Expr.jsons : List Expr → List Json
  | [] => []
  | e :: rest => e.json :: Expr.jsons rest

end

mutual

def Init.json : Init → Json
  | .value e => e.json
  | .braces items => .array (Init.jsons items)

def Init.jsons : List Init → List Json
  | [] => []
  | i :: rest => i.json :: Init.jsons rest

end

def Decl.json (d : Decl) : Json :=
  .object [("dims", .array (Expr.jsons d.dims)), ("init", d.init.elim .null (·.json)),
    ("names", .array (d.names.map (·.json))), ("stmt", .string "varDecl"), ("type", d.type.json)]

def Target.json (t : Target) : Json :=
  .object [("indices", .array (Expr.jsons t.indices)), ("name", t.name.json)]

def Assign.json (a : Assign) : Json :=
  .object [("left", a.value.json), ("lvalue", a.target.json), ("stmt", .string "assign")]

/-- A block that is carried out under a condition. -/
def armJson (condition : Expr) (body : List Json) : Json :=
  .object [("block", .array body), ("cond", condition.json)]

mutual

def Stmt.json : Stmt → Json
  | .declare d => d.json
  | .ret value => .object [("expr", value.json), ("stmt", .string "return")]
  | .assign a => a.json
  | .call c => .object [("call", c.expr.json), ("stmt", .string "call")]
  | .branch condition body tail =>
    .object [("else", tail.lastJson), ("if", armJson condition (Stmt.jsons body)),
      ("or_if", .array tail.armJsons), ("stmt", .string "begin_if")]
  | .rangeLoop var start stop body =>
    .object [("body", .array (Stmt.jsons body)), ("from", start.json),
      ("stmt", .string "begin_for"), ("to", stop.json), ("var", var.json)]
  | .stepLoop init condition step body =>
    .object [("body", .array (Stmt.jsons body)), ("cond", condition.json), ("init", init.json),
      ("step", step.json), ("stmt", .string "begin_for_classic")]
  | .whileLoop condition body =>
    .object [("body", .array (Stmt.jsons body)), ("cond", condition.json),
      ("stmt", .string "begin_while")]

def Stmt.jsons : List Stmt → List Json
  | [] => []
  | s :: rest => s.json :: Stmt.jsons rest

/-- The further conditions with their blocks. -/
def Tail.armJsons : Tail → List Json
  | .nothing => []
  | .otherwise _ => []
  | .orIf condition body tail => armJson condition (Stmt.jsons body) :: tail.armJsons

/-- The block for the case that no condition holds. -/
def Tail.lastJson : Tail → Json
  | .nothing => .null
  | .otherwise body => .array (Stmt.jsons body)
  | .orIf _ _ tail => tail.lastJson

end

def Param.json (p : Param) : Json := .object [("name", p.name.json), ("type", p.type.json)]

def Func.json (f : Func) : Json :=
  .object [("body", .array (Stmt.jsons f.body)), ("kind", .string "funcDef"),
    ("name", f.name.json), ("params", .array (f.params.map (·.json))), ("pos", f.name.span.json),
    ("returnType", f.returns.json)]

def Item.json : Item → Json
  | .declare d => .object [("decl", d.json), ("kind", .string "topVarDecl")]
  | .stmt s => .object [("kind", .string "topStmt"), ("stmt", s.json)]
  | .func f => f.json

def Program.json (p : Program) : Json :=
  .object [("items", .array (p.items.map (·.json))), ("type", .string "program")]

end Jam
