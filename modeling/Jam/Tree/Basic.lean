import Jam.Token.Basic

/-!
The syntax tree of a program. It keeps the tokens that carry a choice of the author: names,
numbers, operators, the words of types and the keyword of each call. Punctuation and the other
keywords are implied by the shape of the tree.
-/
namespace Jam

inductive Expr where
  /-- A number. -/
  | literal (token : Token) (value : Int)
  | name (token : Token)
  /-- An element of an array, by one index for each dimension. -/
  | element (name : Token) (indices : List Expr)
  /-- An expression between parentheses. -/
  | group (inner : Expr)
  | call (keyword callee : Token) (args : List Expr)
  | binary (left : Expr) (op : Token) (right : Expr)

structure Call where
  keyword : Token
  callee : Token
  args : List Expr

def Call.expr (c : Call) : Expr := .call c.keyword c.callee c.args

inductive TypeKind where
  | scalar (s : Scalar)
  | void
deriving DecidableEq, Repr

def TypeKind.spelling : TypeKind → String
  | .scalar s => s.spelling
  | .void => "void"

structure TypeRef where
  kind : TypeKind
  /-- The word that names the type, unless it is left out. -/
  word : Option Token
  /-- The number of dimensions, none for a single value. -/
  rank : Nat
deriving DecidableEq, Repr

/-- The type of a function that names none. -/
def TypeRef.implicitVoid : TypeRef := ⟨.void, none, 0⟩

inductive Init where
  | value (e : Expr)
  | braces (items : List Init)

structure Decl where
  type : TypeRef
  dims : List Expr
  names : List Token
  /-- The first value of the first name. -/
  init : Option Init

structure Target where
  name : Token
  indices : List Expr

/-- A value flows from the left into a target on the right. -/
structure Assign where
  value : Expr
  target : Target

mutual

inductive Stmt where
  | declare (decl : Decl)
  | ret (value : Expr)
  | assign (assign : Assign)
  | call (call : Call)
  | branch (condition : Expr) (body : List Stmt) (tail : Tail)
  | rangeLoop (var : Token) (start stop : Expr) (body : List Stmt)
  | stepLoop (init : Decl) (condition : Expr) (step : Assign) (body : List Stmt)
  | whileLoop (condition : Expr) (body : List Stmt)

/-- What is tried when a condition does not hold. -/
inductive Tail where
  | nothing
  | otherwise (body : List Stmt)
  | orIf (condition : Expr) (body : List Stmt) (tail : Tail)

end

/-- The tail that tries further conditions in order and then does the last thing. -/
def Tail.ofArms (arms : List (Expr × List Stmt)) (last : Option (List Stmt)) : Tail :=
  arms.foldr (fun (condition, body) tail => .orIf condition body tail)
    (last.elim .nothing .otherwise)

structure Param where
  name : Token
  type : TypeRef

structure Func where
  name : Token
  params : List Param
  returns : TypeRef
  body : List Stmt

inductive Item where
  | declare (decl : Decl)
  | stmt (stmt : Stmt)
  | func (func : Func)

structure Program where
  items : List Item

end Jam
