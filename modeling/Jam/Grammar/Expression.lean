import Jam.Grammar.Parser
import Jam.Tree.Basic

/-!
The grammar of expressions. An expression is a call, or one atom, or two atoms with an arithmetic
operator between them; longer chains need parentheses, and a call is no operand. A condition
compares two expressions.

Expressions nest in indices, arguments and parentheses. Each rule is stated for a given parser of
the nested expressions, and `expression` closes the circle: what is nested is shorter, so as many
levels as there are tokens are enough.
-/
namespace Jam.Grammar

open Jam.Parser

/-- `( "[" expression "]" )*` -/
def indicesWith (nested : Parser Expr) : Parser (List Expr) :=
  many <| led (.symbol .leftBracket) do
    let index ← nested
    let _ ← symbol .rightBracket .indexEnd
    return index

/-- `"call" NAME "(" [ expression ("," expression)* ] ")"` -/
def callWith (nested : Parser Expr) : Parser Call := do
  let word ← keyword .call .callWord
  let callee ← name .calleeName
  let _ ← symbol .leftParen .parameterList
  let args ← listUntil .rightParen nested
  let _ ← symbol .rightParen .argumentListEnd
  return ⟨word, callee, args⟩

/-- `NUMBER` | `NAME indices` | `"(" expression ")"` -/
def atomWith (nested : Parser Expr) : Parser Expr := do
  if let some t ← take? .number then
    match t.literal with
    | some value => return .literal t value
    | none => failAt t .numberValue
  else if let some t ← take? .name then
    let indices ← indicesWith nested
    return if indices.isEmpty then .name t else .element t indices
  else if let some _ ← take? (.symbol .leftParen) then
    let inner ← nested
    let _ ← symbol .rightParen .groupEnd
    return .group inner
  else fail .expression

/-- `atom [ arithmetic-operator atom ]` -/
def operationWith (nested : Parser Expr) : Parser Expr := do
  let left ← atomWith nested
  if let some op ← take? .arithmetic then
    let right ← atomWith nested
    if ← nextIn .arithmetic then fail .chainedOperators
    else return .binary left op right
  else return left

/-- `call` | `operation` -/
def expressionWith (nested : Parser Expr) : Parser Expr := do
  if ← nextIn (.keyword .call) then
    let call ← callWith nested
    if ← nextIn .arithmetic then fail .callOperand
    else return call.expr
  else operationWith nested

/-- Expressions nested at most as deep as a list is long. With no depth left, none can begin. -/
def expressionWithin : List Token → Parser Expr
  | [] => fail .expression
  | _ :: depth => expressionWith (expressionWithin depth)

def expression : Parser Expr := fun ts => expressionWithin ts ts

def indices : Parser (List Expr) := indicesWith expression

def call : Parser Call := callWith expression

def operation : Parser Expr := operationWith expression

/-- `expression relational-operator expression` -/
def condition : Parser Expr := do
  let left ← expression
  let op ← expect .relational .relation
  let right ← expression
  return .binary left op right

end Jam.Grammar
