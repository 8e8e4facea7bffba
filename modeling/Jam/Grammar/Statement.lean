import Jam.Grammar.Declaration

/-!
The grammar of statements. Statements nest in blocks; as for expressions, each rule is stated for
a given parser of the nested statements.
-/
namespace Jam.Grammar

open Jam.Parser

/-- The kinds with which an operation can begin. -/
def operationStarts : KindClass := [.number, .name, .symbol .leftParen].contains

/-- The keywords with which a statement other than a declaration can begin. -/
def statementWords : KindClass :=
  [.keyword .return_, .keyword .call, .keyword .if_, .keyword .for_, .keyword .while_].contains

/-- The kinds with which a statement can begin. -/
def statementStarts : KindClass := fun k => typeWords k || statementWords k || operationStarts k

/-- `"{" statement* "}"` -/
def blockWith (nested : Parser Stmt) (fault : SyntaxFault) : Parser (List Stmt) := do
  let _ ← symbol .leftBrace fault
  let body ← many (ifNext statementStarts nested)
  let _ ← symbol .rightBrace .blockEnd
  return body

/-- `"return" expression ";"` -/
def returnStmt : Parser Stmt := do
  let _ ← keyword .return_ .returnWord
  let value ← expression
  let _ ← symbol .semicolon .returnEnd
  return .ret value

/-- `NAME indices` -/
def target : Parser Target := do
  let name ← name .assignTarget
  return ⟨name, ← indices⟩

/-- `operation "=" target` -/
def assignment : Parser Assign := do
  let value ← operation
  let _ ← symbol .assign .assignSign
  return ⟨value, ← target⟩

/-- `assignment ";"` -/
def assignStmt : Parser Stmt := do
  let assign ← assignment
  let _ ← symbol .semicolon .assignmentEnd
  return .assign assign

/-- `call [ "=" target ] ";"` -/
def callStmt : Parser Stmt := do
  let call ← call
  match ← led (.symbol .assign) target with
  | some target =>
    let _ ← symbol .semicolon .assignmentEnd
    return .assign ⟨call.expr, target⟩
  | none =>
    let _ ← symbol .semicolon .callEnd
    return .call call

/-- `"(" condition ")" block` -/
def armWith (nested : Parser Stmt) : Parser (Expr × List Stmt) := do
  let _ ← symbol .leftParen .ifCondition
  let condition ← condition
  let _ ← symbol .rightParen .conditionEnd
  let body ← blockWith nested .ifBody
  return (condition, body)

/-- `"if" arm ( "or" "if" arm )* [ "else" block ]` -/
def ifWith (nested : Parser Stmt) : Parser Stmt := do
  let _ ← keyword .if_ .ifWord
  let (condition, body) ← armWith nested
  let others ← many <| led (.keyword .or_) do
    let _ ← keyword .if_ .ifAfterOr
    armWith nested
  let last ← led (.keyword .else_) (blockWith nested .elseBody)
  return .branch condition body (.ofArms others last)

/-- `NAME "moves" "from" expression "to" expression ")" block` -/
def rangeLoopWith (nested : Parser Stmt) : Parser Stmt := do
  let var ← name .loopVariable
  let _ ← keyword .moves .movesWord
  let _ ← keyword .from_ .fromWord
  let start ← expression
  let _ ← keyword .to_ .toWord
  let stop ← expression
  let _ ← symbol .rightParen .rangeEnd
  let body ← blockWith nested .loopBody
  return .rangeLoop var start stop body

/-- `call "=" target` | `assignment` -/
def step : Parser Assign := do
  if ← nextIn (.keyword .call) then
    let call ← call
    let _ ← symbol .assign .stepAssignSign
    return ⟨call.expr, ← target⟩
  else assignment

/-- `declaration condition ";" step ")" block` -/
def stepLoopWith (nested : Parser Stmt) : Parser Stmt := do
  let init ← declaration
  let condition ← condition
  let _ ← symbol .semicolon .loopConditionEnd
  let step ← step
  let _ ← symbol .rightParen .stepEnd
  let body ← blockWith nested .loopBody
  return .stepLoop init condition step body

/-- `"for" "(" rangeLoop` | `"for" "(" stepLoop` -/
def forWith (nested : Parser Stmt) : Parser Stmt := do
  let _ ← keyword .for_ .forWord
  let _ ← symbol .leftParen .forHeader
  if ← nextIn .name then rangeLoopWith nested
  else if ← nextIn typeWords then stepLoopWith nested
  else fail .loopStart

/-- `"while" "(" condition ")" block` -/
def whileLoopWith (nested : Parser Stmt) : Parser Stmt := do
  let _ ← keyword .while_ .whileWord
  let _ ← symbol .leftParen .whileCondition
  let condition ← condition
  let _ ← symbol .rightParen .conditionEnd
  let body ← blockWith nested .loopBody
  return .whileLoop condition body

def statementWith (nested : Parser Stmt) : Parser Stmt := do
  if ← nextIn typeWords then return .declare (← declaration)
  else if ← nextIn (.keyword .return_) then returnStmt
  else if ← nextIn (.keyword .call) then callStmt
  else if ← nextIn (.keyword .if_) then ifWith nested
  else if ← nextIn (.keyword .for_) then forWith nested
  else if ← nextIn (.keyword .while_) then whileLoopWith nested
  else if ← nextIn operationStarts then assignStmt
  else fail .statement

/-- Statements nested at most as deep as a list is long. With no depth left, none can begin. -/
def statementWithin : List Token → Parser Stmt
  | [] => fail .statement
  | _ :: depth => statementWith (statementWithin depth)

def statement : Parser Stmt := fun ts => statementWithin ts ts

def block (fault : SyntaxFault) : Parser (List Stmt) := blockWith statement fault

end Jam.Grammar
