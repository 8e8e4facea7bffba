import Jam.Diagnostic
import Jam.Grammar.Statement

/-!
The grammar of functions and programs. A program is a sequence of functions, declarations and
statements other than `return`. Whatever sequence of tokens is given, it is a program up to its
first end of input, or it has a first fault.
-/
namespace Jam

namespace Grammar

open Jam.Parser

/-- `typeRef NAME` -/
def parameter : Parser Param := do
  let type ← typeRef
  let name ← name .parameterName
  return ⟨name, type⟩

/-- `[ "void" | typeRef ]` -/
def returnType : Parser TypeRef := do
  if let some word ← take? (.keyword .void) then return ⟨.void, some word, 0⟩
  else if ← nextIn typeWords then typeRef
  else return .implicitVoid

/-- `"func" returnType NAME "(" [ parameter ("," parameter)* ] ")" block` -/
def function : Parser Func := do
  let _ ← keyword .func .functionWord
  let returns ← returnType
  let name ← name .functionName
  let _ ← symbol .leftParen .parameterList
  let params ← listUntil .rightParen parameter
  let _ ← symbol .rightParen .parameterListEnd
  let body ← block .functionBody
  return ⟨name, params, returns, body⟩

/-- The kinds with which a statement outside all blocks can begin. -/
def outerStatementStarts : KindClass := fun k => statementStarts k && k != .keyword .return_

def item : Parser Item := do
  if ← nextIn (.keyword .func) then return .func (← function)
  else if ← nextIn typeWords then return .declare (← declaration)
  else if ← nextIn outerStatementStarts then return .stmt (← statement)
  else fail .item

/-- Items up to the last token. -/
def program : Parser Program := do
  let items ← many (ifNext (fun _ => true) item)
  return ⟨items⟩

end Grammar

/-- A fault with the token at which it was met, unless that is the end of the input. -/
structure SyntaxError where
  fault : SyntaxFault
  found : Option Token
  line : Nat
  column : Nat
deriving DecidableEq, Repr

def SyntaxError.diagnostic (e : SyntaxError) : Diagnostic :=
  ⟨.syntactic, e.fault.message, e.found.elim "end of input" (·.quotedLexeme), e.line, e.column⟩

namespace Token

/-- The tokens before the first end of input. -/
def beforeEnd (ts : List Token) : List Token := ts.takeWhile (·.kind != .endOfInput)

/-- Where the input ends: at its first end of input, or just after its last token. -/
def endSpan (ts : List Token) : Span :=
  match ts.find? (·.kind == .endOfInput) with
  | some t => t.span
  | none => ts.getLast?.elim .origin (·.span.next)

end Token

/-- A failure is reported at the first of the remaining tokens, or at the end of the input. -/
def Failure.error (f : Failure) (endSpan : Span) : SyntaxError :=
  let span := f.rest.head?.elim endSpan (·.span)
  ⟨f.fault, f.rest.head?, span.line, span.colStart⟩

/-- The program that a sequence of tokens spells, or its first syntax error. Any sequence will do:
an end of input that is missing is supplied. -/
def Program.ofTokens (ts : List Token) : Except SyntaxError Program :=
  match Grammar.program (Token.beforeEnd ts) with
  | .ok (p, _) => .ok p
  | .error f => .error (f.error (Token.endSpan ts))

end Jam
