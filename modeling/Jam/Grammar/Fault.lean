/-!
The reasons for which a sequence of tokens is no program.
-/
namespace Jam

inductive SyntaxFault where
  | item
  | functionWord | functionName | parameterList | parameterListEnd | functionBody | parameterName
  | typeName | arrayBracket | arrayTypeBracketEnd | dimensionEnd
  | variableName | furtherVariableName | declarationEnd | initializerStart | initializerEnd
  | statement | blockEnd | assignmentEnd | returnWord | returnEnd | callEnd
  | assignSign | assignTarget
  | ifWord | ifAfterOr | elseBody | ifCondition | conditionEnd | ifBody
  | forWord | forHeader | loopStart | loopVariable | movesWord | fromWord | toWord | rangeEnd
  | loopConditionEnd | stepAssignSign | stepEnd | whileWord | whileCondition | loopBody
  | relation | callOperand | chainedOperators | numberValue | groupEnd | expression
  | callWord | calleeName | argumentListEnd | indexEnd
deriving DecidableEq, Repr

def SyntaxFault.message : SyntaxFault → String
  | item => "expected declaration or statement"
  | functionWord => "expected 'func'"
  | functionName => "expected function name"
  | parameterList => "expected '(' after function name"
  | parameterListEnd => "expected ')' after parameters"
  | functionBody => "expected '\x7b' before function body"
  | parameterName => "expected parameter name"
  | typeName => "expected type name"
  | arrayBracket => "expected '[' after array element type"
  | arrayTypeBracketEnd => "expected ']' in array type"
  | dimensionEnd => "expected ']' after array dimension"
  | variableName => "expected variable name"
  | furtherVariableName => "expected variable name after ','"
  | declarationEnd => "expected ';' after declaration"
  | initializerStart => "expected '\x7b' to open array initializer"
  | initializerEnd => "expected '\x7d' to close array initializer"
  | statement => "expected statement"
  | blockEnd => "expected '\x7d' to close block"
  | assignmentEnd => "expected ';' after assignment"
  | returnWord => "expected 'return'"
  | returnEnd => "expected ';' after return value"
  | callEnd => "expected ';' after call"
  | assignSign => "expected '=' after expression"
  | assignTarget => "expected assignment target"
  | ifWord => "expected 'if'"
  | ifAfterOr => "expected 'if' after 'or'"
  | elseBody => "expected '\x7b' after 'else'"
  | ifCondition => "expected '(' after 'if'"
  | conditionEnd => "expected ')' after condition"
  | ifBody => "expected '\x7b' before if body"
  | forWord => "expected 'for'"
  | forHeader => "expected '(' after 'for'"
  | loopStart => "expected loop variable or declaration after '('"
  | loopVariable => "expected loop variable"
  | movesWord => "expected 'moves' after loop variable"
  | fromWord => "expected 'from' after 'moves'"
  | toWord => "expected 'to' after start bound"
  | rangeEnd => "expected ')' after loop range"
  | loopConditionEnd => "expected ';' after loop condition"
  | stepAssignSign => "expected '=' after call in loop step"
  | stepEnd => "expected ')' after loop step"
  | whileWord => "expected 'while'"
  | whileCondition => "expected '(' after 'while'"
  | loopBody => "expected '\x7b' before loop body"
  | relation => "expected relational operator"
  | callOperand => "a call cannot be an arithmetic operand"
  | chainedOperators => "chained arithmetic operators need parentheses"
  | numberValue => "integer literal without a value"
  | groupEnd => "expected ')' after expression"
  | expression => "expected expression"
  | callWord => "expected 'call'"
  | calleeName => "expected function name after 'call'"
  | argumentListEnd => "expected ')' after arguments"
  | indexEnd => "expected ']' after index"

end Jam
