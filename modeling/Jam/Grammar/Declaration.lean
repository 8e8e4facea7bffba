import Jam.Grammar.Expression

/-!
The grammar of types and declarations. The word `array` announces one pair of brackets for each
dimension, and an initializer has as many levels of braces as its variable has dimensions.
-/
namespace Jam.Grammar

open Jam.Parser

/-- The words for types of values. -/
def scalarWords : KindClass := TokenKind.isScalar

/-- The words with which a type, and so a declaration, can begin. -/
def typeWords : KindClass := fun k => k.isScalar || k == .keyword .array

/-- The type that a word stands for. -/
def typeKind : TokenKind → TypeKind
  | .keyword (.scalar s) => .scalar s
  | _ => .scalar .int

/-- `[ "array" ] scalar`, then for an array one or more bracketed parts. -/
def arrayOrScalar {α : Type} (bracketed : Parser α) : Parser (Token × List α) := do
  let array ← take? (.keyword .array)
  let word ← expect scalarWords .typeName
  match array with
  | some _ => return (word, ← oneOrMore (.symbol .leftBracket) bracketed)
  | none => return (word, [])

/-- `[ "array" ] scalar ( "[" "]" )*` -/
def typeRef : Parser TypeRef := do
  let (word, brackets) ← arrayOrScalar do
    let _ ← symbol .leftBracket .arrayBracket
    symbol .rightBracket .arrayTypeBracketEnd
  return ⟨typeKind word.kind, some word, brackets.length⟩

/-- `expression`, or with a dimension to go `"{" initializer ("," initializer)* "}"` -/
def initializer : Nat → Parser Init
  | 0 => return .value (← expression)
  | dims + 1 => do
    let _ ← symbol .leftBrace .initializerStart
    let items ← commaSeparated (initializer dims)
    let _ ← symbol .rightBrace .initializerEnd
    return .braces items

/-- `[ "array" ] scalar ( "[" expression "]" )* NAME [ "=" initializer ] ("," NAME)* ";"` -/
def declaration : Parser Decl := do
  let (word, dims) ← arrayOrScalar do
    let _ ← symbol .leftBracket .arrayBracket
    let size ← expression
    let _ ← symbol .rightBracket .dimensionEnd
    return size
  let first ← name .variableName
  let init ← led (.symbol .assign) (initializer dims.length)
  let others ← many (led (.symbol .comma) (name .furtherVariableName))
  let _ ← symbol .semicolon .declarationEnd
  return ⟨⟨typeKind word.kind, some word, dims.length⟩, dims, first :: others, init⟩

end Jam.Grammar
