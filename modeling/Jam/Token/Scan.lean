import Jam.Diagnostic
import Jam.Source.Cursor
import Jam.Text.Alphabetic
import Jam.Text.Numeric
import Jam.Token.Basic

/-!
Scanning cuts a source text into tokens. Blanks are skipped; at each other character the longest
token that can begin there is taken. Line breaks are tokens, and the end of the input is the last
one. The first character at which no token can be completed stops the scan.
-/
namespace Jam

inductive LexicalFault where
  | loneAmpersand
  | letterAfterNumber
  | numberOutOfRange
  | unrecognizedCharacter
deriving DecidableEq, Repr

namespace LexicalFault

def message : LexicalFault → String
  | loneAmpersand => "lone '&', expected '&&'"
  | letterAfterNumber => "letter directly after integer literal"
  | numberOutOfRange => "integer literal out of range"
  | unrecognizedCharacter => "unrecognized character"

end LexicalFault

/-- A fault with the characters read when it was met and the place where they begin. -/
structure LexicalError where
  fault : LexicalFault
  snippet : String
  line : Nat
  column : Nat
deriving DecidableEq, Repr

def LexicalError.diagnostic (e : LexicalError) : Diagnostic :=
  ⟨.lexical, e.fault.message, e.snippet, e.line, e.column⟩

namespace Text

/-- The characters between tokens. -/
def isBlank (c : Char) : Bool := c = ' ' || c = '\t' || c = '\r'

def isNameStart (c : Char) : Bool := isAlphabetic c || c = '_'

def isNamePart (c : Char) : Bool := isAlphabetic c || isNumeric c || c = '_'

end Text

open Text

namespace Cursor

/-- The token made of the characters since the mark. -/
def token (c : Cursor) (kind : TokenKind) (literal : Option Int) : Token :=
  ⟨kind, String.ofList c.lexeme, literal, ⟨c.mark.line, c.mark.column, c.here.column - 1⟩⟩

def error (c : Cursor) (fault : LexicalFault) : LexicalError :=
  ⟨fault, String.ofList c.lexeme, c.mark.line, c.mark.column⟩

/-- A line break ends its line, so its columns cannot be told from where the cursor stands. -/
def newlineToken (c : Cursor) : Token :=
  ⟨.newline, String.ofList c.lexeme, none, .point c.mark.line c.mark.column⟩

def endToken (c : Cursor) : Token := .endOfInput (.point c.here.line c.here.column)

/-- The values of numbers are below this: they fit a signed word of 64 bits. -/
def numberLimit : Nat := 0x8000000000000000

/-- Completes a run of digits. -/
def scanNumber (c : Cursor) : Except LexicalError (Token × Cursor) :=
  let c := c.readWhile Char.isDigit
  let value := Nat.ofDigitChars 10 c.lexeme 0
  if isAlphabetic c.peek then .error (c.error .letterAfterNumber)
  else if value < numberLimit then .ok (c.token .number (some value), c)
  else .error (c.error .numberOutOfRange)

/-- Completes a word: a keyword if it is spelled as one, and otherwise a name. -/
def scanWord (c : Cursor) : Token × Cursor :=
  let c := c.readWhile isNamePart
  let kind := (Keyword.ofSpelling? (String.ofList c.lexeme)).elim .name .keyword
  (c.token kind none, c)

/-- The longest symbol that begins with the character just read. -/
def longestSymbol? (first : Char) (c : Cursor) : Option (Symbol × Cursor) :=
  let double := do
    let (second, next) ← c.advance
    let s ← Symbol.ofSpelling? (String.ofList [first, second])
    return (s, next)
  let single := (Symbol.ofSpelling? (String.ofList [first])).map (·, c)
  double <|> single

def scanSymbol (first : Char) (c : Cursor) : Except LexicalError (Token × Cursor) :=
  match c.longestSymbol? first with
  | some (s, next) => .ok (next.token (.symbol s) none, next)
  | none =>
    .error (c.error (if first = '&' then .loneAmpersand else .unrecognizedCharacter))

/-- Reads a blank or one token, from the mark on. -/
def scanOne (c : Cursor) : Except LexicalError (Option Token × Cursor) :=
  match c.advance with
  | none => .ok (none, c)
  | some (first, c) =>
    if isBlank first then .ok (none, c)
    else if first = '\n' then .ok (some c.newlineToken, c)
    else if first.isDigit then c.scanNumber.map fun (t, c) => (some t, c)
    else if isNameStart first then
      let (t, c) := c.scanWord
      .ok (some t, c)
    else (c.scanSymbol first).map fun (t, c) => (some t, c)

/-- Scans in at most so many rounds. Each round reads a character, so a text needs no more rounds
than it has characters. -/
def scanUpTo : Nat → Cursor → Except LexicalError (List Token)
  | 0, c => .ok [c.endToken]
  | rounds + 1, c =>
    if c.isAtEnd then .ok [c.endToken]
    else do
      let (token?, c) ← c.begin.scanOne
      let tokens ← scanUpTo rounds c
      return token?.toList ++ tokens

end Cursor

/-- All tokens of a source text, or its first lexical error. -/
def tokenize (source : String) : Except LexicalError (List Token) :=
  Cursor.scanUpTo source.toList.length (.ofText source.toList)

end Jam
