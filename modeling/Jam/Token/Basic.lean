import Jam.Source.Span
import Jam.Token.Kind

/-!
A token is a piece of the source: its kind, the characters it was written with, its value if it
is a number, and where it stands.
-/
namespace Jam

structure Token where
  kind : TokenKind
  lexeme : String
  literal : Option Int
  span : Span
deriving DecidableEq, Repr

namespace Token

/-- The end of the input is written with no characters. -/
def endOfInput (span : Span) : Token := ⟨.endOfInput, "", none, span⟩

/-- Line breaks and NUL are shown by their escapes, other characters as they are. -/
def visible : Char → List Char
  | '\n' => ['\\', 'n']
  | '\x00' => ['\\', '0']
  | c => [c]

def escapedLexeme (t : Token) : String := String.ofList (t.lexeme.toList.flatMap visible)

/-- The lexeme between single quotes. -/
def quotedLexeme (t : Token) : String := "'" ++ t.escapedLexeme ++ "'"

/-- A token is described by its label, its lexeme and the place where it begins. -/
def text (t : Token) : String :=
  t.kind.label ++ " " ++ t.quotedLexeme ++ " at line: " ++ toString t.span.line ++
    ", column: " ++ toString t.span.colStart

/-- The tokens that are not line breaks. -/
def withoutNewlines (ts : List Token) : List Token := ts.filter (·.kind != .newline)

theorem withoutNewlines_append (ts us : List Token) :
    withoutNewlines (ts ++ us) = withoutNewlines ts ++ withoutNewlines us :=
  List.filter_append ..

/-- The end of the input is no line break. -/
theorem withoutNewlines_concat_end (ts : List Token) (s : Span) :
    withoutNewlines (ts ++ [endOfInput s]) = withoutNewlines ts ++ [endOfInput s] :=
  withoutNewlines_append ts [endOfInput s]

end Token
end Jam
