/-!
The kinds of token. Symbols and keywords have one fixed spelling each; numbers and names are
told apart by their characters; line breaks and the end of the input are tokens as well.
Every kind has a label in capitals, by which tables and listings refer to it.
-/
namespace Jam

inductive Symbol where
  | leftParen | rightParen | leftBrace | rightBrace | leftBracket | rightBracket
  | comma | semicolon | colon
  | plus | minus | star | slash | percent | increment
  | less | lessEqual | greater | greaterEqual
  | assign | equal | notEqual | bang | ampersands
deriving DecidableEq, Repr

/-- The types of values. -/
inductive Scalar where
  | int | float | char | string | bool
deriving DecidableEq, Repr

inductive Keyword where
  | scalar (s : Scalar)
  | void | array | func | call | return_ | if_ | or_ | else_ | for_ | moves | from_ | to_ | while_
deriving DecidableEq, Repr

inductive TokenKind where
  | symbol (s : Symbol)
  | keyword (k : Keyword)
  | number
  | name
  | newline
  | endOfInput
deriving DecidableEq, Repr

namespace Symbol

def all : List Symbol :=
  [leftParen, rightParen, leftBrace, rightBrace, leftBracket, rightBracket, comma, semicolon, colon,
    plus, minus, star, slash, percent, increment, less, lessEqual, greater, greaterEqual,
    assign, equal, notEqual, bang, ampersands]

def spelling : Symbol → String
  | leftParen => "("
  | rightParen => ")"
  | leftBrace => "\x7b"
  | rightBrace => "\x7d"
  | leftBracket => "["
  | rightBracket => "]"
  | comma => ","
  | semicolon => ";"
  | colon => ":"
  | plus => "+"
  | minus => "-"
  | star => "*"
  | slash => "/"
  | percent => "%"
  | increment => "++"
  | less => "<"
  | lessEqual => "<="
  | greater => ">"
  | greaterEqual => ">="
  | assign => "="
  | equal => "=="
  | notEqual => "!="
  | bang => "!"
  | ampersands => "&&"

def label : Symbol → String
  | leftParen => "LPAREN"
  | rightParen => "RPAREN"
  | leftBrace => "LBRACE"
  | rightBrace => "RBRACE"
  | leftBracket => "LBRACKET"
  | rightBracket => "RBRACKET"
  | comma => "COMMA"
  | semicolon => "SEMICOLON"
  | colon => "COLON"
  | plus => "ADD"
  | minus => "SUBTRACT"
  | star => "MULTIPLY"
  | slash => "DIVIDE"
  | percent => "PERCENT"
  | increment => "INC"
  | less => "LT"
  | lessEqual => "LE"
  | greater => "GT"
  | greaterEqual => "GE"
  | assign => "ASSIGN"
  | equal => "EQ"
  | notEqual => "NEQ"
  | bang => "NOT"
  | ampersands => "AND"

/-- The symbol with exactly this spelling. -/
def ofSpelling? (text : String) : Option Symbol := all.find? (·.spelling == text)

/-- The operators that make one value of two. -/
def isArithmetic : Symbol → Bool
  | plus | minus | star | slash | percent => true
  | _ => false

/-- The operators that compare two values. -/
def isRelational : Symbol → Bool
  | less | lessEqual | greater | greaterEqual | equal | notEqual => true
  | _ => false

theorem mem_all (s : Symbol) : s ∈ all := by cases s <;> decide

/-- Symbols are told apart by their spellings. -/
theorem spelling_injective {s t : Symbol} (h : s.spelling = t.spelling) : s = t :=
  (by decide : ∀ s ∈ all, ∀ t ∈ all, s.spelling = t.spelling → s = t)
    s (mem_all s) t (mem_all t) h

theorem ofSpelling?_eq_some_iff {text : String} {s : Symbol} :
    ofSpelling? text = some s ↔ s.spelling = text := by
  constructor
  · intro h
    simpa using List.find?_some h
  · rintro rfl
    cases s <;> rfl

end Symbol

namespace Scalar

def all : List Scalar := [int, float, char, string, bool]

def spelling : Scalar → String
  | int => "int"
  | float => "float"
  | char => "char"
  | string => "string"
  | bool => "bool"

end Scalar

namespace Keyword

def all : List Keyword :=
  Scalar.all.map scalar ++
    [void, array, func, call, return_, if_, or_, else_, for_, moves, from_, to_, while_]

def spelling : Keyword → String
  | scalar s => s.spelling
  | void => "void"
  | array => "array"
  | func => "func"
  | call => "call"
  | return_ => "return"
  | if_ => "if"
  | or_ => "or"
  | else_ => "else"
  | for_ => "for"
  | moves => "moves"
  | from_ => "from"
  | to_ => "to"
  | while_ => "while"

/-- A keyword is labelled by its spelling in capitals. -/
def label (k : Keyword) : String := String.ofList (k.spelling.toList.map Char.toUpper)

/-- The keyword with exactly this spelling; capitals make a different word. -/
def ofSpelling? (text : String) : Option Keyword := all.find? (·.spelling == text)

theorem mem_all (k : Keyword) : k ∈ all := by
  cases k with
  | scalar s => cases s <;> decide
  | _ => decide

/-- Keywords are told apart by their spellings. -/
theorem spelling_injective {k l : Keyword} (h : k.spelling = l.spelling) : k = l :=
  (by decide : ∀ k ∈ all, ∀ l ∈ all, k.spelling = l.spelling → k = l)
    k (mem_all k) l (mem_all l) h

theorem ofSpelling?_eq_some_iff {text : String} {k : Keyword} :
    ofSpelling? text = some k ↔ k.spelling = text := by
  constructor
  · intro h
    simpa using List.find?_some h
  · rintro rfl
    exact (by decide : ∀ k ∈ all, ofSpelling? k.spelling = some k) k (mem_all k)

end Keyword

namespace TokenKind

def all : List TokenKind :=
  Symbol.all.map symbol ++ Keyword.all.map keyword ++ [number, name, newline, endOfInput]

def label : TokenKind → String
  | symbol s => s.label
  | keyword k => k.label
  | number => "INT_LIT"
  | name => "IDENT"
  | newline => "NEWLINE"
  | endOfInput => "EOF"

def ofLabel? (text : String) : Option TokenKind := all.find? (·.label == text)

/-- Whether the kind names a type of values; `void` does not. -/
def isScalar : TokenKind → Bool
  | keyword (.scalar _) => true
  | _ => false

end TokenKind
end Jam
