/-!
A cursor reads a text one character at a time. It knows where it stands and where the token being
read began, and it keeps the characters read since then. It gives no meaning to characters.
-/
namespace Jam

/-- A place before a character: the bytes before it, and its line and column, counted from one. -/
structure Place where
  offset : Nat
  line : Nat
  column : Nat
deriving DecidableEq, Repr

namespace Place

def start : Place := ⟨0, 1, 1⟩

/-- The place after one more character. A line feed begins a new line. -/
def after (p : Place) (c : Char) : Place :=
  if c = '\n' then ⟨p.offset + c.utf8Size, p.line + 1, 1⟩
  else ⟨p.offset + c.utf8Size, p.line, p.column + 1⟩

def afterAll (p : Place) (text : List Char) : Place := text.foldl after p

end Place

structure Cursor where
  /-- The characters still to be read. -/
  rest : List Char
  /-- The characters read since the mark, the latest first. -/
  taken : List Char
  /-- Where the token being read began. -/
  mark : Place
  here : Place
deriving Repr

namespace Cursor

def ofText (text : List Char) : Cursor := ⟨text, [], .start, .start⟩

def isAtEnd (c : Cursor) : Bool := c.rest.isEmpty

/-- The next character, or NUL past the end. -/
def peek (c : Cursor) : Char := c.rest.headD '\x00'

/-- The character after the next one, or NUL past the end. -/
def peekNext (c : Cursor) : Char := c.rest.tail.headD '\x00'

/-- Reads one character; there is none at the end. -/
def advance (c : Cursor) : Option (Char × Cursor) :=
  match c.rest with
  | [] => none
  | x :: rest => some (x, ⟨rest, x :: c.taken, c.mark, c.here.after x⟩)

/-- Reads the next character only if it is the expected one. -/
def accept (expected : Char) (c : Cursor) : Bool × Cursor :=
  match c.advance with
  | some (x, next) => if x = expected then (true, next) else (false, c)
  | none => (false, c)

/-- Reads characters as long as they belong to a class. -/
def readWhile (inClass : Char → Bool) (c : Cursor) : Cursor :=
  let run := c.rest.takeWhile inClass
  ⟨c.rest.dropWhile inClass, run.reverse ++ c.taken, c.mark, c.here.afterAll run⟩

/-- Sets the mark: a token begins here. -/
def begin (c : Cursor) : Cursor := { c with taken := [], mark := c.here }

/-- The characters from the mark up to here. -/
def lexeme (c : Cursor) : List Char := c.taken.reverse

/-- One use of a cursor. -/
inductive Move where
  | advance
  | peek
  | peekNext
  | accept (expected : Char)
  | begin
  | lexeme
  | isAtEnd
deriving DecidableEq, Repr

/-- What a use of a cursor tells. -/
inductive Answer where
  | none
  | char (c : Char)
  | flag (b : Bool)
  | text (s : List Char)
deriving DecidableEq, Repr

def move (c : Cursor) : Move → Answer × Cursor
  | .advance =>
    match c.advance with
    | some (x, next) => (.char x, next)
    | none => (.none, c)
  | .peek => (.char c.peek, c)
  | .peekNext => (.char c.peekNext, c)
  | .accept expected =>
    let (matched, next) := c.accept expected
    (.flag matched, next)
  | .begin => (.none, c.begin)
  | .lexeme => (.text c.lexeme, c)
  | .isAtEnd => (.flag c.isAtEnd, c)

end Cursor
end Jam
