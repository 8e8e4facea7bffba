/-!
A span is where a token stands in the source: its line and the columns of its first and last
character, all counted from one. Columns count characters, not bytes.
-/
namespace Jam

structure Span where
  line : Nat
  colStart : Nat
  colEnd : Nat
deriving DecidableEq, Repr

namespace Span

/-- A single column, as a line break and the end of the input have it. -/
def point (line column : Nat) : Span := ⟨line, column, column⟩

/-- The first column of the first line. -/
def origin : Span := point 1 1

/-- How many columns can be told apart: they are words of 64 bits. -/
def columnLimit : Nat := 0x10000000000000000

/-- The column just after a span, counted as a word. -/
def next (s : Span) : Span := point s.line ((s.colEnd + 1) % columnLimit)

/-- A span is written as its line and its first column. -/
def text (s : Span) : String := toString s.line ++ ":" ++ toString s.colStart

end Span
end Jam
