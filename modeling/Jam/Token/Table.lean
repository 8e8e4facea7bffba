import Jam.Token.Basic

/-!
The token table: a header and one row for each token, between lines of dashes. Every row has the
same five columns, so all lines are equally long.
-/
namespace Jam.Token.Table

/-- Text in the middle of a cell. The smaller half of the room is to its left; text that has none
is cut to the width. -/
def center (text : List Char) (width : Nat) : List Char :=
  let room := width - text.length
  if width ≤ text.length then text.take width
  else List.replicate (room / 2) ' ' ++ text ++ List.replicate (room - room / 2) ' '

/-- The widths of the columns: label, lexeme, value, line and columns. -/
def widths : List Nat := [10, 18, 11, 9, 12]

/-- Cells between bars. -/
def rowOf (cells : List String) : List Char :=
  '|' :: (cells.zip widths).flatMap fun (cell, width) => center cell.toList width ++ ['|']

def header : List Char := rowOf ["TYPE", "LEXEME", "LITERAL", "LINE", "COLUMNS"]

def separator : List Char := List.replicate header.length '-'

def cells (t : Token) : List String :=
  [t.kind.label, t.quotedLexeme, t.literal.elim "N/A" toString, "line " ++ toString t.span.line,
    "col " ++ toString t.span.colStart ++ "-" ++ toString t.span.colEnd]

def row (t : Token) : List Char := rowOf (cells t)

def lines (ts : List Token) : List (List Char) :=
  [separator, header, separator] ++ ts.map row ++ [separator]

def text (ts : List Token) : String := String.intercalate "\n" ((lines ts).map String.ofList)

end Jam.Token.Table
