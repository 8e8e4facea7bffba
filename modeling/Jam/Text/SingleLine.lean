/-!
Text made fit for one line: backslashes, line feeds, carriage returns and tabs are written as
escapes, so nothing is lost.
-/
namespace Jam.Text

def escapeControl : Char → List Char
  | '\\' => ['\\', '\\']
  | '\n' => ['\\', 'n']
  | '\r' => ['\\', 'r']
  | '\t' => ['\\', 't']
  | c => [c]

def singleLine (s : String) : String := String.ofList (s.toList.flatMap escapeControl)

end Jam.Text
