import Jam.Json.Value

/-!
The written form of JSON values. Every item of an array and every field of an object has a line of
its own, two blanks further in than its brackets; empty brackets are closed at once.
-/
namespace Jam.Json

/-- A character within a string. Quotes, backslashes and control characters are escaped. -/
def escape (c : Char) : List Char :=
  match c with
  | '"' => ['\\', '"']
  | '\\' => ['\\', '\\']
  | '\x08' => ['\\', 'b']
  | '\x0c' => ['\\', 'f']
  | '\n' => ['\\', 'n']
  | '\r' => ['\\', 'r']
  | '\t' => ['\\', 't']
  | c =>
    if c.toNat < 0x20 then
      ['\\', 'u', '0', '0', Nat.digitChar (c.toNat / 16), Nat.digitChar (c.toNat % 16)]
    else [c]

def quote (s : String) : String := "\"" ++ String.ofList (s.toList.flatMap escape) ++ "\""

/-- The blanks before a line. -/
def indent (depth : Nat) : String := String.ofList (List.replicate (2 * depth) ' ')

mutual

/-- Writes a value at the end of a text. -/
def write (depth : Nat) (out : String) : Json → String
  | .null => out ++ "null"
  | .number n => out ++ toString n
  | .string s => out ++ quote s
  | .array [] => out ++ "[]"
  | .array items => writeItems (depth + 1) (out ++ "[\n") items ++ "\n" ++ indent depth ++ "]"
  | .object [] => out ++ "\x7b\x7d"
  | .object fields =>
    writeFields (depth + 1) (out ++ "\x7b\n") fields ++ "\n" ++ indent depth ++ "\x7d"

/-- Writes items, each on a line of its own. -/
def writeItems (depth : Nat) (out : String) : List Json → String
  | [] => out
  | [j] => write depth (out ++ indent depth) j
  | j :: rest => writeItems depth (write depth (out ++ indent depth) j ++ ",\n") rest

/-- Writes fields, each on a line of its own. -/
def writeFields (depth : Nat) (out : String) : List (String × Json) → String
  | [] => out
  | [(key, j)] => write depth (out ++ indent depth ++ quote key ++ ": ") j
  | (key, j) :: rest =>
    writeFields depth (write depth (out ++ indent depth ++ quote key ++ ": ") j ++ ",\n") rest

end

def text (j : Json) : String := write 0 "" j

end Jam.Json
