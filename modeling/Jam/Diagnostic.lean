/-!
A diagnostic is what is said of a source that cannot be used: at which stage it failed, why, what
stands there and where that is. It has one written form for each stage.
-/
namespace Jam

inductive Stage where
  | lexical
  | syntactic
deriving DecidableEq, Repr

structure Diagnostic where
  stage : Stage
  message : String
  /-- The characters at fault, or for a syntactic fault the token found. -/
  near : String
  line : Nat
  column : Nat
deriving DecidableEq, Repr

namespace Diagnostic

def isLexical (d : Diagnostic) : Bool := d.stage = .lexical

def text (d : Diagnostic) : String :=
  match d.stage with
  | .lexical =>
    "Lexer error at " ++ toString d.line ++ ":" ++ toString d.column ++ ": " ++ d.message ++
      " near '" ++ d.near ++ "'"
  | .syntactic =>
    "Syntax error at " ++ d.near ++ " (line: " ++ toString d.line ++ ", col: " ++
      toString d.column ++ "): " ++ d.message

end Diagnostic
end Jam
