import Jam.Grammar.Program
import Jam.Token.Scan

/-!
From a source text to its syntax tree: the text is scanned, line breaks are dropped, and the
tokens are parsed.
-/
namespace Jam

inductive CompileError where
  | lexical (e : LexicalError)
  | syntactic (e : SyntaxError)
deriving DecidableEq, Repr

def CompileError.diagnostic : CompileError → Diagnostic
  | lexical e => e.diagnostic
  | syntactic e => e.diagnostic

namespace Program

/-- The program that the tokens of a source spell. -/
def ofSourceTokens (ts : List Token) : Except CompileError Program :=
  (ofTokens (Token.withoutNewlines ts)).mapError .syntactic

def ofText (source : String) : Except CompileError Program := do
  let tokens ← (tokenize source).mapError .lexical
  ofSourceTokens tokens

end Program
end Jam
