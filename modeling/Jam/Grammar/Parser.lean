import Jam.Grammar.Fault
import Jam.Token.Basic

/-!
A parser reads tokens from the front of a list and leaves the rest. It decides by the kind of the
next token alone and never gives a token back. A failure keeps the tokens from the one at fault
on, so the place of the fault is known; none are left when the input ended too early.
-/
namespace Jam

structure Failure where
  fault : SyntaxFault
  rest : List Token
deriving DecidableEq, Repr

abbrev Parser := StateT (List Token) (Except Failure)

/-- A class of tokens, given by their kinds. -/
abbrev KindClass := TokenKind → Bool

namespace KindClass

def symbol (s : Symbol) : KindClass := (· == .symbol s)

def keyword (k : Keyword) : KindClass := (· == .keyword k)

def number : KindClass := (· == .number)

def name : KindClass := (· == .name)

def arithmetic : KindClass
  | .symbol s => s.isArithmetic
  | _ => false

def relational : KindClass
  | .symbol s => s.isRelational
  | _ => false

end KindClass

namespace Parser

variable {α : Type}

/-- Fails at the next token. -/
def fail (fault : SyntaxFault) : Parser α := fun ts => .error ⟨fault, ts⟩

/-- Fails at a token that has been taken last. -/
def failAt (t : Token) (fault : SyntaxFault) : Parser α := fun ts => .error ⟨fault, t :: ts⟩

/-- Whether there is a next token and it belongs to a class. -/
def nextIn (k : KindClass) : Parser Bool := fun ts => .ok (ts.head?.any (k ·.kind), ts)

/-- Takes the next token if it belongs to a class. -/
def take? (k : KindClass) : Parser (Option Token) := fun ts =>
  match ts with
  | t :: rest => if k t.kind then .ok (some t, rest) else .ok (none, t :: rest)
  | [] => .ok (none, [])

/-- Takes the next token, which has to belong to a class. -/
def expect (k : KindClass) (fault : SyntaxFault) : Parser Token := do
  match ← take? k with
  | some t => return t
  | none => fail fault

def symbol (s : Symbol) (fault : SyntaxFault) : Parser Token := expect (.symbol s) fault

def keyword (k : Keyword) (fault : SyntaxFault) : Parser Token := expect (.keyword k) fault

def name (fault : SyntaxFault) : Parser Token := expect .name fault

/-- An item if the next token belongs to a class. -/
def ifNext (k : KindClass) (item : Parser α) : Parser (Option α) := do
  if ← nextIn k then return some (← item) else return none

/-- An item if the next token belongs to a class; that token leads the item. -/
def led (k : KindClass) (item : Parser α) : Parser (Option α) := do
  match ← take? k with
  | some _ => return some (← item)
  | none => return none

/-- Reads items until one is absent, in at most as many rounds as a list is long. -/
def manyWithin (item? : Parser (Option α)) : List Token → Parser (List α)
  | [] => return []
  | _ :: rounds => do
    match ← item? with
    | some a => return a :: (← manyWithin item? rounds)
    | none => return []

/-- Reads items until one is absent. Each item takes a token, so no more rounds are needed than
there are tokens. -/
def many (item? : Parser (Option α)) : Parser (List α) := fun ts => manyWithin item? ts ts

/-- One item, and further ones as long as the next token belongs to a class. -/
def oneOrMore (k : KindClass) (item : Parser α) : Parser (List α) := do
  return (← item) :: (← many (ifNext k item))

/-- One item, and further ones after commas. -/
def commaSeparated (item : Parser α) : Parser (List α) := do
  return (← item) :: (← many (led (.symbol .comma) item))

/-- Items separated by commas, or none if the list is closed at once. -/
def listUntil (close : Symbol) (item : Parser α) : Parser (List α) := do
  if ← nextIn (.symbol close) then return [] else commaSeparated item

end Parser
end Jam
