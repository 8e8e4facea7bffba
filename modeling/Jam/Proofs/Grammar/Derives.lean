import Jam.Token.Kind

/-!
The grammar of the language, stated without a parser. A nonterminal derives sequences of kinds of
tokens; each production builds such a sequence from shorter ones.
-/
namespace Jam

/-- A sequence of kinds of tokens. -/
abbrev Phrase := List TokenKind

namespace Phrase

def bracketed (w : Phrase) : Phrase := .symbol .leftBracket :: (w ++ [.symbol .rightBracket])

def grouped (w : Phrase) : Phrase := .symbol .leftParen :: (w ++ [.symbol .rightParen])

def braced (w : Phrase) : Phrase := .symbol .leftBrace :: (w ++ [.symbol .rightBrace])

/-- Phrases with commas between them. -/
def commas : List Phrase → Phrase
  | [] => []
  | first :: others => first ++ others.flatMap (.symbol .comma :: ·)

/-- So many further names, each after a comma. -/
def furtherNames (n : Nat) : Phrase := (List.replicate n [.symbol .comma, .name]).flatten

end Phrase

inductive Nonterminal where
  | program | item | function | returnType | parameter | type
  | declaration
  /-- What may stand between the first name of a declaration and the others. -/
  | initial (dims : Nat)
  | initializer (dims : Nat)
  | block | statement
  /-- The statements that can stand outside all blocks, other than declarations. -/
  | outerStatement
  | arm | otherwise | step
  | condition | expression | operation | atom | call | target
deriving DecidableEq, Repr

open Phrase

inductive Derives : Nonterminal → Phrase → Prop
  | program {ws : List Phrase} (items : ∀ w ∈ ws, Derives .item w) : Derives .program ws.flatten
  | functionItem {w : Phrase} : Derives .function w → Derives .item w
  | declarationItem {w : Phrase} : Derives .declaration w → Derives .item w
  | statementItem {w : Phrase} : Derives .outerStatement w → Derives .item w
  | function {r b : Phrase} {params : List Phrase} (returns : Derives .returnType r)
      (each : ∀ w ∈ params, Derives .parameter w) (body : Derives .block b) :
      Derives .function (.keyword .func :: (r ++ .name :: (grouped (commas params) ++ braced b)))
  | noReturnType : Derives .returnType []
  | voidReturnType : Derives .returnType [.keyword .void]
  | valueReturnType {w : Phrase} : Derives .type w → Derives .returnType w
  | parameter {w : Phrase} : Derives .type w → Derives .parameter (w ++ [.name])
  | scalarType (s : Scalar) : Derives .type [.keyword (.scalar s)]
  | arrayType (s : Scalar) (n : Nat) :
      Derives .type (.keyword .array :: .keyword (.scalar s) ::
        (List.replicate (n + 1) (bracketed [])).flatten)
  | scalarDeclaration (s : Scalar) (more : Nat) {i : Phrase} (init : Derives (.initial 0) i) :
      Derives .declaration (.keyword (.scalar s) :: .name ::
        (i ++ (furtherNames more ++ [.symbol .semicolon])))
  | arrayDeclaration (s : Scalar) (more : Nat) {i : Phrase} {sizes : List Phrase}
      (nonempty : sizes ≠ []) (each : ∀ w ∈ sizes, Derives .expression w)
      (init : Derives (.initial sizes.length) i) :
      Derives .declaration (.keyword .array :: .keyword (.scalar s) ::
        (sizes.flatMap bracketed ++ .name :: (i ++ (furtherNames more ++ [.symbol .semicolon]))))
  | noInitial (dims : Nat) : Derives (.initial dims) []
  | someInitial {dims : Nat} {w : Phrase} :
      Derives (.initializer dims) w → Derives (.initial dims) (.symbol .assign :: w)
  | valueInitializer {w : Phrase} : Derives .expression w → Derives (.initializer 0) w
  | bracesInitializer {dims : Nat} {ws : List Phrase} (nonempty : ws ≠ [])
      (each : ∀ w ∈ ws, Derives (.initializer dims) w) :
      Derives (.initializer (dims + 1)) (braced (commas ws))
  | block {ws : List Phrase} (each : ∀ w ∈ ws, Derives .statement w) : Derives .block ws.flatten
  | declarationStatement {w : Phrase} : Derives .declaration w → Derives .statement w
  | returnStatement {w : Phrase} (value : Derives .expression w) :
      Derives .statement (.keyword .return_ :: (w ++ [.symbol .semicolon]))
  | outerStatement {w : Phrase} : Derives .outerStatement w → Derives .statement w
  | callStatement {w : Phrase} (call : Derives .call w) :
      Derives .outerStatement (w ++ [.symbol .semicolon])
  | callAssignStatement {w v : Phrase} (call : Derives .call w) (target : Derives .target v) :
      Derives .outerStatement (w ++ .symbol .assign :: (v ++ [.symbol .semicolon]))
  | assignStatement {w v : Phrase} (value : Derives .operation w) (target : Derives .target v) :
      Derives .outerStatement (w ++ .symbol .assign :: (v ++ [.symbol .semicolon]))
  | ifStatement {w v : Phrase} {ws : List Phrase} (first : Derives .arm w)
      (others : ∀ w ∈ ws, Derives .arm w) (last : Derives .otherwise v) :
      Derives .outerStatement (.keyword .if_ ::
        (w ++ (ws.flatMap (fun w => .keyword .or_ :: .keyword .if_ :: w) ++ v)))
  | rangeStatement {w v b : Phrase} (start : Derives .expression w) (stop : Derives .expression v)
      (body : Derives .block b) :
      Derives .outerStatement (.keyword .for_ :: .symbol .leftParen :: .name :: .keyword .moves ::
        .keyword .from_ :: (w ++ .keyword .to_ :: (v ++ .symbol .rightParen :: braced b)))
  | stepStatement {d c s b : Phrase} (init : Derives .declaration d)
      (condition : Derives .condition c) (step : Derives .step s) (body : Derives .block b) :
      Derives .outerStatement (.keyword .for_ :: .symbol .leftParen ::
        (d ++ (c ++ .symbol .semicolon :: (s ++ .symbol .rightParen :: braced b))))
  | whileStatement {w : Phrase} (arm : Derives .arm w) :
      Derives .outerStatement (.keyword .while_ :: w)
  | arm {c b : Phrase} (condition : Derives .condition c) (body : Derives .block b) :
      Derives .arm (grouped c ++ braced b)
  | noOtherwise : Derives .otherwise []
  | someOtherwise {b : Phrase} (body : Derives .block b) :
      Derives .otherwise (.keyword .else_ :: braced b)
  | callStep {w v : Phrase} (call : Derives .call w) (target : Derives .target v) :
      Derives .step (w ++ .symbol .assign :: v)
  | operationStep {w v : Phrase} (value : Derives .operation w) (target : Derives .target v) :
      Derives .step (w ++ .symbol .assign :: v)
  | condition {w v : Phrase} {op : Symbol}
      (relational : op ∈ [.less, .lessEqual, .greater, .greaterEqual, .equal, .notEqual])
      (left : Derives .expression w) (right : Derives .expression v) :
      Derives .condition (w ++ .symbol op :: v)
  | callExpression {w : Phrase} : Derives .call w → Derives .expression w
  | operationExpression {w : Phrase} : Derives .operation w → Derives .expression w
  | atomOperation {w : Phrase} : Derives .atom w → Derives .operation w
  | binaryOperation {w v : Phrase} {op : Symbol}
      (arithmetic : op ∈ [.plus, .minus, .star, .slash, .percent])
      (left : Derives .atom w) (right : Derives .atom v) :
      Derives .operation (w ++ .symbol op :: v)
  | numberAtom : Derives .atom [.number]
  | nameAtom {ws : List Phrase} (indices : ∀ w ∈ ws, Derives .expression w) :
      Derives .atom (.name :: ws.flatMap bracketed)
  | groupAtom {w : Phrase} (inner : Derives .expression w) : Derives .atom (grouped w)
  | call {ws : List Phrase} (args : ∀ w ∈ ws, Derives .expression w) :
      Derives .call (.keyword .call :: .name :: grouped (commas ws))
  | target {ws : List Phrase} (indices : ∀ w ∈ ws, Derives .expression w) :
      Derives .target (.name :: ws.flatMap bracketed)

end Jam
