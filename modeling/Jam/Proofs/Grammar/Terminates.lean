import Jam.Proofs.Grammar.Scripted
import Jam.Proofs.Grammar.Soundness.Statement

/-!
Parsing ends, and it never looks outside the tokens. Every rule is run on a reader in a script all
of whose states are in range, and a rule that succeeds leaves the reader at a later position. So
each round of a repetition, and each rule inside a rule of the same sort, has fewer tokens to read.
-/
namespace Jam.Grammar

open Jam.Parser

variable {α : Type}

/-- Up to any number of tokens, a parser is run in one script. From wherever it starts, it goes
through states in range only, and success leaves the reader a number of positions further on at
least. -/
def Advances (least : Nat) (p : Parser α) : Prop :=
  ∀ n, ∃ s : Script α, ∀ ts r, ts.length ≤ n → Reader.Reached ts r →
    s.Ends ts r (p r.rest) ∧ (∀ r' ∈ s.states r, r'.InRange ts) ∧
      ∀ a r', s.run r = some (.ok (a, r')) → r.position + least ≤ r'.position

theorem advances_of_scripted {p : Parser α} {least : Nat} (h : Scripted p)
    (hleast : ∀ ts a rest, p ts = .ok (a, rest) → rest.length + least ≤ ts.length) :
    Advances least p := by
  intro n
  obtain ⟨s, hs⟩ := h (n + 1)
  refine ⟨s, fun ts r hts hr => ?_⟩
  have hbefore := hr.position_add_length
  have hshort : r.rest.length < n + 1 := by
    have hlength := (List.takeWhile_prefix (l := ts) (·.kind != .endOfInput)).length_le
    change (Token.beforeEnd ts).length ≤ ts.length at hlength
    omega
  have hends : s.Ends ts r (p r.rest) := by
    rw [hs r.rest hshort]
    exact s.ends hr
  refine ⟨hends, fun r' hr' => (s.reached_of_mem_states hr r' hr').inRange, ?_⟩
  intro a r' hrun
  cases e : p r.rest with
  | error f =>
    have herror := hends.error f e
    rw [hrun] at herror
    cases herror
  | ok result =>
    obtain ⟨b, rest⟩ := result
    obtain ⟨r'', hmem, hend, rfl⟩ := hends.ok b rest e
    rw [hrun] at hend
    cases hend
    -- What is left decides the position, as the tokens before the first end of input are given.
    have hlength := hleast r.rest a r'.rest e
    have hbehind := (s.reached_of_mem_states hr r' hmem).position_add_length
    omega

theorem advances_of_shrinks {p : Parser α} (h : Scripted p) (hp : Shrinks p) : Advances 1 p :=
  advances_of_scripted h hp

theorem advances_of_keeps {p : Parser α} (h : Scripted p) : Advances 0 p :=
  advances_of_scripted h h.keeps

/-- The rules that take a token whenever they succeed. -/
inductive Rule where
  | item
  | function
  | parameter
  | typeRef
  | declaration
  | initializer (dims : Nat)
  | block (fault : SyntaxFault)
  | statement
  | returnStmt
  | callStmt
  | assignment
  | target
  | branch
  | arm
  | forLoop
  | rangeLoop
  | stepLoop
  | step
  | whileLoop
  | condition
  | expression
  | operation
  | atom
  | call

namespace Rule

/-- What a rule results in. -/
def Result : Rule → Type
  | item => Item
  | function => Func
  | parameter => Param
  | typeRef => TypeRef
  | declaration => Decl
  | initializer _ => Init
  | block _ => List Stmt
  | statement | returnStmt | callStmt | branch | forLoop | rangeLoop | stepLoop | whileLoop => Stmt
  | assignment | step => Assign
  | target => Target
  | arm => Expr × List Stmt
  | condition | expression | operation | atom => Expr
  | call => Call

def parser : (x : Rule) → Parser x.Result
  | item => Grammar.item
  | function => Grammar.function
  | parameter => Grammar.parameter
  | typeRef => Grammar.typeRef
  | declaration => Grammar.declaration
  | initializer dims => Grammar.initializer dims
  | block fault => Grammar.block fault
  | statement => Grammar.statement
  | returnStmt => Grammar.returnStmt
  | callStmt => Grammar.callStmt
  | assignment => Grammar.assignment
  | target => Grammar.target
  | branch => ifWith Grammar.statement
  | arm => armWith Grammar.statement
  | forLoop => forWith Grammar.statement
  | rangeLoop => rangeLoopWith Grammar.statement
  | stepLoop => stepLoopWith Grammar.statement
  | step => Grammar.step
  | whileLoop => whileLoopWith Grammar.statement
  | condition => Grammar.condition
  | expression => Grammar.expression
  | operation => Grammar.operation
  | atom => atomWith Grammar.expression
  | call => Grammar.call

theorem scripted : (x : Rule) → Scripted x.parser
  | item => scripted_item
  | function => scripted_function
  | parameter => scripted_parameter
  | typeRef => scripted_typeRef
  | declaration => scripted_declaration
  | initializer dims => scripted_initializer dims
  | block fault => scripted_block fault
  | statement => scripted_statement
  | returnStmt => scripted_returnStmt
  | callStmt => scripted_callStmt
  | assignment => scripted_assignment
  | target => scripted_target
  | branch => scripted_ifWith scripted_statement shrinks_statement
  | arm => scripted_armWith scripted_statement shrinks_statement
  | forLoop => scripted_forWith scripted_statement shrinks_statement
  | rangeLoop => scripted_rangeLoopWith scripted_statement shrinks_statement
  | stepLoop => scripted_stepLoopWith scripted_statement shrinks_statement
  | step => scripted_step
  | whileLoop => scripted_whileLoopWith scripted_statement shrinks_statement
  | condition => scripted_condition
  | expression => scripted_expression
  | operation => scripted_operation
  | atom => scripted_atomWith scripted_expression
  | call => scripted_call

theorem shrinks : (x : Rule) → Shrinks x.parser
  | item => shrinks_item
  | function => shrinks_function
  | parameter => shrinks_parameter
  | typeRef => shrinks_typeRef
  | declaration => shrinks_declaration
  | initializer dims => shrinks_initializer dims
  | block fault => shrinks_blockWith shrinks_statement.keeps fault
  | statement => shrinks_statement
  | returnStmt => shrinks_returnStmt
  | callStmt => shrinks_callStmt
  | assignment => shrinks_assignment
  | target => shrinks_target
  | branch => shrinks_ifWith shrinks_statement.keeps
  | arm => shrinks_armWith shrinks_statement.keeps
  | forLoop => shrinks_forWith shrinks_statement.keeps
  | rangeLoop => shrinks_rangeLoopWith shrinks_statement.keeps
  | stepLoop => shrinks_stepLoopWith shrinks_statement.keeps
  | step => shrinks_step
  | whileLoop => shrinks_whileLoopWith shrinks_statement.keeps
  | condition => shrinks_condition
  | expression => shrinks_expression
  | operation => shrinks_operation
  | atom => shrinks_atomWith shrinks_expression.keeps
  | call => shrinks_call

theorem advances (x : Rule) : Advances 1 x.parser := advances_of_shrinks x.scripted x.shrinks

end Rule

/-- A repetition is a round and the repetition again, or nothing. Every round takes a token, so
the repetition has fewer tokens to read the next time. -/
structure Repeats (round? : Parser (Option α)) : Prop where
  takes : ItemShrinks round?
  again : many round? = do
    match ← round? with
    | some a => return a :: (← many round?)
    | none => return []

theorem Repeats.of_itemShrinks {round? : Parser (Option α)} (h : ItemShrinks round?)
    (hnil : round? [] = .ok (none, [])) : Repeats round? := ⟨h, many_eq h hnil⟩

/-- The repetitions in the rules: the items of a program, the statements of a block, the further
arms of a branch, the parameters of a function, the arguments of a call, the names and dimensions
of a declaration, the brackets of a type, indices, and the initializers between braces. -/
inductive Loop where
  | items
  | statements
  | furtherArms
  | parameters
  | arguments
  | names
  | dimensions
  | brackets
  | indices
  | initializers (dims : Nat)

namespace Loop

/-- What is read in a round. -/
def Round : Loop → Type
  | items => Item
  | statements => Stmt
  | furtherArms => Expr × List Stmt
  | parameters => Param
  | arguments | dimensions | indices => Expr
  | names | brackets => Token
  | initializers _ => Init

/-- A round of a repetition, unless it is over. -/
def round? : (l : Loop) → Parser (Option l.Round)
  | items => ifNext (fun _ => true) item
  | statements => ifNext statementStarts statement
  | furtherArms => led (.keyword .or_) do
      let _ ← keyword .if_ .ifAfterOr
      armWith statement
  | parameters => led (.symbol .comma) parameter
  | arguments => led (.symbol .comma) expression
  | names => led (.symbol .comma) (name .furtherVariableName)
  | dimensions => ifNext (.symbol .leftBracket) do
      let _ ← symbol .leftBracket .arrayBracket
      let size ← expression
      let _ ← symbol .rightBracket .dimensionEnd
      return size
  | brackets => ifNext (.symbol .leftBracket) do
      let _ ← symbol .leftBracket .arrayBracket
      symbol .rightBracket .arrayTypeBracketEnd
  | indices => led (.symbol .leftBracket) do
      let index ← expression
      let _ ← symbol .rightBracket .indexEnd
      return index
  | initializers dims => led (.symbol .comma) (initializer dims)

theorem round_shrinks : (l : Loop) → ItemShrinks l.round?
  | items => shrinks_item.itemShrinks_ifNext
  | statements => shrinks_statement.itemShrinks_ifNext
  | furtherArms => (shrinks_furtherArmWith shrinks_statement.keeps).keeps.itemShrinks_led
  | parameters => shrinks_parameter.keeps.itemShrinks_led
  | arguments => shrinks_expression.keeps.itemShrinks_led
  | names => (shrinks_expect _ _).keeps.itemShrinks_led
  | dimensions => shrinks_dimension.itemShrinks_ifNext
  | brackets => shrinks_brackets.itemShrinks_ifNext
  | indices => (keeps_indexWith shrinks_expression.keeps).itemShrinks_led
  | initializers dims => (shrinks_initializer dims).keeps.itemShrinks_led

theorem repeats (l : Loop) : Repeats l.round? :=
  .of_itemShrinks l.round_shrinks (by cases l <;> rfl)

end Loop

/-- The rules with parts that may hold a rule of the same sort. -/
inductive Nesting where
  | indices
  | call
  | atom
  | operation
  | expression
  | initializer (dims : Nat)
  | block (fault : SyntaxFault)
  | arm
  | branch
  | rangeLoop
  | stepLoop
  | forLoop
  | whileLoop
  | statement

/-- An initializer in braces, given the parser of the initializers between them. -/
def initializerWith (nested : Parser Init) : Parser Init := do
  let _ ← symbol .leftBrace .initializerStart
  let items ← commaSeparated nested
  let _ ← symbol .rightBrace .initializerEnd
  return .braces items

theorem agree_initializerWith {n : Nat} {nested nested' : Parser Init}
    (h : AgreeBelow n nested nested') (hn : Shrinks nested) :
    AgreeBelow (n + 1) (initializerWith nested) (initializerWith nested') :=
  (AgreeBelow.refl _ _).bind_succ (shrinks_expect _ _) fun _ =>
    (h.commaSeparated hn.keeps).bind hn.commaSeparated.keeps fun _ => .refl _ _

namespace Nesting

/-- What the parts result in. -/
def Part : Nesting → Type
  | indices | call | atom | operation | expression => Expr
  | initializer _ => Init
  | block _ | arm | branch | rangeLoop | stepLoop | forLoop | whileLoop | statement => Stmt

def Result : Nesting → Type
  | indices => List Expr
  | call => Call
  | atom | operation | expression => Expr
  | initializer _ => Init
  | block _ => List Stmt
  | arm => Expr × List Stmt
  | branch | rangeLoop | stepLoop | forLoop | whileLoop | statement => Stmt

/-- The parser of the parts. -/
def part : (x : Nesting) → Parser x.Part
  | indices | call | atom | operation | expression => Grammar.expression
  | initializer dims => Grammar.initializer dims
  | block _ | arm | branch | rangeLoop | stepLoop | forLoop | whileLoop | statement =>
    Grammar.statement

/-- The rule with any parser for the parts. -/
def ruleWith : (x : Nesting) → Parser x.Part → Parser x.Result
  | indices => indicesWith
  | call => callWith
  | atom => atomWith
  | operation => operationWith
  | expression => expressionWith
  | initializer _ => initializerWith
  | block fault => fun nested => blockWith nested fault
  | arm => armWith
  | branch => ifWith
  | rangeLoop => rangeLoopWith
  | stepLoop => stepLoopWith
  | forLoop => forWith
  | whileLoop => whileLoopWith
  | statement => statementWith

/-- The rule itself. -/
def parser : (x : Nesting) → Parser x.Result
  | indices => Grammar.indices
  | call => Rule.call.parser
  | atom => Rule.atom.parser
  | operation => Rule.operation.parser
  | expression => Rule.expression.parser
  | initializer dims => (Rule.initializer (dims + 1)).parser
  | block fault => (Rule.block fault).parser
  | arm => Rule.arm.parser
  | branch => Rule.branch.parser
  | rangeLoop => Rule.rangeLoop.parser
  | stepLoop => Rule.stepLoop.parser
  | forLoop => Rule.forLoop.parser
  | whileLoop => Rule.whileLoop.parser
  | statement => Rule.statement.parser

theorem parser_eq : (x : Nesting) → x.parser = x.ruleWith x.part
  | expression => expression_eq
  | statement => statement_eq
  | indices | call | atom | operation | initializer _ | block _ | arm | branch | rangeLoop
  | stepLoop | forLoop | whileLoop => rfl

theorem agree {n : Nat} : (x : Nesting) → {nested : Parser x.Part} →
    AgreeBelow n x.part nested → AgreeBelow (n + 1) (x.ruleWith x.part) (x.ruleWith nested)
  | indices, _, h => agree_indicesWith h shrinks_expression.keeps
  | call, _, h => agree_callWith h shrinks_expression
  | atom, _, h => agree_atomWith h shrinks_expression.keeps
  | operation, _, h => agree_operationWith h shrinks_expression.keeps
  | expression, _, h => agree_expressionWith h shrinks_expression
  | initializer dims, _, h => agree_initializerWith h (shrinks_initializer dims)
  | block fault, _, h => agree_blockWith h shrinks_statement.keeps fault
  | arm, _, h => agree_armWith h shrinks_statement.keeps
  | branch, _, h => agree_ifWith h shrinks_statement.keeps
  | rangeLoop, _, h => agree_rangeLoopWith h shrinks_statement.keeps
  | stepLoop, _, h => agree_stepLoopWith h shrinks_statement.keeps
  | forLoop, _, h => agree_forWith h shrinks_statement.keeps
  | whileLoop, _, h => agree_whileLoopWith h shrinks_statement.keeps
  | statement, _, h => agree_statementWith h shrinks_statement.keeps

/-- A rule depends on the parser of its parts for shorter inputs only. -/
theorem parser_apply (x : Nesting) {ts : List Token} {nested : Parser x.Part}
    (h : ∀ us, us.length < ts.length → nested us = x.part us) :
    x.parser ts = x.ruleWith nested ts := by
  rw [x.parser_eq]
  exact x.agree (fun us hus => (h us hus).symm) ts (Nat.lt_succ_self _)

end Nesting
end Jam.Grammar

namespace Jam

/-- A script that is run from the first position on goes through states in range only, and it comes
to what parsing the tokens comes to. -/
structure Script.Parses (s : Script Program) (ts : List Token) : Prop where
  in_range : ∀ r ∈ s.states (.ofTokens ts), r.InRange ts
  run_eq : (s.run (.ofTokens ts)).map (Except.map Prod.fst) = some (Program.ofTokens ts)

namespace Program

open Grammar Jam.Parser

/-- Up to any number of tokens, programs are read in one script. -/
theorem exists_script (n : Nat) :
    ∃ s : Script Program, ∀ ts, ts.length ≤ n → s.Parses ts := by
  obtain ⟨s, hs⟩ := advances_of_keeps scripted_program n
  refine ⟨s, fun ts hts => ?_⟩
  obtain ⟨hends, hrange, -⟩ := hs ts (.ofTokens ts) hts .start
  refine ⟨hrange, ?_⟩
  rw [Reader.Stands.start.rest_eq] at hends
  cases e : program (Token.beforeEnd ts) with
  | ok result =>
    obtain ⟨p, rest⟩ := result
    obtain ⟨r, -, hrun, -⟩ := hends.ok p rest e
    rw [hrun, ofTokens, e]
    rfl
  | error f =>
    rw [hends.error f e, ofTokens, e]
    rfl

/-- Without a program there is an error at one of the tokens. -/
theorem ok_or_error (ts : List Token) : (∃ p, ofTokens ts = .ok p) ∨
    ∃ fault r t, Reader.Reached ts r ∧ r.peek? = some t ∧ ofTokens ts = .error (.at fault t) := by
  cases e : program (Token.beforeEnd ts) with
  | ok result => exact Or.inl ⟨result.1, by rw [ofTokens, e]⟩
  | error f =>
    obtain ⟨fault, rest⟩ := f
    obtain ⟨w, hw, -, hlocal⟩ := reads_program.error _ _ e
    obtain ⟨t, us, hend, herror, -⟩ := exists_fault hw hlocal
    refine Or.inr ⟨fault, _, t, Reader.reached_of_split hw, ?_, ?_⟩
    · rw [Reader.peek?, hend, List.getElem?_append_right (Nat.le_refl _), Nat.sub_self]
      rfl
    · rw [ofTokens, e, ← herror]

/-- Parsing ends, and it stays within the tokens. The position is never behind the first end of
input, and every rule that succeeds has moved it on, but for indices and programs, which may be
empty. So a repetition has fewer tokens in each round, and so has a rule inside a rule of the same
sort. One script reads all sequences up to a length from the first position on, and what it comes to
is a program, or an error that is met. -/
theorem ofTokens_ends_in_range (ts : List Token) :
    (∀ r, Reader.Reached ts r → r.InRange ts) ∧
    (∀ x : Rule, Advances 1 x.parser) ∧ Advances 0 indices ∧ Advances 0 program ∧
    (∀ l : Loop, Repeats l.round?) ∧
    (∀ (x : Nesting) (us : List Token) (nested : Parser x.Part),
      (∀ vs, vs.length < us.length → nested vs = x.part vs) →
        x.parser us = x.ruleWith nested us) ∧
    (∀ n, ∃ s : Script Program, ∀ us, us.length ≤ n → s.Parses us) ∧
    ((∃ p, ofTokens ts = .ok p) ∨ ∃ fault r t,
      Reader.Reached ts r ∧ r.peek? = some t ∧ ofTokens ts = .error (.at fault t)) :=
  ⟨fun _ hr => hr.inRange, fun x => x.advances, advances_of_keeps scripted_indices,
    advances_of_keeps scripted_program, fun l => l.repeats, fun x _ _ h => x.parser_apply h,
    exists_script, ok_or_error ts⟩

end Program
end Jam
