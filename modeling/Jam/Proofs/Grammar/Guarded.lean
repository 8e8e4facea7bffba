import Jam.Proofs.Grammar.Blames

/-!
Every rule is entered by tokens with which it can begin. So the faults that rules have for any
other first token are never met. In a declaration the word for a type can be missing only behind
`array`, and a number is at fault only if it has no value.
-/
namespace Jam

namespace SyntaxFault

/-- The faults for a first token by which a rule is never entered. -/
def isGuarded : SyntaxFault → Bool
  | functionWord | statement | returnWord | callWord | ifWord | forWord | whileWord
  | loopVariable => true
  | _ => false

/-- The faults that can be met by any token. -/
def isOrdinary (fault : SyntaxFault) : Bool :=
  !fault.isGuarded && fault != typeName && fault != numberValue

end SyntaxFault

namespace Failure

/-- What a failure can be: its fault is not guarded, and a number that is at fault for its value
has none. -/
structure Due (f : Failure) : Prop where
  unguarded : f.fault.isGuarded = false
  valueless : f.fault = .numberValue →
    ∃ t, f.rest.head? = some t ∧ t.kind = .number ∧ t.literal = none

/-- What a failure can be where no type is read. -/
structure Typeless (f : Failure) : Prop extends f.Due where
  typed : f.fault ≠ .typeName

/-- The word for a type is missing behind `array`, with which the input begins. -/
structure MissesType (ts : List Token) (f : Failure) : Prop where
  fault : f.fault = .typeName
  behind : ∃ t, ts = t :: f.rest ∧ t.kind = .keyword .array

variable {fault : SyntaxFault} {ts : List Token} {f : Failure}

theorem typeless_of_isOrdinary (h : fault.isOrdinary = true) (ts : List Token) :
    Typeless ⟨fault, ts⟩ := by
  simp only [SyntaxFault.isOrdinary, Bool.and_eq_true, Bool.not_eq_true', bne_iff_ne] at h
  obtain ⟨⟨hguarded, htype⟩, hvalue⟩ := h
  exact ⟨⟨hguarded, fun hfault => absurd hfault hvalue⟩, htype⟩

theorem due_typeName (ts : List Token) : Due ⟨.typeName, ts⟩ := ⟨rfl, nofun⟩

theorem MissesType.due (h : MissesType ts f) : f.Due := by
  obtain ⟨fault, rest⟩ := f
  obtain rfl : fault = .typeName := h.fault
  exact due_typeName rest

end Failure

namespace Parser

open Failure

variable {α : Type} {S : List Token → Prop} {p : Parser α} {k : KindClass}

theorem Blames.due (h : Blames S p Typeless) : Blames S p Due :=
  h.mono fun _ hf => hf.toDue

theorem blames_fail (fault : SyntaxFault) (h : fault.isOrdinary = true) :
    Blames S (fail fault : Parser α) Typeless :=
  .fail fun ts _ => typeless_of_isOrdinary h ts

theorem blames_expect (fault : SyntaxFault) (h : fault.isOrdinary = true) :
    Blames S (expect k fault) Typeless :=
  .expect fun ts _ => typeless_of_isOrdinary h ts

end Parser

namespace Grammar

open Jam.Parser Failure

section

variable {nested : Parser Expr}

theorem blames_indicesWith (h : Blames Anywhere nested Typeless) :
    Blames Anywhere (indicesWith nested) Typeless := by
  apply Blames.many
  apply Blames.led
  exact h.bind fun index => (blames_expect .indexEnd rfl).bind_pure fun _ => index

/-- A call is entered by its keyword. -/
theorem blames_callWith (h : Blames Anywhere nested Typeless) :
    Blames (StartsIn (.keyword .call)) (callWith nested) Typeless := by
  refine Blames.bind Blames.expect_of_startsIn fun word => ?_
  refine (blames_expect .calleeName rfl).bind fun callee => ?_
  refine (blames_expect .parameterList rfl).bind fun _ => ?_
  exact h.listUntil.bind fun args => (blames_expect .argumentListEnd rfl).bind_pure _

/-- Only a number without a value is at fault for lacking one. -/
theorem blames_atomWith (h : Blames Anywhere nested Typeless) :
    Blames Anywhere (atomWith nested) Typeless := by
  refine .take_bind (fun t ht => ?_) (.take_bind (fun t _ => ?_) (.take_bind (fun _ _ => ?_) ?_))
  · cases e : t.literal with
    | some value =>
      simp only [e]
      exact .pure _
    | none =>
      simp only [e]
      refine .failAt fun ts => ⟨⟨rfl, fun _ => ?_⟩, nofun⟩
      exact ⟨t, rfl, beq_iff_eq.mp ht, e⟩
  · exact (blames_indicesWith h).bind_pure _
  · exact h.bind fun inner => (blames_expect .groupEnd rfl).bind_pure _
  · exact blames_fail .expression rfl

theorem blames_operationWith (h : Blames Anywhere nested Typeless) :
    Blames Anywhere (operationWith nested) Typeless := by
  refine (blames_atomWith h).bind fun left => .take_bind (fun op _ => ?_) (.pure left)
  refine (blames_atomWith h).bind fun right => ?_
  exact .nextIn_bind (blames_fail .chainedOperators rfl) (.pure _)

theorem blames_expressionWith (h : Blames Anywhere nested Typeless) :
    Blames Anywhere (expressionWith nested) Typeless := by
  refine .nextIn_bind ?_ (blames_operationWith h).of_anywhere
  refine (blames_callWith h).bind fun call => ?_
  exact .nextIn_bind (blames_fail .callOperand rfl) (.pure _)

end

theorem blames_expressionWithin (depth : List Token) :
    Blames Anywhere (expressionWithin depth) Typeless := by
  induction depth with
  | nil => exact blames_fail .expression rfl
  | cons _ depth ih => exact blames_expressionWith ih

theorem blames_expression : Blames Anywhere expression Typeless :=
  fun ts => blames_expressionWithin ts ts

theorem blames_indices : Blames Anywhere indices Typeless := blames_indicesWith blames_expression

theorem blames_operation : Blames Anywhere operation Typeless :=
  blames_operationWith blames_expression

theorem blames_call : Blames (StartsIn (.keyword .call)) call Typeless :=
  blames_callWith blames_expression

theorem blames_condition : Blames Anywhere condition Typeless :=
  blames_expression.bind fun _ => (blames_expect .relation rfl).bind fun _ =>
    blames_expression.bind_pure _

theorem blames_initializer (dims : Nat) : Blames Anywhere (initializer dims) Typeless := by
  induction dims with
  | zero => exact blames_expression.bind_pure _
  | succ dims ih =>
    exact (blames_expect .initializerStart rfl).bind fun _ => ih.commaSeparated.bind fun _ =>
      (blames_expect .initializerEnd rfl).bind_pure _

theorem blames_arrayOrScalar {α : Type} {bracketed : Parser α}
    (h : Blames Anywhere bracketed Due) : Blames Anywhere (arrayOrScalar bracketed) Due := by
  refine .take_bind (fun _ _ => ?_) ?_
  · exact (Blames.expect fun ts _ => due_typeName ts).bind fun _ => h.oneOrMore.bind_pure _
  · exact (Blames.expect fun ts _ => due_typeName ts).bind_pure _

/-- If the input begins with a word of a type, that word is taken. So only the word behind `array`
can be missing. -/
theorem blames_arrayOrScalar_of_startsIn {α : Type} {bracketed : Parser α}
    (h : Blames Anywhere bracketed Typeless) {ts : List Token} (hts : StartsIn typeWords ts) :
    Blames (· = ts) (arrayOrScalar bracketed) fun f => f.Typeless ∨ f.MissesType ts := by
  rintro _ rfl f e
  obtain ⟨t, us, rfl, ht⟩ := hts
  by_cases harray : t.kind = .keyword .array
  · have hword : KindClass.keyword .array t.kind = true := beq_iff_eq.mpr harray
    rw [arrayOrScalar, take_bind_cons _ hword] at e
    have hnext : Blames (· = us) (expect scalarWords .typeName)
        fun f => f.Typeless ∨ f.MissesType (t :: us) := by
      apply Blames.expect
      rintro _ rfl
      exact Or.inr ⟨rfl, t, rfl, harray⟩
    refine (hnext.bind fun word => ?_) us rfl f e
    exact (h.oneOrMore.bind_pure _).mono fun _ => Or.inl
  · have hnone : KindClass.keyword .array t.kind = false := beq_eq_false_iff_ne.mpr harray
    have hscalar : scalarWords t.kind = true := by
      simpa [typeWords, scalarWords, harray] using ht
    rw [arrayOrScalar, take_bind_of_clear _ (clear_cons.mpr hnone)] at e
    have hnext : Blames (StartsIn scalarWords) (expect scalarWords .typeName)
        fun f => f.Typeless ∨ f.MissesType (t :: us) := Blames.expect_of_startsIn
    exact (hnext.bind_pure _) _ (startsIn_cons.mpr hscalar) f e

/-- A declaration that is entered by a word of a type misses such a word only behind `array`. -/
theorem blames_declaration_of_startsIn {ts : List Token} (hts : StartsIn typeWords ts) :
    Blames (· = ts) declaration fun f => f.Typeless ∨ f.MissesType ts := by
  have hdimension : Blames Anywhere (do
      let _ ← symbol .leftBracket .arrayBracket
      let size ← expression
      let _ ← symbol .rightBracket .dimensionEnd
      return size) Typeless := by
    refine (blames_expect .arrayBracket rfl).bind fun _ => blames_expression.bind fun size => ?_
    exact (blames_expect .dimensionEnd rfl).bind_pure fun _ => size
  refine (blames_arrayOrScalar_of_startsIn hdimension hts).bind fun _ => ?_
  refine Blames.mono ?_ fun _ => Or.inl
  refine (blames_expect .variableName rfl).bind fun first => ?_
  refine (blames_initializer _).led.bind fun init => ?_
  refine (blames_expect .furtherVariableName rfl).led.many.bind fun others => ?_
  exact (blames_expect .declarationEnd rfl).bind_pure _

theorem blames_declaration : Blames (StartsIn typeWords) declaration Due := by
  intro ts hts f e
  rcases blames_declaration_of_startsIn hts ts rfl f e with hf | hf
  · exact hf.toDue
  · exact hf.due

theorem blames_typeRef : Blames Anywhere typeRef Due := by
  refine (blames_arrayOrScalar ?_).bind_pure _
  exact ((blames_expect .arrayBracket rfl).bind fun _ =>
    blames_expect .arrayTypeBracketEnd rfl).due

theorem blames_target : Blames Anywhere target Typeless :=
  (blames_expect .assignTarget rfl).bind fun _ => blames_indices.bind_pure _

theorem blames_assignment : Blames Anywhere assignment Typeless :=
  blames_operation.bind fun _ => (blames_expect .assignSign rfl).bind fun _ =>
    blames_target.bind_pure _

theorem blames_step : Blames Anywhere step Typeless := by
  refine .nextIn_bind ?_ blames_assignment.of_anywhere
  exact blames_call.bind fun _ => (blames_expect .stepAssignSign rfl).bind fun _ =>
    blames_target.bind_pure _

theorem blames_assignStmt : Blames Anywhere assignStmt Typeless :=
  blames_assignment.bind fun _ => (blames_expect .assignmentEnd rfl).bind_pure _

theorem blames_returnStmt : Blames (StartsIn (.keyword .return_)) returnStmt Typeless :=
  Blames.bind Blames.expect_of_startsIn fun _ => blames_expression.bind fun _ =>
    (blames_expect .returnEnd rfl).bind_pure _

theorem blames_callStmt : Blames (StartsIn (.keyword .call)) callStmt Typeless := by
  refine blames_call.bind fun call => blames_target.led.bind fun target? => ?_
  cases target? with
  | some target => exact (blames_expect .assignmentEnd rfl).bind_pure _
  | none => exact (blames_expect .callEnd rfl).bind_pure _

section

variable {nested : Parser Stmt}

theorem blames_blockWith (h : Blames (StartsIn statementStarts) nested Due) (fault : SyntaxFault)
    (hfault : fault.isOrdinary = true) : Blames Anywhere (blockWith nested fault) Due :=
  (blames_expect fault hfault).due.bind fun _ => h.ifNext.many.bind fun body =>
    (blames_expect .blockEnd rfl).due.bind_pure fun _ => body

theorem blames_armWith (h : Blames (StartsIn statementStarts) nested Due) :
    Blames Anywhere (armWith nested) Due :=
  (blames_expect .ifCondition rfl).due.bind fun _ => blames_condition.due.bind fun _ =>
    (blames_expect .conditionEnd rfl).due.bind fun _ =>
      (blames_blockWith h .ifBody rfl).bind_pure _

theorem blames_ifWith (h : Blames (StartsIn statementStarts) nested Due) :
    Blames (StartsIn (.keyword .if_)) (ifWith nested) Due := by
  refine Blames.bind Blames.expect_of_startsIn fun _ => (blames_armWith h).bind fun _ => ?_
  have hfurther : Blames Anywhere (do
      let _ ← keyword .if_ .ifAfterOr
      armWith nested) Due :=
    (blames_expect .ifAfterOr rfl).due.bind fun _ => blames_armWith h
  exact hfurther.led.many.bind fun _ => (blames_blockWith h .elseBody rfl).led.bind_pure _

/-- A loop over a range is entered by its variable. -/
theorem blames_rangeLoopWith (h : Blames (StartsIn statementStarts) nested Due) :
    Blames (StartsIn .name) (rangeLoopWith nested) Due := by
  refine Blames.bind Blames.expect_of_startsIn fun var => ?_
  refine (blames_expect .movesWord rfl).due.bind fun _ => ?_
  refine (blames_expect .fromWord rfl).due.bind fun _ => blames_expression.due.bind fun start => ?_
  refine (blames_expect .toWord rfl).due.bind fun _ => blames_expression.due.bind fun stop => ?_
  refine (blames_expect .rangeEnd rfl).due.bind fun _ => ?_
  exact (blames_blockWith h .loopBody rfl).bind_pure _

theorem blames_stepLoopWith (h : Blames (StartsIn statementStarts) nested Due) :
    Blames (StartsIn typeWords) (stepLoopWith nested) Due := by
  refine blames_declaration.bind fun init => blames_condition.due.bind fun condition => ?_
  refine (blames_expect .loopConditionEnd rfl).due.bind fun _ => blames_step.due.bind fun step => ?_
  refine (blames_expect .stepEnd rfl).due.bind fun _ => ?_
  exact (blames_blockWith h .loopBody rfl).bind_pure _

theorem blames_forWith (h : Blames (StartsIn statementStarts) nested Due) :
    Blames (StartsIn (.keyword .for_)) (forWith nested) Due := by
  refine Blames.bind Blames.expect_of_startsIn fun _ => ?_
  refine (blames_expect .forHeader rfl).due.bind fun _ => ?_
  refine .nextIn_bind (blames_rangeLoopWith h) ?_
  exact .nextIn_bind (blames_stepLoopWith h) (blames_fail .loopStart rfl).due

theorem blames_whileLoopWith (h : Blames (StartsIn statementStarts) nested Due) :
    Blames (StartsIn (.keyword .while_)) (whileLoopWith nested) Due := by
  refine Blames.bind Blames.expect_of_startsIn fun _ => ?_
  refine (blames_expect .whileCondition rfl).due.bind fun _ => blames_condition.due.bind fun _ => ?_
  refine (blames_expect .conditionEnd rfl).due.bind fun _ => ?_
  exact (blames_blockWith h .loopBody rfl).bind_pure _

/-- The words by which a block goes on are just those by which some statement is chosen. -/
theorem blames_statementWith (h : Blames (StartsIn statementStarts) nested Due) :
    Blames (StartsIn statementStarts) (statementWith nested) Due := by
  refine .nextIn_bind (blames_declaration.bind_pure _) ?_
  refine .nextIn_bind blames_returnStmt.due ?_
  refine .nextIn_bind blames_callStmt.due ?_
  refine .nextIn_bind (blames_ifWith h) ?_
  refine .nextIn_bind (blames_forWith h) ?_
  refine .nextIn_bind (blames_whileLoopWith h) ?_
  refine .nextIn_bind blames_assignStmt.due.of_anywhere (.fail ?_)
  -- No token is left that is not chosen.
  rintro _ ⟨⟨⟨⟨⟨⟨⟨⟨t, us, rfl, hstarts⟩, htype⟩, hreturn⟩, hcall⟩, hif⟩, hfor⟩, hwhile⟩, hoperation⟩
  rw [clear_cons] at htype hreturn hcall hif hfor hwhile hoperation
  have hwords : statementWords t.kind = false := by
    simp only [KindClass.keyword, beq_eq_false_iff_ne] at hreturn hcall hif hfor hwhile
    simp [statementWords, hreturn, hcall, hif, hfor, hwhile]
  rw [statementStarts, htype, hwords, hoperation] at hstarts
  cases hstarts

end

/-- No statement is begun where none can begin. -/
theorem blames_statement : Blames (StartsIn statementStarts) statement Due :=
  .of_rule statement_eq (fun _ _ h => agree_statementWith h shrinks_statement.keeps)
    (fun _ => blames_statementWith) due_typeName

theorem blames_parameter : Blames Anywhere parameter Due :=
  blames_typeRef.bind fun _ => (blames_expect .parameterName rfl).due.bind_pure _

theorem blames_returnType : Blames Anywhere returnType Due :=
  .take_bind (fun _ _ => .pure _) (.nextIn_bind blames_typeRef.of_anywhere (.pure _))

theorem blames_function : Blames (StartsIn (.keyword .func)) function Due := by
  refine Blames.bind Blames.expect_of_startsIn fun _ => blames_returnType.bind fun returns => ?_
  refine (blames_expect .functionName rfl).due.bind fun name => ?_
  refine (blames_expect .parameterList rfl).due.bind fun _ => ?_
  refine blames_parameter.listUntil.bind fun params => ?_
  refine (blames_expect .parameterListEnd rfl).due.bind fun _ => ?_
  exact (blames_blockWith blames_statement .functionBody rfl).bind_pure _

theorem blames_item : Blames Anywhere item Due := by
  refine .nextIn_bind (blames_function.bind_pure _) ?_
  refine .nextIn_bind (blames_declaration.bind_pure _) ?_
  refine .nextIn_bind ?_ (blames_fail .item rfl).due
  have hstatement : Blames (StartsIn outerStatementStarts) statement Due := by
    refine blames_statement.restrict fun ts hts => hts.mono fun kind hkind => ?_
    rw [outerStatementStarts, Bool.and_eq_true] at hkind
    exact hkind.1
  exact hstatement.bind_pure _

theorem blames_program : Blames Anywhere program Due :=
  (Blames.ifNext blames_item.of_anywhere).many.bind_pure _

end Grammar

namespace Program

open Grammar Jam.Parser

/-- What a syntax error can be. -/
theorem due_of_ofTokens_error {ts : List Token} {e : SyntaxError} (h : ofTokens ts = .error e) :
    e.fault.isGuarded = false ∧
      (e.fault = .numberValue → ∃ t, e.found = some t ∧ t.kind = .number ∧ t.literal = none) := by
  unfold ofTokens at h
  split at h
  · cases h
  · next f hprogram =>
    cases h
    have hdue := blames_program (Token.beforeEnd ts) trivial f hprogram
    exact ⟨hdue.unguarded, hdue.valueless⟩

end Program
end Jam
