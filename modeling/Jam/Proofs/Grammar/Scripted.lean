import Jam.Proofs.Grammar.Script

/-!
Every rule of the grammar is a script: up to any length of its input it does nothing but look at
the next token and take it.
-/
namespace Jam.Parser

variable {α β : Type}

/-- Up to any length of its input, a parser is a script. -/
def Scripted (p : Parser α) : Prop := ∀ n, ∃ s : Script α, AgreeBelow n p s.parser

namespace Scripted

variable {p q item : Parser α} {k : KindClass}

theorem of_script {s : Script α} (h : p = s.parser) : Scripted p := by
  subst h
  exact fun n => ⟨s, .refl n _⟩

/-- It is enough to agree, up to any length of the input, with some parser that is a script. -/
theorem of_agreeBelow (h : ∀ n, ∃ q, AgreeBelow n p q ∧ Scripted q) : Scripted p := by
  intro n
  obtain ⟨q, hpq, hq⟩ := h n
  obtain ⟨s, hs⟩ := hq n
  exact ⟨s, fun ts hts => (hpq ts hts).trans (hs ts hts)⟩

theorem keeps (h : Scripted p) : Keeps p := by
  intro ts a rest e
  obtain ⟨s, hs⟩ := h (ts.length + 1)
  rw [hs ts (Nat.lt_succ_self _)] at e
  exact s.keeps ts a rest e

theorem pure (a : α) : Scripted (Pure.pure a : Parser α) := of_script (s := .done a) rfl

theorem fail (fault : SyntaxFault) : Scripted (fail fault : Parser α) :=
  of_script (s := .fail fault) rfl

theorem failAt (t : Token) (fault : SyntaxFault) : Scripted (failAt t fault : Parser α) :=
  of_script (s := .failAt t fault) rfl

theorem nextIn (k : KindClass) : Scripted (nextIn k) :=
  of_script (s := .look k .done) (bind_pure _).symm

theorem take? (k : KindClass) : Scripted (take? k) :=
  of_script (s := .take k .done) (bind_pure _).symm

theorem bind {f : α → Parser β} (hp : Scripted p) (hf : ∀ a, Scripted (f a)) :
    Scripted (p >>= f) := by
  intro n
  obtain ⟨s, hs⟩ := hp n
  choose g hg using fun a => hf a n
  refine ⟨s.bind g, ?_⟩
  rw [Script.parser_bind]
  exact hs.bind hp.keeps hg

/-- The last step of a sequence only makes a result of what was read. -/
theorem bind_pure (g : α → β) (hp : Scripted p) : Scripted (p >>= fun a => Pure.pure (g a)) :=
  hp.bind fun a => pure (g a)

theorem ite {c : Prop} [Decidable c] (hp : Scripted p) (hq : Scripted q) :
    Scripted (if c then p else q) := by
  split
  · exact hp
  · exact hq

theorem take_bind {f : Option Token → Parser β} (hs : ∀ t, Scripted (f (some t)))
    (hn : Scripted (f none)) : Scripted (Parser.take? k >>= f) := by
  apply (take? k).bind
  intro t?
  cases t? with
  | some t => exact hs t
  | none => exact hn

theorem expect (k : KindClass) (fault : SyntaxFault) : Scripted (expect k fault) :=
  take_bind (fun t => pure t) (fail fault)

theorem ifNext (h : Scripted item) : Scripted (ifNext k item) :=
  (nextIn k).bind fun _ => ite (h.bind_pure some) (pure none)

theorem led (h : Scripted item) : Scripted (led k item) :=
  take_bind (fun _ => h.bind_pure some) (pure none)

theorem manyWithin {item? : Parser (Option α)} (h : Scripted item?) (rounds : List Token) :
    Scripted (manyWithin item? rounds) := by
  induction rounds with
  | nil => exact pure []
  | cons _ rounds ih =>
    apply h.bind
    intro a?
    cases a? with
    | some a => exact ih.bind_pure (a :: ·)
    | none => exact pure []

theorem many {item? : Parser (Option α)} (h : Scripted item?) (hs : ItemShrinks item?)
    (hnil : item? [] = .ok (none, [])) : Scripted (many item?) := by
  refine of_agreeBelow fun n => ?_
  obtain ⟨rounds, hrounds⟩ := exists_manyWithin hs hnil n
  exact ⟨_, hrounds, h.manyWithin rounds⟩

theorem manyLed (h : Scripted item) : Scripted (Parser.many (Parser.led k item)) :=
  h.led.many h.keeps.itemShrinks_led (led_nil k item)

theorem manyIfNext (h : Scripted item) (hk : Shrinks item) :
    Scripted (Parser.many (Parser.ifNext k item)) :=
  h.ifNext.many hk.itemShrinks_ifNext (ifNext_nil k item)

theorem oneOrMore (h : Scripted item) (hk : Shrinks item) : Scripted (oneOrMore k item) :=
  h.bind fun a => (h.manyIfNext hk).bind_pure (a :: ·)

theorem commaSeparated (h : Scripted item) : Scripted (commaSeparated item) :=
  h.bind fun a => h.manyLed.bind_pure (a :: ·)

theorem listUntil {close : Symbol} (h : Scripted item) : Scripted (listUntil close item) :=
  (nextIn _).bind fun _ => ite (pure []) h.commaSeparated

end Scripted
end Jam.Parser

namespace Jam.Grammar

open Jam.Parser

section

variable {nested : Parser Expr}

theorem scripted_indicesWith (h : Scripted nested) : Scripted (indicesWith nested) :=
  (h.bind fun index => (Scripted.expect _ _).bind_pure fun _ => index).manyLed

theorem scripted_callWith (h : Scripted nested) : Scripted (callWith nested) :=
  (Scripted.expect _ _).bind fun _ => (Scripted.expect _ _).bind fun _ =>
    (Scripted.expect _ _).bind fun _ => h.listUntil.bind fun _ =>
      (Scripted.expect _ _).bind_pure _

theorem scripted_atomWith (h : Scripted nested) : Scripted (atomWith nested) := by
  refine .take_bind (fun t => ?_) (.take_bind (fun t => ?_) (.take_bind (fun t => ?_) ?_))
  · cases e : t.literal with
    | some value =>
      simp only [e]
      exact .pure _
    | none =>
      simp only [e]
      exact .failAt t .numberValue
  · exact (scripted_indicesWith h).bind_pure _
  · exact h.bind fun inner => (Scripted.expect _ _).bind_pure _
  · exact .fail _

theorem scripted_operationWith (h : Scripted nested) : Scripted (operationWith nested) := by
  refine (scripted_atomWith h).bind fun left => .take_bind (fun op => ?_) (.pure left)
  exact (scripted_atomWith h).bind fun right => (Scripted.nextIn _).bind fun _ =>
    .ite (.fail _) (.pure _)

theorem scripted_expressionWith (h : Scripted nested) : Scripted (expressionWith nested) := by
  refine (Scripted.nextIn _).bind fun _ => .ite ?_ (scripted_operationWith h)
  exact (scripted_callWith h).bind fun call => (Scripted.nextIn _).bind fun _ =>
    .ite (.fail _) (.pure _)

end

theorem scripted_expressionWithin (depth : List Token) : Scripted (expressionWithin depth) := by
  induction depth with
  | nil => exact .fail _
  | cons _ depth ih => exact scripted_expressionWith ih

theorem scripted_expression : Scripted expression := by
  refine .of_agreeBelow fun n => ?_
  obtain ⟨depth, hdepth⟩ := exists_expressionWithin n
  exact ⟨_, hdepth, scripted_expressionWithin depth⟩

theorem scripted_indices : Scripted indices := scripted_indicesWith scripted_expression

theorem scripted_call : Scripted call := scripted_callWith scripted_expression

theorem scripted_operation : Scripted operation := scripted_operationWith scripted_expression

theorem scripted_condition : Scripted condition :=
  scripted_expression.bind fun _ => (Scripted.expect _ _).bind fun _ =>
    scripted_expression.bind_pure _

theorem scripted_arrayOrScalar {α : Type} {bracketed : Parser α} (h : Scripted bracketed)
    (hk : Shrinks bracketed) : Scripted (arrayOrScalar bracketed) :=
  .take_bind
    (fun _ => (Scripted.expect _ _).bind fun word => (h.oneOrMore hk).bind_pure (word, ·))
    ((Scripted.expect _ _).bind_pure fun word => (word, []))

theorem scripted_typeRef : Scripted typeRef :=
  (scripted_arrayOrScalar ((Scripted.expect _ _).bind fun _ => .expect _ _)
    shrinks_brackets).bind_pure _

theorem scripted_initializer (dims : Nat) : Scripted (initializer dims) := by
  induction dims with
  | zero => exact scripted_expression.bind_pure _
  | succ dims ih =>
    exact (Scripted.expect _ _).bind fun _ => ih.commaSeparated.bind fun _ =>
      (Scripted.expect _ _).bind_pure _

theorem scripted_declaration : Scripted declaration := by
  have hdimension := (Scripted.expect (.symbol .leftBracket) .arrayBracket).bind fun _ =>
    scripted_expression.bind fun size =>
      (Scripted.expect (.symbol .rightBracket) .dimensionEnd).bind_pure fun _ => size
  exact (scripted_arrayOrScalar hdimension shrinks_dimension).bind fun _ =>
    (Scripted.expect _ _).bind fun _ => (scripted_initializer _).led.bind fun _ =>
      (Scripted.expect _ _).manyLed.bind fun _ => (Scripted.expect _ _).bind_pure _

theorem scripted_target : Scripted target :=
  (Scripted.expect _ _).bind fun _ => scripted_indices.bind_pure _

theorem scripted_assignment : Scripted assignment :=
  scripted_operation.bind fun _ => (Scripted.expect _ _).bind fun _ => scripted_target.bind_pure _

theorem scripted_step : Scripted step := by
  refine (Scripted.nextIn _).bind fun _ => .ite ?_ scripted_assignment
  exact scripted_call.bind fun _ => (Scripted.expect _ _).bind fun _ => scripted_target.bind_pure _

theorem scripted_assignStmt : Scripted assignStmt :=
  scripted_assignment.bind fun _ => (Scripted.expect _ _).bind_pure _

theorem scripted_returnStmt : Scripted returnStmt :=
  (Scripted.expect _ _).bind fun _ => scripted_expression.bind fun _ =>
    (Scripted.expect _ _).bind_pure _

theorem scripted_callStmt : Scripted callStmt := by
  refine scripted_call.bind fun call => scripted_target.led.bind fun target? => ?_
  cases target? with
  | some target => exact (Scripted.expect _ _).bind_pure _
  | none => exact (Scripted.expect _ _).bind_pure _

section

variable {nested : Parser Stmt}

theorem scripted_blockWith (h : Scripted nested) (hn : Shrinks nested) (fault : SyntaxFault) :
    Scripted (blockWith nested fault) :=
  (Scripted.expect _ _).bind fun _ => (h.manyIfNext hn).bind fun _ =>
    (Scripted.expect _ _).bind_pure _

theorem scripted_armWith (h : Scripted nested) (hn : Shrinks nested) :
    Scripted (armWith nested) :=
  (Scripted.expect _ _).bind fun _ => scripted_condition.bind fun _ =>
    (Scripted.expect _ _).bind fun _ => (scripted_blockWith h hn _).bind_pure _

theorem scripted_ifWith (h : Scripted nested) (hn : Shrinks nested) :
    Scripted (ifWith nested) := by
  have hfurther := (Scripted.expect (.keyword .if_) .ifAfterOr).bind fun _ =>
    scripted_armWith h hn
  exact (Scripted.expect _ _).bind fun _ => (scripted_armWith h hn).bind fun _ =>
    hfurther.manyLed.bind fun _ => (scripted_blockWith h hn _).led.bind_pure _

theorem scripted_rangeLoopWith (h : Scripted nested) (hn : Shrinks nested) :
    Scripted (rangeLoopWith nested) :=
  (Scripted.expect _ _).bind fun _ => (Scripted.expect _ _).bind fun _ =>
    (Scripted.expect _ _).bind fun _ => scripted_expression.bind fun _ =>
      (Scripted.expect _ _).bind fun _ => scripted_expression.bind fun _ =>
        (Scripted.expect _ _).bind fun _ => (scripted_blockWith h hn _).bind_pure _

theorem scripted_stepLoopWith (h : Scripted nested) (hn : Shrinks nested) :
    Scripted (stepLoopWith nested) :=
  scripted_declaration.bind fun _ => scripted_condition.bind fun _ =>
    (Scripted.expect _ _).bind fun _ => scripted_step.bind fun _ =>
      (Scripted.expect _ _).bind fun _ => (scripted_blockWith h hn _).bind_pure _

theorem scripted_forWith (h : Scripted nested) (hn : Shrinks nested) :
    Scripted (forWith nested) :=
  (Scripted.expect _ _).bind fun _ => (Scripted.expect _ _).bind fun _ =>
    (Scripted.nextIn _).bind fun _ => .ite (scripted_rangeLoopWith h hn) <|
      (Scripted.nextIn _).bind fun _ => .ite (scripted_stepLoopWith h hn) (.fail _)

theorem scripted_whileLoopWith (h : Scripted nested) (hn : Shrinks nested) :
    Scripted (whileLoopWith nested) :=
  (Scripted.expect _ _).bind fun _ => (Scripted.expect _ _).bind fun _ =>
    scripted_condition.bind fun _ => (Scripted.expect _ _).bind fun _ =>
      (scripted_blockWith h hn _).bind_pure _

theorem scripted_statementWith (h : Scripted nested) (hn : Shrinks nested) :
    Scripted (statementWith nested) := by
  refine (Scripted.nextIn _).bind fun _ => .ite (scripted_declaration.bind_pure _) ?_
  refine (Scripted.nextIn _).bind fun _ => .ite scripted_returnStmt ?_
  refine (Scripted.nextIn _).bind fun _ => .ite scripted_callStmt ?_
  refine (Scripted.nextIn _).bind fun _ => .ite (scripted_ifWith h hn) ?_
  refine (Scripted.nextIn _).bind fun _ => .ite (scripted_forWith h hn) ?_
  refine (Scripted.nextIn _).bind fun _ => .ite (scripted_whileLoopWith h hn) ?_
  exact (Scripted.nextIn _).bind fun _ => .ite scripted_assignStmt (.fail _)

end

theorem scripted_statementWithin (depth : List Token) : Scripted (statementWithin depth) := by
  induction depth with
  | nil => exact .fail _
  | cons _ depth ih => exact scripted_statementWith ih (shrinks_statementWithin depth)

theorem scripted_statement : Scripted statement := by
  refine .of_agreeBelow fun n => ?_
  obtain ⟨depth, hdepth⟩ := exists_statementWithin n
  exact ⟨_, hdepth, scripted_statementWithin depth⟩

theorem scripted_block (fault : SyntaxFault) : Scripted (block fault) :=
  scripted_blockWith scripted_statement shrinks_statement fault

theorem scripted_parameter : Scripted parameter :=
  scripted_typeRef.bind fun _ => (Scripted.expect _ _).bind_pure _

theorem scripted_returnType : Scripted returnType :=
  .take_bind (fun _ => .pure _) <|
    (Scripted.nextIn _).bind fun _ => .ite scripted_typeRef (.pure _)

theorem scripted_function : Scripted function :=
  (Scripted.expect _ _).bind fun _ => scripted_returnType.bind fun _ =>
    (Scripted.expect _ _).bind fun _ => (Scripted.expect _ _).bind fun _ =>
      scripted_parameter.listUntil.bind fun _ => (Scripted.expect _ _).bind fun _ =>
        (scripted_block _).bind_pure _

theorem scripted_item : Scripted item := by
  refine (Scripted.nextIn _).bind fun _ => .ite (scripted_function.bind_pure _) ?_
  refine (Scripted.nextIn _).bind fun _ => .ite (scripted_declaration.bind_pure _) ?_
  exact (Scripted.nextIn _).bind fun _ => .ite (scripted_statement.bind_pure _) (.fail _)

theorem scripted_program : Scripted program :=
  (scripted_item.manyIfNext shrinks_item).bind_pure _

end Jam.Grammar
