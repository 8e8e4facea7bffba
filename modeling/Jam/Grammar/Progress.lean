import Jam.Grammar.Program

/-!
Parsers never lengthen their input, and every rule takes a token. Only repetitions and optional
parts may leave their input as it is.
-/
namespace Jam.Parser

variable {α β : Type}

theorem bind_apply (p : Parser α) (f : α → Parser β) (ts : List Token) :
    (p >>= f) ts = match p ts with
      | .ok (a, rest) => f a rest
      | .error e => .error e := by
  change (p ts >>= fun x => f x.1 x.2) = _
  cases p ts <;> rfl

theorem exists_of_bind {p : Parser α} {f : α → Parser β} {ts rest : List Token} {b : β}
    (h : (p >>= f) ts = .ok (b, rest)) :
    ∃ a mid, p ts = .ok (a, mid) ∧ f a mid = .ok (b, rest) := by
  rw [bind_apply] at h
  match e : p ts with
  | .ok (a, mid) =>
    rw [e] at h
    exact ⟨a, mid, rfl, h⟩
  | .error _ =>
    rw [e] at h
    cases h

theorem eq_cons_of_take? {k : KindClass} {ts rest : List Token} {t : Token}
    (h : take? k ts = .ok (some t, rest)) : ts = t :: rest ∧ k t.kind = true := by
  match ts with
  | [] => cases h
  | u :: us =>
    by_cases hu : k u.kind
    · simp only [take?, hu, ↓reduceIte] at h
      cases h
      exact ⟨rfl, hu⟩
    · simp only [take?, hu] at h
      cases h

theorem eq_of_take?_none {k : KindClass} {ts rest : List Token}
    (h : take? k ts = .ok (none, rest)) : rest = ts := by
  match ts with
  | [] =>
    cases h
    rfl
  | u :: us =>
    by_cases hu : k u.kind
    · simp only [take?, hu, ↓reduceIte] at h
      cases h
    · simp only [take?, hu] at h
      cases h
      rfl

/-- What is left is not longer than the input. -/
def Keeps (p : Parser α) : Prop :=
  ∀ ts a rest, p ts = .ok (a, rest) → rest.length ≤ ts.length

/-- What is left is shorter than the input. -/
def Shrinks (p : Parser α) : Prop :=
  ∀ ts a rest, p ts = .ok (a, rest) → rest.length < ts.length

/-- What is left is shorter than the input if there is an item. -/
def ItemShrinks (item? : Parser (Option α)) : Prop :=
  ∀ ts a rest, item? ts = .ok (some a, rest) → rest.length < ts.length

theorem Shrinks.keeps {p : Parser α} (h : Shrinks p) : Keeps p :=
  fun ts a rest e => Nat.le_of_lt (h ts a rest e)

theorem keeps_pure (a : α) : Keeps (pure a : Parser α) := by
  intro ts b rest h
  cases h
  exact Nat.le_refl _

theorem shrinks_fail (fault : SyntaxFault) : Shrinks (fail fault : Parser α) := by
  intro ts a rest h
  cases h

theorem shrinks_failAt (t : Token) (fault : SyntaxFault) :
    Shrinks (failAt t fault : Parser α) := by
  intro ts a rest h
  cases h

theorem keeps_nextIn (k : KindClass) : Keeps (nextIn k) := by
  intro ts a rest h
  cases h
  exact Nat.le_refl _

theorem Keeps.bind {p : Parser α} {f : α → Parser β} (hp : Keeps p) (hf : ∀ a, Keeps (f a)) :
    Keeps (p >>= f) := by
  intro ts b rest h
  obtain ⟨a, mid, h₁, h₂⟩ := exists_of_bind h
  exact Nat.le_trans (hf a mid b rest h₂) (hp ts a mid h₁)

theorem Shrinks.bind {p : Parser α} {f : α → Parser β} (hp : Shrinks p)
    (hf : ∀ a, Keeps (f a)) : Shrinks (p >>= f) := by
  intro ts b rest h
  obtain ⟨a, mid, h₁, h₂⟩ := exists_of_bind h
  exact Nat.lt_of_le_of_lt (hf a mid b rest h₂) (hp ts a mid h₁)

theorem Keeps.bind_shrinks {p : Parser α} {f : α → Parser β} (hp : Keeps p)
    (hf : ∀ a, Shrinks (f a)) : Shrinks (p >>= f) := by
  intro ts b rest h
  obtain ⟨a, mid, h₁, h₂⟩ := exists_of_bind h
  exact Nat.lt_of_lt_of_le (hf a mid b rest h₂) (hp ts a mid h₁)

theorem Keeps.ite {c : Prop} [Decidable c] {p q : Parser α} (hp : Keeps p) (hq : Keeps q) :
    Keeps (if c then p else q) := by
  split
  · exact hp
  · exact hq

theorem Shrinks.ite {c : Prop} [Decidable c] {p q : Parser α} (hp : Shrinks p)
    (hq : Shrinks q) : Shrinks (if c then p else q) := by
  split
  · exact hp
  · exact hq

theorem Keeps.take_bind {k : KindClass} {f : Option Token → Parser β}
    (hs : ∀ t, Keeps (f (some t))) (hn : Keeps (f none)) : Keeps (take? k >>= f) := by
  intro ts b rest h
  obtain ⟨a, mid, h₁, h₂⟩ := exists_of_bind h
  cases a with
  | some t =>
    have := hs t mid b rest h₂
    rw [(eq_cons_of_take? h₁).1, List.length_cons]
    omega
  | none =>
    rw [← eq_of_take?_none h₁]
    exact hn mid b rest h₂

theorem Shrinks.take_bind {k : KindClass} {f : Option Token → Parser β}
    (hs : ∀ t, Keeps (f (some t))) (hn : Shrinks (f none)) : Shrinks (take? k >>= f) := by
  intro ts b rest h
  obtain ⟨a, mid, h₁, h₂⟩ := exists_of_bind h
  cases a with
  | some t =>
    have := hs t mid b rest h₂
    rw [(eq_cons_of_take? h₁).1, List.length_cons]
    omega
  | none =>
    rw [← eq_of_take?_none h₁]
    exact hn mid b rest h₂

theorem shrinks_expect (k : KindClass) (fault : SyntaxFault) : Shrinks (expect k fault) :=
  .take_bind (fun t => keeps_pure t) (shrinks_fail fault)

theorem Keeps.ifNext {k : KindClass} {item : Parser α} (h : Keeps item) :
    Keeps (ifNext k item) :=
  (keeps_nextIn k).bind fun _ => .ite (h.bind fun a => keeps_pure (some a)) (keeps_pure none)

theorem Shrinks.itemShrinks_ifNext {k : KindClass} {item : Parser α} (h : Shrinks item) :
    ItemShrinks (ifNext k item) := by
  intro ts a rest e
  obtain ⟨b, mid, h₁, h₂⟩ := exists_of_bind e
  cases h₁
  cases hb : ts.head?.any (k ·.kind) with
  | true =>
    rw [hb] at h₂
    obtain ⟨c, end', h₃, h₄⟩ := exists_of_bind h₂
    cases h₄
    exact h ts a rest h₃
  | false =>
    rw [hb] at h₂
    cases h₂

theorem Keeps.led {k : KindClass} {item : Parser α} (h : Keeps item) : Keeps (led k item) :=
  .take_bind (fun _ => h.bind fun a => keeps_pure (some a)) (keeps_pure none)

theorem Keeps.itemShrinks_led {k : KindClass} {item : Parser α} (h : Keeps item) :
    ItemShrinks (Parser.led k item) := by
  intro ts a rest e
  obtain ⟨b, mid, h₁, h₂⟩ := exists_of_bind e
  cases b with
  | some t =>
    obtain ⟨c, end', h₃, h₄⟩ := exists_of_bind h₂
    cases h₄
    have := h mid a rest h₃
    rw [(eq_cons_of_take? h₁).1, List.length_cons]
    omega
  | none => cases h₂

theorem Keeps.manyWithin {item? : Parser (Option α)} (h : Keeps item?) (rounds : List Token) :
    Keeps (manyWithin item? rounds) := by
  induction rounds with
  | nil => exact keeps_pure []
  | cons _ rounds ih =>
    refine h.bind fun a? => ?_
    cases a? with
    | some a => exact ih.bind fun as => keeps_pure (a :: as)
    | none => exact keeps_pure []

theorem Keeps.many {item? : Parser (Option α)} (h : Keeps item?) : Keeps (many item?) :=
  fun ts => h.manyWithin ts ts

theorem Shrinks.oneOrMore {k : KindClass} {item : Parser α} (h : Shrinks item) :
    Shrinks (oneOrMore k item) :=
  h.bind fun a => h.keeps.ifNext.many.bind fun as => keeps_pure (a :: as)

theorem Shrinks.commaSeparated {item : Parser α} (h : Shrinks item) :
    Shrinks (commaSeparated item) :=
  h.bind fun a => h.keeps.led.many.bind fun as => keeps_pure (a :: as)

theorem Shrinks.listUntil {close : Symbol} {item : Parser α} (h : Shrinks item) :
    Keeps (listUntil close item) :=
  (keeps_nextIn _).bind fun _ => .ite (keeps_pure []) h.commaSeparated.keeps

end Jam.Parser

namespace Jam.Grammar

open Jam.Parser

section

variable {nested : Parser Expr}

theorem keeps_indexWith (h : Keeps nested) : Keeps (do
    let index ← nested
    let _ ← symbol .rightBracket .indexEnd
    return index) :=
  h.bind fun index => (shrinks_expect _ _).keeps.bind fun _ => keeps_pure index

theorem keeps_indicesWith (h : Keeps nested) : Keeps (indicesWith nested) :=
  (keeps_indexWith h).led.many

theorem shrinks_callWith (h : Shrinks nested) : Shrinks (callWith nested) :=
  (shrinks_expect _ _).bind fun _ => (shrinks_expect _ _).keeps.bind fun _ =>
    (shrinks_expect _ _).keeps.bind fun _ => h.listUntil.bind fun _ =>
      (shrinks_expect _ _).keeps.bind fun _ => keeps_pure _

theorem shrinks_atomWith (h : Keeps nested) : Shrinks (atomWith nested) := by
  refine .take_bind (fun t => ?_) (.take_bind (fun t => ?_) (.take_bind (fun t => ?_) ?_))
  · cases e : t.literal with
    | some value =>
      simp only [e]
      exact keeps_pure _
    | none =>
      simp only [e]
      exact (shrinks_failAt t .numberValue).keeps
  · exact (keeps_indicesWith h).bind fun _ => keeps_pure _
  · exact h.bind fun inner => (shrinks_expect _ _).keeps.bind fun _ => keeps_pure _
  · exact shrinks_fail _

theorem shrinks_operationWith (h : Keeps nested) : Shrinks (operationWith nested) :=
  (shrinks_atomWith h).bind fun left => .take_bind
    (fun _ => (shrinks_atomWith h).keeps.bind fun _ => (keeps_nextIn _).bind fun _ =>
      .ite (shrinks_fail _).keeps (keeps_pure _))
    (keeps_pure left)

theorem shrinks_expressionWith (h : Shrinks nested) : Shrinks (expressionWith nested) :=
  (keeps_nextIn _).bind_shrinks fun _ => .ite
    ((shrinks_callWith h).bind fun call => (keeps_nextIn _).bind fun _ =>
      .ite (shrinks_fail _).keeps (keeps_pure call.expr))
    (shrinks_operationWith h.keeps)

end

theorem shrinks_expressionWithin (depth : List Token) : Shrinks (expressionWithin depth) := by
  induction depth with
  | nil => exact shrinks_fail _
  | cons _ depth ih => exact shrinks_expressionWith ih

theorem shrinks_expression : Shrinks expression :=
  fun ts => shrinks_expressionWithin ts ts

theorem shrinks_call : Shrinks call := shrinks_callWith shrinks_expression

theorem shrinks_operation : Shrinks operation := shrinks_operationWith shrinks_expression.keeps

theorem keeps_indices : Keeps indices := keeps_indicesWith shrinks_expression.keeps

theorem shrinks_condition : Shrinks condition :=
  shrinks_expression.bind fun _ => (shrinks_expect _ _).keeps.bind fun _ =>
    shrinks_expression.keeps.bind fun _ => keeps_pure _

theorem shrinks_arrayOrScalar {α : Type} {bracketed : Parser α} (h : Shrinks bracketed) :
    Shrinks (arrayOrScalar bracketed) := by
  refine .take_bind (fun _ => (shrinks_expect _ _).keeps.bind fun word => ?_)
    ((shrinks_expect _ _).bind fun word => keeps_pure (word, []))
  exact h.oneOrMore.keeps.bind fun parts => keeps_pure (word, parts)

/-- The brackets of a type. -/
theorem shrinks_brackets : Shrinks (do
    let _ ← Parser.symbol .leftBracket .arrayBracket
    Parser.symbol .rightBracket .arrayTypeBracketEnd) :=
  (shrinks_expect _ _).bind fun _ => (shrinks_expect _ _).keeps

/-- The brackets of a dimension, with its size. -/
theorem shrinks_dimension : Shrinks (do
    let _ ← Parser.symbol .leftBracket .arrayBracket
    let size ← expression
    let _ ← Parser.symbol .rightBracket .dimensionEnd
    return size) :=
  (shrinks_expect _ _).bind fun _ => shrinks_expression.keeps.bind fun size =>
    (shrinks_expect _ _).keeps.bind fun _ => keeps_pure size

theorem shrinks_typeRef : Shrinks typeRef :=
  (shrinks_arrayOrScalar shrinks_brackets).bind fun _ => keeps_pure _

theorem shrinks_initializer (dims : Nat) : Shrinks (initializer dims) := by
  induction dims with
  | zero => exact shrinks_expression.bind fun _ => keeps_pure _
  | succ dims ih =>
    exact (shrinks_expect _ _).bind fun _ => ih.commaSeparated.keeps.bind fun _ =>
      (shrinks_expect _ _).keeps.bind fun _ => keeps_pure _

theorem shrinks_declaration : Shrinks declaration :=
  (shrinks_arrayOrScalar shrinks_dimension).bind fun _ =>
    (shrinks_expect _ _).keeps.bind fun _ => (shrinks_initializer _).keeps.led.bind fun _ =>
      (shrinks_expect _ _).keeps.led.many.bind fun _ => (shrinks_expect _ _).keeps.bind
        fun _ => keeps_pure _

theorem shrinks_target : Shrinks target :=
  (shrinks_expect _ _).bind fun _ => keeps_indices.bind fun _ => keeps_pure _

theorem shrinks_assignment : Shrinks assignment :=
  shrinks_operation.bind fun _ => (shrinks_expect _ _).keeps.bind fun _ =>
    shrinks_target.keeps.bind fun _ => keeps_pure _

theorem shrinks_step : Shrinks step :=
  (keeps_nextIn _).bind_shrinks fun _ => .ite
    (shrinks_call.bind fun _ => (shrinks_expect _ _).keeps.bind fun _ =>
      shrinks_target.keeps.bind fun _ => keeps_pure _)
    shrinks_assignment

theorem shrinks_assignStmt : Shrinks assignStmt :=
  shrinks_assignment.bind fun _ => (shrinks_expect _ _).keeps.bind fun _ => keeps_pure _

theorem shrinks_returnStmt : Shrinks returnStmt :=
  (shrinks_expect _ _).bind fun _ => shrinks_expression.keeps.bind fun _ =>
    (shrinks_expect _ _).keeps.bind fun _ => keeps_pure _

theorem shrinks_callStmt : Shrinks callStmt := by
  refine shrinks_call.bind fun call => shrinks_target.keeps.led.bind fun target? => ?_
  cases target? with
  | some target => exact (shrinks_expect _ _).keeps.bind fun _ => keeps_pure _
  | none => exact (shrinks_expect _ _).keeps.bind fun _ => keeps_pure _

section

variable {nested : Parser Stmt}

theorem shrinks_blockWith (h : Keeps nested) (fault : SyntaxFault) :
    Shrinks (blockWith nested fault) :=
  (shrinks_expect _ _).bind fun _ => h.ifNext.many.bind fun body =>
    (shrinks_expect _ _).keeps.bind fun _ => keeps_pure body

theorem shrinks_armWith (h : Keeps nested) : Shrinks (armWith nested) :=
  (shrinks_expect _ _).bind fun _ => shrinks_condition.keeps.bind fun _ =>
    (shrinks_expect _ _).keeps.bind fun _ => (shrinks_blockWith h _).keeps.bind
      fun _ => keeps_pure _

theorem shrinks_furtherArmWith (h : Keeps nested) : Shrinks (do
    let _ ← keyword .if_ .ifAfterOr
    armWith nested) :=
  (shrinks_expect _ _).bind fun _ => (shrinks_armWith h).keeps

theorem shrinks_ifWith (h : Keeps nested) : Shrinks (ifWith nested) :=
  (shrinks_expect _ _).bind fun _ => (shrinks_armWith h).keeps.bind fun _ =>
    (shrinks_furtherArmWith h).keeps.led.many.bind fun _ =>
      (shrinks_blockWith h _).keeps.led.bind fun _ => keeps_pure _

theorem shrinks_rangeLoopWith (h : Keeps nested) : Shrinks (rangeLoopWith nested) :=
  (shrinks_expect _ _).bind fun _ => (shrinks_expect _ _).keeps.bind fun _ =>
    (shrinks_expect _ _).keeps.bind fun _ => shrinks_expression.keeps.bind fun _ =>
      (shrinks_expect _ _).keeps.bind fun _ => shrinks_expression.keeps.bind fun _ =>
        (shrinks_expect _ _).keeps.bind fun _ => (shrinks_blockWith h _).keeps.bind
          fun _ => keeps_pure _

theorem shrinks_stepLoopWith (h : Keeps nested) : Shrinks (stepLoopWith nested) :=
  shrinks_declaration.bind fun _ => shrinks_condition.keeps.bind fun _ =>
    (shrinks_expect _ _).keeps.bind fun _ => shrinks_step.keeps.bind fun _ =>
      (shrinks_expect _ _).keeps.bind fun _ => (shrinks_blockWith h _).keeps.bind
        fun _ => keeps_pure _

theorem shrinks_forWith (h : Keeps nested) : Shrinks (forWith nested) :=
  (shrinks_expect _ _).bind fun _ => (shrinks_expect _ _).keeps.bind fun _ =>
    (keeps_nextIn _).bind fun _ => .ite (shrinks_rangeLoopWith h).keeps <|
      (keeps_nextIn _).bind fun _ => .ite (shrinks_stepLoopWith h).keeps (shrinks_fail _).keeps

theorem shrinks_whileLoopWith (h : Keeps nested) : Shrinks (whileLoopWith nested) :=
  (shrinks_expect _ _).bind fun _ => (shrinks_expect _ _).keeps.bind fun _ =>
    shrinks_condition.keeps.bind fun _ => (shrinks_expect _ _).keeps.bind fun _ =>
      (shrinks_blockWith h _).keeps.bind fun _ => keeps_pure _

theorem shrinks_statementWith (h : Keeps nested) : Shrinks (statementWith nested) := by
  refine (keeps_nextIn _).bind_shrinks fun _ => .ite
    (shrinks_declaration.bind fun _ => keeps_pure _) ?_
  refine (keeps_nextIn _).bind_shrinks fun _ => .ite shrinks_returnStmt ?_
  refine (keeps_nextIn _).bind_shrinks fun _ => .ite shrinks_callStmt ?_
  refine (keeps_nextIn _).bind_shrinks fun _ => .ite (shrinks_ifWith h) ?_
  refine (keeps_nextIn _).bind_shrinks fun _ => .ite (shrinks_forWith h) ?_
  refine (keeps_nextIn _).bind_shrinks fun _ => .ite (shrinks_whileLoopWith h) ?_
  exact (keeps_nextIn _).bind_shrinks fun _ => .ite shrinks_assignStmt (shrinks_fail _)

end

theorem shrinks_statementWithin (depth : List Token) : Shrinks (statementWithin depth) := by
  induction depth with
  | nil => exact shrinks_fail _
  | cons _ depth ih => exact shrinks_statementWith ih.keeps

theorem shrinks_statement : Shrinks statement :=
  fun ts => shrinks_statementWithin ts ts

theorem shrinks_parameter : Shrinks parameter :=
  shrinks_typeRef.bind fun _ => (shrinks_expect _ _).keeps.bind fun _ => keeps_pure _

theorem keeps_returnType : Keeps returnType :=
  .take_bind (fun _ => keeps_pure _) <| (keeps_nextIn _).bind fun _ =>
    .ite shrinks_typeRef.keeps (keeps_pure _)

theorem shrinks_function : Shrinks function :=
  (shrinks_expect _ _).bind fun _ => keeps_returnType.bind fun _ =>
    (shrinks_expect _ _).keeps.bind fun _ => (shrinks_expect _ _).keeps.bind fun _ =>
      shrinks_parameter.listUntil.bind fun _ => (shrinks_expect _ _).keeps.bind fun _ =>
        (shrinks_blockWith shrinks_statement.keeps _).keeps.bind fun _ => keeps_pure _

theorem shrinks_item : Shrinks item := by
  refine (keeps_nextIn _).bind_shrinks fun _ => .ite
    (shrinks_function.bind fun _ => keeps_pure _) ?_
  refine (keeps_nextIn _).bind_shrinks fun _ => .ite
    (shrinks_declaration.bind fun _ => keeps_pure _) ?_
  exact (keeps_nextIn _).bind_shrinks fun _ => .ite
    (shrinks_statement.bind fun _ => keeps_pure _) (shrinks_fail _)

end Jam.Grammar
