import Jam.Grammar.Progress

/-!
What is nested in an expression or a statement is shorter than the whole, so the bound on depth is
never met. Hence repetitions, expressions and statements satisfy the equations of their grammar.
-/
namespace Jam.Parser

variable {α β : Type}

/-- Two parsers do the same to all inputs shorter than a bound. -/
def AgreeBelow (n : Nat) (p q : Parser α) : Prop := ∀ ts, ts.length < n → p ts = q ts

namespace AgreeBelow

theorem refl (n : Nat) (p : Parser α) : AgreeBelow n p p := fun _ _ => rfl

theorem mono {m n : Nat} {p q : Parser α} (h : AgreeBelow n p q) (hmn : m ≤ n) :
    AgreeBelow m p q := fun ts hts => h ts (Nat.lt_of_lt_of_le hts hmn)

theorem bind {n : Nat} {p q : Parser α} {f g : α → Parser β} (h : AgreeBelow n p q)
    (hp : Keeps p) (hf : ∀ a, AgreeBelow n (f a) (g a)) : AgreeBelow n (p >>= f) (q >>= g) := by
  intro ts hts
  rw [bind_apply, bind_apply, ← h ts hts]
  match e : p ts with
  | .ok (a, rest) => exact hf a rest (Nat.lt_of_le_of_lt (hp ts a rest e) hts)
  | .error _ => rfl

/-- What comes after a parser that takes a token has a shorter input. -/
theorem bind_succ {n : Nat} {p q : Parser α} {f g : α → Parser β}
    (h : AgreeBelow (n + 1) p q) (hp : Shrinks p) (hf : ∀ a, AgreeBelow n (f a) (g a)) :
    AgreeBelow (n + 1) (p >>= f) (q >>= g) := by
  intro ts hts
  rw [bind_apply, bind_apply, ← h ts hts]
  match e : p ts with
  | .ok (a, rest) =>
    have := hp ts a rest e
    exact hf a rest (by omega)
  | .error _ => rfl

theorem take_bind {n : Nat} {k : KindClass} {f g : Option Token → Parser β}
    (hs : ∀ t, AgreeBelow n (f (some t)) (g (some t)))
    (hn : AgreeBelow (n + 1) (f none) (g none)) :
    AgreeBelow (n + 1) (take? k >>= f) (take? k >>= g) := by
  intro ts hts
  rw [bind_apply, bind_apply]
  match e : take? k ts with
  | .ok (some t, rest) =>
    have h := congrArg List.length (eq_cons_of_take? e).1
    rw [List.length_cons] at h
    exact hs t rest (by omega)
  | .ok (none, rest) =>
    rw [eq_of_take?_none e]
    exact hn ts hts
  | .error _ => rfl

theorem ite {n : Nat} {c : Prop} [Decidable c] {p p' q q' : Parser α}
    (hp : AgreeBelow n p p') (hq : AgreeBelow n q q') :
    AgreeBelow n (if c then p else q) (if c then p' else q') := by
  split
  · exact hp
  · exact hq

theorem ifNext {n : Nat} {k : KindClass} {item item' : Parser α} (h : AgreeBelow n item item')
    (hi : Keeps item) : AgreeBelow n (ifNext k item) (ifNext k item') :=
  (refl n _).bind (keeps_nextIn k) fun _ => .ite (h.bind hi fun _ => refl n _) (refl n _)

theorem led {n : Nat} {k : KindClass} {item item' : Parser α} (h : AgreeBelow n item item')
    (hi : Keeps item) : AgreeBelow (n + 1) (led k item) (led k item') :=
  take_bind (fun _ => h.bind hi fun _ => refl n _) (refl _ _)

theorem manyWithin {n : Nat} {item? item?' : Parser (Option α)} (h : AgreeBelow n item? item?')
    (hi : Keeps item?) (rounds : List Token) :
    AgreeBelow n (manyWithin item? rounds) (manyWithin item?' rounds) := by
  induction rounds with
  | nil => exact refl n _
  | cons _ rounds ih =>
    refine h.bind hi fun a? => ?_
    cases a? with
    | some a => exact ih.bind (hi.manyWithin rounds) fun _ => refl n _
    | none => exact refl n _

theorem many {n : Nat} {item? item?' : Parser (Option α)} (h : AgreeBelow n item? item?')
    (hi : Keeps item?) : AgreeBelow n (many item?) (many item?') :=
  fun ts hts => h.manyWithin hi ts ts hts

theorem commaSeparated {n : Nat} {item item' : Parser α} (h : AgreeBelow n item item')
    (hi : Keeps item) : AgreeBelow n (commaSeparated item) (commaSeparated item') :=
  h.bind hi fun _ => (((h.led hi).mono (Nat.le_succ n)).many hi.led).bind hi.led.many
    fun _ => refl n _

theorem listUntil {n : Nat} {close : Symbol} {item item' : Parser α}
    (h : AgreeBelow n item item') (hi : Keeps item) :
    AgreeBelow n (listUntil close item) (listUntil close item') :=
  (refl n _).bind (keeps_nextIn _) fun _ => .ite (refl n _) (h.commaSeparated hi)

end AgreeBelow

theorem ifNext_nil (k : KindClass) (item : Parser α) : ifNext k item [] = .ok (none, []) := rfl

theorem led_nil (k : KindClass) (item : Parser α) : led k item [] = .ok (none, []) := rfl

/-- More rounds than tokens change nothing. -/
theorem manyWithin_eq {item? : Parser (Option α)} (h : ItemShrinks item?)
    (hnil : item? [] = .ok (none, [])) {rounds rounds' ts : List Token}
    (hr : ts.length ≤ rounds.length) (hr' : ts.length ≤ rounds'.length) :
    manyWithin item? rounds ts = manyWithin item? rounds' ts := by
  induction rounds generalizing rounds' ts with
  | nil =>
    obtain rfl := List.length_eq_zero_iff.mp (Nat.le_zero.mp hr)
    cases rounds' with
    | nil => rfl
    | cons _ rounds' =>
      rw [manyWithin, manyWithin, bind_apply, hnil]
  | cons _ rounds ih =>
    cases rounds' with
    | nil =>
      obtain rfl := List.length_eq_zero_iff.mp (Nat.le_zero.mp hr')
      rw [manyWithin, manyWithin, bind_apply, hnil]
    | cons _ rounds' =>
      rw [manyWithin, manyWithin, bind_apply, bind_apply]
      match e : item? ts with
      | .ok (none, rest) => rfl
      | .ok (some a, rest) =>
        have hlt := h ts a rest e
        simp only [List.length_cons] at hr hr'
        have : manyWithin item? rounds rest = manyWithin item? rounds' rest :=
          ih (by omega) (by omega)
        simp only [bind_apply, this]
      | .error _ => rfl

/-- Up to any length of the input, so many rounds are all that there are. -/
theorem exists_manyWithin {item? : Parser (Option α)} (h : ItemShrinks item?)
    (hnil : item? [] = .ok (none, [])) (n : Nat) :
    ∃ rounds, AgreeBelow n (many item?) (manyWithin item? rounds) := by
  refine ⟨List.replicate n (.endOfInput .origin), fun ts hts => ?_⟩
  exact manyWithin_eq h hnil (Nat.le_refl _) (by rw [List.length_replicate]; omega)

/-- Repetition is an item and repetition, or nothing. -/
theorem many_eq {item? : Parser (Option α)} (h : ItemShrinks item?)
    (hnil : item? [] = .ok (none, [])) :
    many item? = do
      match ← item? with
      | some a => return a :: (← many item?)
      | none => return [] := by
  funext ts
  cases ts with
  | nil =>
    rw [bind_apply, hnil]
    rfl
  | cons t ts =>
    rw [many, manyWithin, bind_apply, bind_apply]
    match e : item? (t :: ts) with
    | .ok (none, rest) => rfl
    | .ok (some a, rest) =>
      have hlt := h (t :: ts) a rest e
      rw [List.length_cons] at hlt
      have : manyWithin item? ts rest = many item? rest :=
        manyWithin_eq h hnil (by omega) (Nat.le_refl _)
      simp only [bind_apply, this]
    | .error _ => rfl

end Jam.Parser

namespace Jam.Grammar

open Jam.Parser

section

variable {nested nested' : Parser Expr}

theorem agree_indicesWith {n : Nat} (h : AgreeBelow n nested nested') (hn : Keeps nested) :
    AgreeBelow (n + 1) (indicesWith nested) (indicesWith nested') :=
  ((h.bind hn fun _ => .refl n _).led (keeps_indexWith hn)).many (keeps_indexWith hn).led

theorem agree_callWith {n : Nat} (h : AgreeBelow n nested nested') (hn : Shrinks nested) :
    AgreeBelow (n + 1) (callWith nested) (callWith nested') :=
  (AgreeBelow.refl _ _).bind_succ (shrinks_expect _ _) fun _ =>
    (AgreeBelow.refl _ _).bind (shrinks_expect _ _).keeps fun _ =>
      (AgreeBelow.refl _ _).bind (shrinks_expect _ _).keeps fun _ =>
        (h.listUntil hn.keeps).bind hn.listUntil fun _ => .refl n _

theorem agree_atomWith {n : Nat} (h : AgreeBelow n nested nested') (hn : Keeps nested) :
    AgreeBelow (n + 1) (atomWith nested) (atomWith nested') := by
  refine .take_bind (fun t => .refl n _) (.take_bind (fun t => ?_) (.take_bind (fun t => ?_) ?_))
  · exact ((agree_indicesWith h hn).mono (Nat.le_succ n)).bind (keeps_indicesWith hn)
      fun _ => .refl n _
  · exact h.bind hn fun _ => .refl n _
  · exact .refl _ _

theorem agree_operationWith {n : Nat} (h : AgreeBelow n nested nested') (hn : Keeps nested) :
    AgreeBelow (n + 1) (operationWith nested) (operationWith nested') :=
  (agree_atomWith h hn).bind_succ (shrinks_atomWith hn) fun left =>
    ((AgreeBelow.take_bind
      (fun _ => ((agree_atomWith h hn).bind (shrinks_atomWith hn).keeps
        fun _ => .refl _ _).mono (Nat.le_succ n))
      (.refl (n + 1) (pure left))).mono (Nat.le_succ n))

theorem agree_expressionWith {n : Nat} (h : AgreeBelow n nested nested') (hn : Shrinks nested) :
    AgreeBelow (n + 1) (expressionWith nested) (expressionWith nested') :=
  (AgreeBelow.refl _ _).bind (keeps_nextIn _) fun _ => .ite
    ((agree_callWith h hn).bind (shrinks_callWith hn).keeps fun _ => .refl _ _)
    (agree_operationWith h hn.keeps)

end

/-- More depth than tokens changes nothing. -/
theorem expressionWithin_eq {depth depth' ts : List Token} (h : ts.length ≤ depth.length)
    (h' : ts.length ≤ depth'.length) :
    expressionWithin depth ts = expressionWithin depth' ts := by
  induction depth generalizing depth' ts with
  | nil =>
    obtain rfl := List.length_eq_zero_iff.mp (Nat.le_zero.mp h)
    cases depth' <;> rfl
  | cons _ depth ih =>
    cases depth' with
    | nil =>
      obtain rfl := List.length_eq_zero_iff.mp (Nat.le_zero.mp h')
      rfl
    | cons _ depth' =>
      simp only [List.length_cons] at h h'
      exact agree_expressionWith (n := ts.length)
        (fun us hus => ih (by omega) (by omega)) (shrinks_expressionWithin depth) ts
        (Nat.lt_succ_self _)

theorem exists_expressionWithin (n : Nat) :
    ∃ depth, AgreeBelow n expression (expressionWithin depth) := by
  refine ⟨List.replicate n (.endOfInput .origin), fun ts hts => ?_⟩
  exact expressionWithin_eq (Nat.le_refl _) (by rw [List.length_replicate]; omega)

/-- The grammar of expressions, with expressions for what is nested. -/
theorem expression_eq : expression = expressionWith expression := by
  funext ts
  cases ts with
  | nil => rfl
  | cons t ts =>
    exact agree_expressionWith (n := ts.length + 1)
      (fun us hus => expressionWithin_eq (Nat.le_of_lt_succ hus) (Nat.le_refl _))
      (shrinks_expressionWithin ts) (t :: ts) (Nat.lt_succ_self _)

section

variable {nested nested' : Parser Stmt}

theorem agree_blockWith {n : Nat} (h : AgreeBelow n nested nested') (hn : Keeps nested)
    (fault : SyntaxFault) :
    AgreeBelow (n + 1) (blockWith nested fault) (blockWith nested' fault) :=
  (AgreeBelow.refl _ _).bind_succ (shrinks_expect _ _) fun _ =>
    ((h.ifNext hn).many hn.ifNext).bind hn.ifNext.many fun _ => .refl _ _

theorem agree_armWith {n : Nat} (h : AgreeBelow n nested nested') (hn : Keeps nested) :
    AgreeBelow (n + 1) (armWith nested) (armWith nested') :=
  (AgreeBelow.refl _ _).bind (shrinks_expect _ _).keeps fun _ =>
    (AgreeBelow.refl _ _).bind shrinks_condition.keeps fun _ =>
      (AgreeBelow.refl _ _).bind (shrinks_expect _ _).keeps fun _ =>
        (agree_blockWith h hn _).bind (shrinks_blockWith hn _).keeps fun _ => .refl _ _

theorem agree_ifWith {n : Nat} (h : AgreeBelow n nested nested') (hn : Keeps nested) :
    AgreeBelow (n + 1) (ifWith nested) (ifWith nested') :=
  (AgreeBelow.refl _ _).bind (shrinks_expect _ _).keeps fun _ =>
    (agree_armWith h hn).bind (shrinks_armWith hn).keeps fun _ =>
      (((((AgreeBelow.refl (n + 1) _).bind (shrinks_expect _ _).keeps fun _ =>
        agree_armWith h hn).led (shrinks_furtherArmWith hn).keeps).mono (Nat.le_succ _)).many
          (shrinks_furtherArmWith hn).keeps.led).bind
            (shrinks_furtherArmWith hn).keeps.led.many fun _ =>
        (((agree_blockWith h hn _).led (shrinks_blockWith hn _).keeps).mono (Nat.le_succ _)).bind
          (shrinks_blockWith hn _).keeps.led fun _ => .refl _ _

theorem agree_rangeLoopWith {n : Nat} (h : AgreeBelow n nested nested') (hn : Keeps nested) :
    AgreeBelow (n + 1) (rangeLoopWith nested) (rangeLoopWith nested') :=
  (AgreeBelow.refl _ _).bind (shrinks_expect _ _).keeps fun _ =>
    (AgreeBelow.refl _ _).bind (shrinks_expect _ _).keeps fun _ =>
      (AgreeBelow.refl _ _).bind (shrinks_expect _ _).keeps fun _ =>
        (AgreeBelow.refl _ _).bind shrinks_expression.keeps fun _ =>
          (AgreeBelow.refl _ _).bind (shrinks_expect _ _).keeps fun _ =>
            (AgreeBelow.refl _ _).bind shrinks_expression.keeps fun _ =>
              (AgreeBelow.refl _ _).bind (shrinks_expect _ _).keeps fun _ =>
                (agree_blockWith h hn _).bind (shrinks_blockWith hn _).keeps fun _ => .refl _ _

theorem agree_stepLoopWith {n : Nat} (h : AgreeBelow n nested nested') (hn : Keeps nested) :
    AgreeBelow (n + 1) (stepLoopWith nested) (stepLoopWith nested') :=
  (AgreeBelow.refl _ _).bind shrinks_declaration.keeps fun _ =>
    (AgreeBelow.refl _ _).bind shrinks_condition.keeps fun _ =>
      (AgreeBelow.refl _ _).bind (shrinks_expect _ _).keeps fun _ =>
        (AgreeBelow.refl _ _).bind shrinks_step.keeps fun _ =>
          (AgreeBelow.refl _ _).bind (shrinks_expect _ _).keeps fun _ =>
            (agree_blockWith h hn _).bind (shrinks_blockWith hn _).keeps fun _ => .refl _ _

theorem agree_forWith {n : Nat} (h : AgreeBelow n nested nested') (hn : Keeps nested) :
    AgreeBelow (n + 1) (forWith nested) (forWith nested') :=
  (AgreeBelow.refl _ _).bind (shrinks_expect _ _).keeps fun _ =>
    (AgreeBelow.refl _ _).bind (shrinks_expect _ _).keeps fun _ =>
      (AgreeBelow.refl _ _).bind (keeps_nextIn _) fun _ => .ite (agree_rangeLoopWith h hn) <|
        (AgreeBelow.refl _ _).bind (keeps_nextIn _) fun _ =>
          .ite (agree_stepLoopWith h hn) (.refl _ _)

theorem agree_whileLoopWith {n : Nat} (h : AgreeBelow n nested nested') (hn : Keeps nested) :
    AgreeBelow (n + 1) (whileLoopWith nested) (whileLoopWith nested') :=
  (AgreeBelow.refl _ _).bind (shrinks_expect _ _).keeps fun _ =>
    (AgreeBelow.refl _ _).bind (shrinks_expect _ _).keeps fun _ =>
      (AgreeBelow.refl _ _).bind shrinks_condition.keeps fun _ =>
        (AgreeBelow.refl _ _).bind (shrinks_expect _ _).keeps fun _ =>
          (agree_blockWith h hn _).bind (shrinks_blockWith hn _).keeps fun _ => .refl _ _

theorem agree_statementWith {n : Nat} (h : AgreeBelow n nested nested') (hn : Keeps nested) :
    AgreeBelow (n + 1) (statementWith nested) (statementWith nested') := by
  refine (AgreeBelow.refl _ _).bind (keeps_nextIn _) fun _ => .ite (.refl _ _) ?_
  refine (AgreeBelow.refl _ _).bind (keeps_nextIn _) fun _ => .ite (.refl _ _) ?_
  refine (AgreeBelow.refl _ _).bind (keeps_nextIn _) fun _ => .ite (.refl _ _) ?_
  refine (AgreeBelow.refl _ _).bind (keeps_nextIn _) fun _ => .ite (agree_ifWith h hn) ?_
  refine (AgreeBelow.refl _ _).bind (keeps_nextIn _) fun _ => .ite (agree_forWith h hn) ?_
  refine (AgreeBelow.refl _ _).bind (keeps_nextIn _) fun _ => .ite (agree_whileLoopWith h hn) ?_
  exact .refl _ _

end

/-- More depth than tokens changes nothing. -/
theorem statementWithin_eq {depth depth' ts : List Token} (h : ts.length ≤ depth.length)
    (h' : ts.length ≤ depth'.length) :
    statementWithin depth ts = statementWithin depth' ts := by
  induction depth generalizing depth' ts with
  | nil =>
    obtain rfl := List.length_eq_zero_iff.mp (Nat.le_zero.mp h)
    cases depth' <;> rfl
  | cons _ depth ih =>
    cases depth' with
    | nil =>
      obtain rfl := List.length_eq_zero_iff.mp (Nat.le_zero.mp h')
      rfl
    | cons _ depth' =>
      simp only [List.length_cons] at h h'
      exact agree_statementWith (n := ts.length)
        (fun us hus => ih (by omega) (by omega)) (shrinks_statementWithin depth).keeps ts
        (Nat.lt_succ_self _)

theorem exists_statementWithin (n : Nat) :
    ∃ depth, AgreeBelow n statement (statementWithin depth) := by
  refine ⟨List.replicate n (.endOfInput .origin), fun ts hts => ?_⟩
  exact statementWithin_eq (Nat.le_refl _) (by rw [List.length_replicate]; omega)

/-- The grammar of statements, with statements for what is nested. -/
theorem statement_eq : statement = statementWith statement := by
  funext ts
  cases ts with
  | nil => rfl
  | cons t ts =>
    exact agree_statementWith (n := ts.length + 1)
      (fun us hus => statementWithin_eq (Nat.le_of_lt_succ hus) (Nat.le_refl _))
      (shrinks_statementWithin ts).keeps (t :: ts) (Nat.lt_succ_self _)

end Jam.Grammar
