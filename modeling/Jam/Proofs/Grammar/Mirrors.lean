import Jam.Grammar.Program
import Jam.Grammar.Progress
import Jam.Proofs.Tree.Relabel

/-!
Parsing commutes with any change of tokens that leaves their kinds and literals alone. Each rule
does on the changed tokens what it does on the tokens themselves: it takes as many of them, fails
with the same fault at the same place, and its result is the same tree with the changed tokens in
it. So parsing looks at kinds and literals only.
-/
namespace Jam.Parser

variable {α β α' β' : Type}

/-- What one parser does on some tokens another does on the changed tokens, and so is its result
the changed one. -/
def Mirrors (f : Token → Token) (g : α → β) (p : Parser α) (q : Parser β) : Prop :=
  ∀ ts, q (ts.map f) = match p ts with
    | .ok (a, rest) => .ok (g a, rest.map f)
    | .error e => .error ⟨e.fault, e.rest.map f⟩

namespace Mirrors

variable {f : Token → Token} {g : α → β} {g' : α' → β'} {p p' : Parser α} {q q' : Parser β}

theorem pure {a : α} {b : β} (h : g a = b) : Mirrors f g (Pure.pure a) (Pure.pure b) := by
  subst h
  exact fun _ => rfl

theorem fail (fault : SyntaxFault) : Mirrors f g (fail fault) (fail fault) := fun _ => rfl

theorem failAt (t : Token) (fault : SyntaxFault) :
    Mirrors f g (failAt t fault) (failAt (f t) fault) := fun _ => rfl

theorem bind {k : α → Parser α'} {k' : β → Parser β'} (hp : Mirrors f g p q)
    (hk : ∀ a, Mirrors f g' (k a) (k' (g a))) : Mirrors f g' (p >>= k) (q >>= k') := by
  intro ts
  rw [bind_apply, bind_apply, hp ts]
  cases p ts with
  | error e => rfl
  | ok result => exact hk result.1 result.2

/-- The last step of a sequence only makes a result of what was read. -/
theorem bind_pure {k : α → α'} {k' : β → β'} (hp : Mirrors f g p q)
    (hk : ∀ a, g' (k a) = k' (g a)) :
    Mirrors f g' (p >>= fun a => Pure.pure (k a)) (q >>= fun b => Pure.pure (k' b)) :=
  hp.bind fun a => pure (hk a)

theorem ite {c : Prop} [Decidable c] (hp : Mirrors f g p q) (hq : Mirrors f g p' q') :
    Mirrors f g (if c then p else p') (if c then q else q') := by
  split
  · exact hp
  · exact hq

section

variable (hf : ∀ t, (f t).kind = t.kind ∧ (f t).literal = t.literal)

include hf

theorem nextIn_bind {k : KindClass} {h : Bool → Parser α} {h' : Bool → Parser β}
    (hb : ∀ b, Mirrors f g (h b) (h' b)) : Mirrors f g (nextIn k >>= h) (nextIn k >>= h') := by
  intro ts
  have hnext : (ts.map f).head?.any (k ·.kind) = ts.head?.any (k ·.kind) := by
    cases ts with
    | nil => rfl
    | cons t ts => exact congrArg k (hf t).1
  rw [bind_apply, bind_apply, nextIn, nextIn, hnext]
  exact hb _ ts

theorem take? (k : KindClass) : Mirrors f (Option.map f) (take? k) (take? k) := by
  intro ts
  cases ts with
  | nil => rfl
  | cons t ts =>
    unfold Parser.take?
    rw [List.map_cons]
    simp only [(hf t).1]
    split <;> rfl

theorem take_bind {k : KindClass} {h : Option Token → Parser α} {h' : Option Token → Parser β}
    (hs : ∀ t, Mirrors f g (h (some t)) (h' (some (f t)))) (hn : Mirrors f g (h none) (h' none)) :
    Mirrors f g (Parser.take? k >>= h) (Parser.take? k >>= h') := by
  apply (take? hf k).bind
  intro t?
  cases t? with
  | some t => exact hs t
  | none => exact hn

theorem expect (k : KindClass) (fault : SyntaxFault) :
    Mirrors f f (expect k fault) (expect k fault) :=
  take_bind hf (fun _ => pure rfl) (fail fault)

theorem expect_bind {k : KindClass} {fault : SyntaxFault} {h : Token → Parser α}
    {h' : Token → Parser β} (ht : ∀ t, Mirrors f g (h t) (h' (f t))) :
    Mirrors f g (Parser.expect k fault >>= h) (Parser.expect k fault >>= h') :=
  (expect hf k fault).bind ht

theorem ifNext {k : KindClass} (h : Mirrors f g p q) :
    Mirrors f (Option.map g) (ifNext k p) (ifNext k q) :=
  nextIn_bind hf fun _ => ite (h.bind_pure fun _ => rfl) (pure rfl)

theorem led {k : KindClass} (h : Mirrors f g p q) :
    Mirrors f (Option.map g) (led k p) (led k q) :=
  take_bind hf (fun _ => h.bind_pure fun _ => rfl) (pure rfl)

omit hf in
theorem manyWithin {item? : Parser (Option α)} {item?' : Parser (Option β)}
    (h : Mirrors f (Option.map g) item? item?') (rounds : List Token) :
    Mirrors f (List.map g) (manyWithin item? rounds) (manyWithin item?' (rounds.map f)) := by
  induction rounds with
  | nil => exact pure rfl
  | cons t rounds ih =>
    apply h.bind
    intro a?
    cases a? with
    | some a => exact ih.bind_pure fun _ => rfl
    | none => exact pure rfl

omit hf in
theorem many {item? : Parser (Option α)} {item?' : Parser (Option β)}
    (h : Mirrors f (Option.map g) item? item?') :
    Mirrors f (List.map g) (many item?) (many item?') :=
  fun ts => h.manyWithin ts ts

theorem oneOrMore {k : KindClass} (h : Mirrors f g p q) :
    Mirrors f (List.map g) (oneOrMore k p) (oneOrMore k q) :=
  h.bind fun _ => (h.ifNext hf).many.bind_pure fun _ => rfl

theorem commaSeparated (h : Mirrors f g p q) :
    Mirrors f (List.map g) (commaSeparated p) (commaSeparated q) :=
  h.bind fun _ => (h.led hf).many.bind_pure fun _ => rfl

theorem listUntil {close : Symbol} (h : Mirrors f g p q) :
    Mirrors f (List.map g) (listUntil close p) (listUntil close q) :=
  nextIn_bind hf fun _ => ite (pure rfl) (h.commaSeparated hf)

end

end Mirrors
end Jam.Parser

namespace Jam.Grammar

open Jam.Parser

theorem relabel_expr (f : Token → Token) (c : Call) : c.expr.relabel f = (c.relabel f).expr := by
  rw [Call.expr, Expr.relabel, Expr.relabelAll_eq_map]
  rfl

variable {f : Token → Token} (hf : ∀ t, (f t).kind = t.kind ∧ (f t).literal = t.literal)

include hf

section

variable {nested nested' : Parser Expr} (hn : Mirrors f (Expr.relabel f) nested nested')

include hn

theorem mirrors_indicesWith :
    Mirrors f (List.map (Expr.relabel f)) (indicesWith nested) (indicesWith nested') := by
  apply Mirrors.many
  apply Mirrors.led hf
  exact hn.bind fun _ => .expect_bind hf fun _ => .pure rfl

theorem mirrors_callWith : Mirrors f (Call.relabel f) (callWith nested) (callWith nested') :=
  .expect_bind hf fun _ => .expect_bind hf fun _ => .expect_bind hf fun _ =>
    (hn.listUntil hf).bind fun _ => .expect_bind hf fun _ => .pure rfl

theorem mirrors_atomWith : Mirrors f (Expr.relabel f) (atomWith nested) (atomWith nested') := by
  refine .take_bind hf (fun t => ?_) (.take_bind hf (fun t => ?_) (.take_bind hf (fun t => ?_) ?_))
  · -- The value is looked at, and it is the same.
    simp only [(hf t).2]
    cases t.literal with
    | some value => exact .pure rfl
    | none => exact .failAt t .numberValue
  · refine (mirrors_indicesWith hf hn).bind_pure fun indices => ?_
    cases indices with
    | nil => rfl
    | cons first others => exact congrArg (Expr.element (f t)) (Expr.relabelAll_eq_map f _)
  · exact hn.bind fun _ => .expect_bind hf fun _ => .pure rfl
  · exact .fail _

theorem mirrors_operationWith :
    Mirrors f (Expr.relabel f) (operationWith nested) (operationWith nested') := by
  refine (mirrors_atomWith hf hn).bind fun left => .take_bind hf (fun op => ?_) (.pure rfl)
  exact (mirrors_atomWith hf hn).bind fun right =>
    .nextIn_bind hf fun _ => .ite (.fail _) (.pure rfl)

theorem mirrors_expressionWith :
    Mirrors f (Expr.relabel f) (expressionWith nested) (expressionWith nested') := by
  refine .nextIn_bind hf fun _ => .ite ?_ (mirrors_operationWith hf hn)
  refine (mirrors_callWith hf hn).bind fun call => .nextIn_bind hf fun _ => .ite (.fail _) ?_
  exact .pure (relabel_expr f call)

end

theorem mirrors_expressionWithin (depth : List Token) :
    Mirrors f (Expr.relabel f) (expressionWithin depth) (expressionWithin (depth.map f)) := by
  induction depth with
  | nil => exact .fail _
  | cons _ depth ih => exact mirrors_expressionWith hf ih

theorem mirrors_expression : Mirrors f (Expr.relabel f) expression expression :=
  fun ts => mirrors_expressionWithin hf ts ts

theorem mirrors_condition : Mirrors f (Expr.relabel f) condition condition :=
  (mirrors_expression hf).bind fun _ => .expect_bind hf fun _ =>
    (mirrors_expression hf).bind_pure fun _ => rfl

theorem mirrors_arrayOrScalar {α β : Type} {g : α → β} {part : Parser α} {part' : Parser β}
    (h : Mirrors f g part part') :
    Mirrors f (Prod.map f (List.map g)) (arrayOrScalar part) (arrayOrScalar part') :=
  .take_bind hf
    (fun _ => .expect_bind hf fun _ => (h.oneOrMore hf).bind_pure fun _ => rfl)
    (.expect_bind hf fun _ => .pure rfl)

theorem mirrors_typeRef : Mirrors f (TypeRef.relabel f) typeRef typeRef := by
  apply (mirrors_arrayOrScalar hf (g := f) ?_).bind
  · intro read
    obtain ⟨word, brackets⟩ := read
    refine .pure ?_
    simp [TypeRef.relabel, (hf word).1]
  · exact .expect_bind hf fun _ => .expect hf _ _

theorem mirrors_initializer (dims : Nat) :
    Mirrors f (Init.relabel f) (initializer dims) (initializer dims) := by
  induction dims with
  | zero => exact (mirrors_expression hf).bind_pure fun _ => rfl
  | succ dims ih =>
    refine .expect_bind hf fun _ => (ih.commaSeparated hf).bind fun items => ?_
    refine .expect_bind hf fun _ => .pure ?_
    rw [Init.relabel, Init.relabelAll_eq_map]

theorem mirrors_declaration : Mirrors f (Decl.relabel f) declaration declaration := by
  apply (mirrors_arrayOrScalar hf (g := Expr.relabel f) ?_).bind
  · intro read
    obtain ⟨word, dims⟩ := read
    refine .expect_bind hf fun first => ?_
    -- The number of dimensions is the depth of the initializer, and it stays the same.
    have hinit : Mirrors f (Option.map (Init.relabel f)) (led (.symbol .assign)
        (initializer dims.length)) (led (.symbol .assign)
        (initializer (dims.map (Expr.relabel f)).length)) := by
      rw [List.length_map]
      exact (mirrors_initializer hf dims.length).led hf
    refine hinit.bind fun init => ?_
    refine ((Mirrors.expect hf _ _).led hf).many.bind fun others => ?_
    refine .expect_bind hf fun _ => .pure ?_
    simp [Decl.relabel, TypeRef.relabel, (hf word).1]
  · exact .expect_bind hf fun _ => (mirrors_expression hf).bind fun _ =>
      .expect_bind hf fun _ => .pure rfl

theorem mirrors_target : Mirrors f (Target.relabel f) target target :=
  .expect_bind hf fun _ =>
    (mirrors_indicesWith hf (mirrors_expression hf)).bind_pure fun _ => rfl

theorem mirrors_call : Mirrors f (Call.relabel f) call call :=
  mirrors_callWith hf (mirrors_expression hf)

theorem mirrors_assignment : Mirrors f (Assign.relabel f) assignment assignment :=
  (mirrors_operationWith hf (mirrors_expression hf)).bind fun _ => .expect_bind hf fun _ =>
    (mirrors_target hf).bind_pure fun _ => rfl

theorem mirrors_assignStmt : Mirrors f (Stmt.relabel f) assignStmt assignStmt :=
  (mirrors_assignment hf).bind fun _ => .expect_bind hf fun _ => .pure rfl

theorem mirrors_returnStmt : Mirrors f (Stmt.relabel f) returnStmt returnStmt :=
  .expect_bind hf fun _ => (mirrors_expression hf).bind fun _ =>
    .expect_bind hf fun _ => .pure rfl

theorem mirrors_callStmt : Mirrors f (Stmt.relabel f) callStmt callStmt := by
  refine (mirrors_call hf).bind fun call => ((mirrors_target hf).led hf).bind fun target? => ?_
  cases target? with
  | some target =>
    refine .expect_bind hf fun _ => .pure ?_
    rw [Stmt.relabel, Assign.relabel, relabel_expr]
  | none => exact .expect_bind hf fun _ => .pure rfl

theorem mirrors_step : Mirrors f (Assign.relabel f) step step := by
  refine .nextIn_bind hf fun _ => .ite ?_ (mirrors_assignment hf)
  refine (mirrors_call hf).bind fun call => .expect_bind hf fun _ => ?_
  refine (mirrors_target hf).bind_pure fun target => ?_
  rw [Assign.relabel, relabel_expr]

section

variable {nested nested' : Parser Stmt} (hn : Mirrors f (Stmt.relabel f) nested nested')

include hn

theorem mirrors_blockWith (fault : SyntaxFault) :
    Mirrors f (List.map (Stmt.relabel f)) (blockWith nested fault) (blockWith nested' fault) :=
  .expect_bind hf fun _ => (hn.ifNext hf).many.bind fun _ => .expect_bind hf fun _ => .pure rfl

theorem mirrors_armWith :
    Mirrors f (Prod.map (Expr.relabel f) (List.map (Stmt.relabel f)))
      (armWith nested) (armWith nested') :=
  .expect_bind hf fun _ => (mirrors_condition hf).bind fun _ => .expect_bind hf fun _ =>
    (mirrors_blockWith hf hn _).bind_pure fun _ => rfl

theorem mirrors_ifWith : Mirrors f (Stmt.relabel f) (ifWith nested) (ifWith nested') := by
  have hother : Mirrors f (Prod.map (Expr.relabel f) (List.map (Stmt.relabel f))) (do
      let _ ← Parser.keyword .if_ .ifAfterOr
      armWith nested) (do
      let _ ← Parser.keyword .if_ .ifAfterOr
      armWith nested') :=
    .expect_bind hf fun _ => mirrors_armWith hf hn
  refine .expect_bind hf fun _ => (mirrors_armWith hf hn).bind fun first => ?_
  refine (hother.led hf).many.bind fun others => ?_
  refine ((mirrors_blockWith hf hn _).led hf).bind_pure fun last => ?_
  rw [Stmt.relabel, Tail.relabel_ofArms, Stmt.relabelAll_eq_map]
  rfl

theorem mirrors_rangeLoopWith :
    Mirrors f (Stmt.relabel f) (rangeLoopWith nested) (rangeLoopWith nested') := by
  refine .expect_bind hf fun var => .expect_bind hf fun _ => .expect_bind hf fun _ => ?_
  refine (mirrors_expression hf).bind fun start => .expect_bind hf fun _ => ?_
  refine (mirrors_expression hf).bind fun stop => .expect_bind hf fun _ => ?_
  refine (mirrors_blockWith hf hn _).bind_pure fun body => ?_
  rw [Stmt.relabel, Stmt.relabelAll_eq_map]

theorem mirrors_stepLoopWith :
    Mirrors f (Stmt.relabel f) (stepLoopWith nested) (stepLoopWith nested') := by
  refine (mirrors_declaration hf).bind fun init => (mirrors_condition hf).bind fun e => ?_
  refine .expect_bind hf fun _ => (mirrors_step hf).bind fun step => .expect_bind hf fun _ => ?_
  refine (mirrors_blockWith hf hn _).bind_pure fun body => ?_
  rw [Stmt.relabel, Stmt.relabelAll_eq_map]

theorem mirrors_forWith : Mirrors f (Stmt.relabel f) (forWith nested) (forWith nested') :=
  .expect_bind hf fun _ => .expect_bind hf fun _ =>
    .nextIn_bind hf fun _ => .ite (mirrors_rangeLoopWith hf hn) <|
      .nextIn_bind hf fun _ => .ite (mirrors_stepLoopWith hf hn) (.fail _)

theorem mirrors_whileLoopWith :
    Mirrors f (Stmt.relabel f) (whileLoopWith nested) (whileLoopWith nested') := by
  refine .expect_bind hf fun _ => .expect_bind hf fun _ => ?_
  refine (mirrors_condition hf).bind fun e => .expect_bind hf fun _ => ?_
  refine (mirrors_blockWith hf hn _).bind_pure fun body => ?_
  rw [Stmt.relabel, Stmt.relabelAll_eq_map]

theorem mirrors_statementWith :
    Mirrors f (Stmt.relabel f) (statementWith nested) (statementWith nested') := by
  refine .nextIn_bind hf fun _ => .ite ((mirrors_declaration hf).bind_pure fun _ => rfl) ?_
  refine .nextIn_bind hf fun _ => .ite (mirrors_returnStmt hf) ?_
  refine .nextIn_bind hf fun _ => .ite (mirrors_callStmt hf) ?_
  refine .nextIn_bind hf fun _ => .ite (mirrors_ifWith hf hn) ?_
  refine .nextIn_bind hf fun _ => .ite (mirrors_forWith hf hn) ?_
  refine .nextIn_bind hf fun _ => .ite (mirrors_whileLoopWith hf hn) ?_
  exact .nextIn_bind hf fun _ => .ite (mirrors_assignStmt hf) (.fail _)

end

theorem mirrors_statementWithin (depth : List Token) :
    Mirrors f (Stmt.relabel f) (statementWithin depth) (statementWithin (depth.map f)) := by
  induction depth with
  | nil => exact .fail _
  | cons _ depth ih => exact mirrors_statementWith hf ih

theorem mirrors_statement : Mirrors f (Stmt.relabel f) statement statement :=
  fun ts => mirrors_statementWithin hf ts ts

theorem mirrors_parameter : Mirrors f (Param.relabel f) parameter parameter :=
  (mirrors_typeRef hf).bind fun _ => .expect_bind hf fun _ => .pure rfl

theorem mirrors_returnType : Mirrors f (TypeRef.relabel f) returnType returnType :=
  .take_bind hf (fun _ => .pure rfl) <| .nextIn_bind hf fun _ =>
    .ite (mirrors_typeRef hf) (.pure rfl)

theorem mirrors_function : Mirrors f (Func.relabel f) function function :=
  .expect_bind hf fun _ => (mirrors_returnType hf).bind fun _ => .expect_bind hf fun _ =>
    .expect_bind hf fun _ => ((mirrors_parameter hf).listUntil hf).bind fun _ =>
      .expect_bind hf fun _ => (mirrors_blockWith hf (mirrors_statement hf) _).bind_pure
        fun _ => rfl

theorem mirrors_item : Mirrors f (Item.relabel f) item item := by
  refine .nextIn_bind hf fun _ => .ite ((mirrors_function hf).bind_pure fun _ => rfl) ?_
  refine .nextIn_bind hf fun _ => .ite ((mirrors_declaration hf).bind_pure fun _ => rfl) ?_
  exact .nextIn_bind hf fun _ => .ite ((mirrors_statement hf).bind_pure fun _ => rfl) (.fail _)

/-- The tree of the changed tokens is the changed tree, and a fault stays where it is. -/
theorem mirrors_program : Mirrors f (Program.relabel f) program program :=
  ((mirrors_item hf).ifNext hf).many.bind_pure fun _ => rfl

end Jam.Grammar
