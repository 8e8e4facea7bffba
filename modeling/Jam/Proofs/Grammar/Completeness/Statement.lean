import Jam.Proofs.Grammar.Completeness.Expression

/-!
The rules for statements, functions and programs take whatever fits a well-formed tree, and give
the tree back. A statement would go on only with a further arm or with what is done otherwise.
-/
namespace Jam.Grammar

open Jam.Parser
open Slot (bracketed grouped braced commas)

theorem takes_target {t : Target} (ht : t.WellFormed) :
    Takes target (.symbol .leftBracket) t t.unparse :=
  .name_bind ht.name (takes_indices ht.indices).bind_pure

theorem takes_assignment {a : Assign} (hc : ¬ a.value.IsCall) (ha : a.WellFormed) :
    Takes assignment (.symbol .leftBracket) a a.unparse :=
  (takes_operation hc ha.value).bind
    (.symbol_bind fun _ => (takes_target ha.target).bind_pure) (.cons rfl)

theorem takes_callStmt {c : Call} (hc : c.WellFormed) :
    Takes callStmt never (.call c) (Stmt.call c).unparse := by
  have hled : Takes (led (.symbol .assign) target) (.symbol .assign) none [] :=
    .led_none fun _ h => h
  exact (takes_call hc).bind (hled.bind (.symbol_bind fun _ => .pure) (.cons rfl)) (.cons rfl)

/-- A call whose result flows into a target is read as a statement of its own. -/
theorem takes_callStmt_assign {c : Call} {t : Target} (hc : c.WellFormed) (ht : t.WellFormed) :
    Takes callStmt never (.assign ⟨c.expr, t⟩) (Stmt.assign ⟨c.expr, t⟩).unparse := by
  have hrow : (Stmt.assign ⟨c.expr, t⟩).unparse =
      c.unparse ++ ((.symbol .assign :: t.unparse) ++ [.symbol .semicolon]) :=
    List.append_assoc _ _ _
  have hled : Takes (led (.symbol .assign) target) (.symbol .leftBracket) (some t)
      (.symbol .assign :: t.unparse) := .led_some (beq_self_eq_true _) (takes_target ht)
  rw [hrow]
  exact (takes_call hc).bind (hled.bind (.symbol_bind fun _ => .pure) (.cons rfl)) (.cons rfl)

theorem takes_step {a : Assign} (ha : a.WellFormed) :
    Takes step (.symbol .leftBracket) a a.unparse := by
  obtain ⟨value, target⟩ := a
  obtain ⟨hvalue, htarget⟩ := ha
  by_cases hc : value.IsCall
  · cases value with
    | call word callee args =>
      have hcall : (Call.mk word callee args).WellFormed := hvalue
      refine .nextIn_bind (c := true) (beq_iff_eq.mpr hvalue.1) ?_
      exact (takes_call hcall).bind
        (.symbol_bind fun _ => (takes_target htarget).bind_pure) (.cons rfl)
    | _ => exact hc.elim
  · refine .nextIn_bind_of_bars ?_ (takes_assignment hc ⟨hvalue, htarget⟩)
    exact (Bars.of_startsIn (fun _ => Expr.startsIn_of_not_isCall hc hvalue)
      fun _ => beq_eq_false_of_lacks rfl).append_right

/-- The kinds with which a branch goes on. -/
def branchGoesOn : KindClass := fun k => KindClass.keyword .or_ k || KindClass.keyword .else_ k

theorem not_branchGoesOn_of_statementStarts {k : TokenKind} (h : statementStarts k = true) :
    branchGoesOn k = false := by
  apply Bool.or_eq_false_iff.mpr
  constructor
  · exact beq_eq_false_of_lacks (k := statementStarts) rfl h
  · exact beq_eq_false_of_lacks (k := statementStarts) rfl h

section

variable {nested : Parser Stmt} (hk : Shrinks nested)

include hk

theorem takes_blockWith {body : List Stmt} (hbody : ∀ s ∈ body, s.WellFormed)
    (h : ∀ s ∈ body, Takes nested branchGoesOn s s.unparse) (fault : SyntaxFault) :
    Takes (blockWith nested fault) never body (braced (Stmt.unparses body)) := by
  rw [Stmt.unparses_eq_flatMap]
  have hmany : Takes (many (ifNext statementStarts nested))
      (fun k => branchGoesOn k || statementStarts k) body (body.flatMap Stmt.unparse) := by
    have hstarts : ∀ s ∈ body, ∀ w, Fits s.unparse w → StartsIn statementStarts w := by
      intro s hs w hw
      exact (Stmt.startsIn (hbody s hs) hw).mono fun _ => Stmt.statementStarts_of_starts
    refine .manyIfNext hk hstarts (fun s hs => ?_) h fun _ hkind => Bool.or_eq_false_iff.mp hkind
    exact (Bars.of_startsIn (hstarts s hs) fun _ => not_branchGoesOn_of_statementStarts).of_never
  exact .symbol_bind fun _ => hmany.bind (.symbol_bind fun _ => .pure) (.cons rfl)

theorem takes_armWith {condition : Expr} {body : List Stmt} (hcondition : condition.IsCondition)
    (hbody : ∀ s ∈ body, s.WellFormed)
    (h : ∀ s ∈ body, Takes nested branchGoesOn s s.unparse) :
    Takes (armWith nested) never (condition, body)
      (unparseArm condition.unparse (Stmt.unparses body)) := by
  rw [unparseArm, Slot.grouped_append]
  exact .symbol_bind fun _ => (takes_condition hcondition).bind
    (.symbol_bind fun _ => (takes_blockWith hk hbody h _).bind_pure) (.cons rfl)

theorem takes_ifWith {condition : Expr} {body : List Stmt} {tail : Tail}
    (hs : (Stmt.branch condition body tail).WellFormed)
    (h : ∀ s ∈ body, Takes nested branchGoesOn s s.unparse)
    (harms : ∀ arm ∈ tail.arms, ∀ s ∈ arm.2, Takes nested branchGoesOn s s.unparse)
    (hlast : ∀ body ∈ tail.last, ∀ s ∈ body, Takes nested branchGoesOn s s.unparse) :
    Takes (ifWith nested) branchGoesOn (.branch condition body tail)
      (Stmt.branch condition body tail).unparse := by
  obtain ⟨hcondition, hbody, htail⟩ := hs
  rw [Stmt.allWellFormed_iff] at hbody
  rw [← tail.ofArms_arms_last] at htail ⊢
  obtain ⟨hothers, hotherwise⟩ := Tail.wellFormed_ofArms.mp htail
  have hfurther : Takes (many <| led (.keyword .or_) do
      let _ ← Parser.keyword .if_ .ifAfterOr
      armWith nested) (.keyword .or_) tail.arms
      (tail.arms.flatMap fun arm => .keyword .or_ :: .keyword .if_ ::
        unparseArm arm.1.unparse (Stmt.unparses arm.2)) := by
    refine .manyLed (s := never) (shrinks_furtherArmWith hk.keeps).keeps (beq_self_eq_true _) rfl
      (fun arm harm => .keyword_bind fun _ => ?_) fun _ hkind => ⟨rfl, hkind⟩
    exact takes_armWith hk (hothers arm harm).1 (hothers arm harm).2 (harms arm harm)
  have hended : Takes (led (.keyword .else_) (blockWith nested .elseBody)) branchGoesOn
      tail.last (tail.last.elim [] fun body => .keyword .else_ :: braced (Stmt.unparses body)) := by
    refine .led (beq_self_eq_true _) (fun _ hkind => (Bool.or_eq_false_iff.mp hkind).2)
      fun body hmem => ?_
    exact (takes_blockWith hk (hotherwise body hmem) (hlast body hmem) _).of_never
  have hbars : Bars (.keyword .or_)
      (tail.last.elim [] fun body => .keyword .else_ :: braced (Stmt.unparses body))
      branchGoesOn := by
    cases tail.last with
    | none => exact .nil fun _ hkind => (Bool.or_eq_false_iff.mp hkind).1
    | some body => exact .cons rfl
  rw [Stmt.unparse, Tail.unparse_ofArms]
  exact .keyword_bind fun _ => (takes_armWith hk hcondition hbody h).bind
    (hfurther.bind hended.bind_pure hbars) fun _ _ _ _ => clear_never _

theorem takes_forWith_range {var : Token} {start stop : Expr} {body : List Stmt}
    (hs : (Stmt.rangeLoop var start stop body).WellFormed)
    (h : ∀ s ∈ body, Takes nested branchGoesOn s s.unparse) :
    Takes (forWith nested) never (.rangeLoop var start stop body)
      (Stmt.rangeLoop var start stop body).unparse := by
  obtain ⟨hvar, hstart, hstop, hbody⟩ := hs
  rw [Stmt.allWellFormed_iff] at hbody
  refine .keyword_bind fun _ => .symbol_bind fun _ => ?_
  refine .nextIn_bind (c := true) (beq_iff_eq.mpr hvar) ?_
  refine .name_bind hvar (.keyword_bind fun _ => .keyword_bind fun _ => ?_)
  refine (takes_expression hstart).bind (.keyword_bind fun _ => ?_) (.cons rfl)
  refine (takes_expression hstop).bind (.symbol_bind fun _ => ?_) (.cons rfl)
  exact (takes_blockWith hk hbody h _).bind_pure

theorem takes_forWith_step {init : Decl} {condition : Expr} {step : Assign} {body : List Stmt}
    (hs : (Stmt.stepLoop init condition step body).WellFormed)
    (h : ∀ s ∈ body, Takes nested branchGoesOn s s.unparse) :
    Takes (forWith nested) never (.stepLoop init condition step body)
      (Stmt.stepLoop init condition step body).unparse := by
  obtain ⟨hinit, hcondition, hstep, hbody⟩ := hs
  rw [Stmt.allWellFormed_iff] at hbody
  have htypes : ∀ w, Fits (init.unparse ++ (condition.unparse ++ .symbol .semicolon ::
      (step.unparse ++ .symbol .rightParen :: braced (Stmt.unparses body)))) w →
      StartsIn typeWords w :=
    fun _ hw => hw.startsIn_append fun _ => Decl.startsIn hinit
  refine .keyword_bind fun _ => .symbol_bind fun _ => .nextIn_bind_of_bars ?_ ?_
  · exact (Bars.of_startsIn htypes fun _ => beq_eq_false_of_lacks rfl).of_never
  refine .nextIn_bind_of_startsIn htypes ?_
  refine (takes_declaration hinit).bind ?_ fun _ _ _ _ => clear_never _
  refine (takes_condition hcondition).bind (.symbol_bind fun _ => ?_) (.cons rfl)
  refine (takes_step hstep).bind (.symbol_bind fun _ => ?_) (.cons rfl)
  exact (takes_blockWith hk hbody h _).bind_pure

theorem takes_whileLoopWith {condition : Expr} {body : List Stmt}
    (hs : (Stmt.whileLoop condition body).WellFormed)
    (h : ∀ s ∈ body, Takes nested branchGoesOn s s.unparse) :
    Takes (whileLoopWith nested) never (.whileLoop condition body)
      (Stmt.whileLoop condition body).unparse := by
  obtain ⟨hcondition, hbody⟩ := hs
  rw [Stmt.allWellFormed_iff] at hbody
  rw [Stmt.unparse, unparseArm, Slot.grouped_append]
  exact .keyword_bind fun _ => .symbol_bind fun _ => (takes_condition hcondition).bind
    (.symbol_bind fun _ => (takes_blockWith hk hbody h _).bind_pure) (.cons rfl)

omit hk in
theorem takes_statementWith_call {s : Stmt} {stop : KindClass} {word : Token} {row : List Slot}
    (hword : word.kind = .keyword .call) (h : Takes callStmt stop s (.kept word :: row)) :
    Takes (statementWith nested) stop s (.kept word :: row) := by
  have hkind : (Slot.kept word).kind = .keyword .call := hword
  refine .nextIn_bind (c := false) (by rw [hkind]; rfl) ?_
  refine .nextIn_bind (c := false) (by rw [hkind]; rfl) ?_
  exact .nextIn_bind (c := true) (by rw [hkind]; rfl) h

omit hk in
theorem takes_statementWith_assign {a : Assign} (ha : a.WellFormed) :
    Takes (statementWith nested) never (.assign a) (Stmt.assign a).unparse := by
  by_cases hc : a.value.IsCall
  · obtain ⟨value, target⟩ := a
    cases value with
    | call word callee args =>
      have hcall : (Call.mk word callee args).WellFormed := ha.value
      exact takes_statementWith_call hcall.1 (takes_callStmt_assign hcall ha.target)
    | _ => exact hc.elim
  · have hstarts : ∀ w, Fits (Stmt.assign a).unparse w → StartsIn operationStarts w := by
      intro w hw
      have h := Stmt.startsIn (s := .assign a) ha hw
      rwa [Stmt.starts, if_neg hc] at h
    have hbars : ∀ k : KindClass, (∀ kind, operationStarts kind = true → k kind = false) →
        Bars k (Stmt.assign a).unparse never := fun _ => Bars.of_startsIn hstarts
    -- None of the six words before is one with which an operation begins.
    iterate 6
      refine .nextIn_bind_of_bars (hbars _ fun kind hkind => ?_) ?_
      · rcases eq_of_operationStarts hkind with rfl | rfl | rfl <;> rfl
    refine .nextIn_bind_of_startsIn hstarts ?_
    exact (takes_assignment hc ha).bind (.symbol_bind fun _ => .pure) (.cons rfl)

end

theorem takes_statement {s : Stmt} (hs : s.WellFormed) :
    Takes statement branchGoesOn s s.unparse := by
  have hk : Shrinks statement := shrinks_statement
  have hall : ∀ body : List Stmt, (∀ s ∈ body, s.WellFormed) →
      (∀ s ∈ body, s.WellFormed → Takes statement branchGoesOn s s.unparse) →
      ∀ s ∈ body, Takes statement branchGoesOn s s.unparse :=
    fun _ hbody ih s hmem => ih s hmem (hbody s hmem)
  induction s using Stmt.induction with
  | declare d =>
    rw [statement_eq]
    exact .nextIn_bind_of_startsIn (fun _ => Decl.startsIn hs)
      (takes_declaration hs).of_never.bind_pure
  | ret value =>
    rw [statement_eq]
    refine .nextIn_bind (c := false) rfl (.nextIn_bind (c := true) rfl (.keyword_bind fun _ => ?_))
    exact (takes_expression hs).bind (.symbol_bind fun _ => .pure) (.cons rfl)
  | assign a =>
    rw [statement_eq]
    exact (takes_statementWith_assign hs).of_never
  | call c =>
    have hc : c.WellFormed := hs
    rw [statement_eq]
    exact takes_statementWith_call hc.1 (takes_callStmt hc).of_never
  | branch condition body tail ihbody iharms ihlast =>
    have hbody := hall body (Stmt.allWellFormed_iff.mp hs.2.1) ihbody
    have htail := hs.2.2
    rw [← tail.ofArms_arms_last] at htail
    obtain ⟨hothers, hotherwise⟩ := Tail.wellFormed_ofArms.mp htail
    have harms := fun arm harm => hall arm.2 (hothers arm harm).2 (iharms arm harm)
    have hlast := fun body hmem => hall body (hotherwise body hmem) (ihlast body hmem)
    rw [statement_eq]
    iterate 3 refine .nextIn_bind (c := false) rfl ?_
    exact .nextIn_bind (c := true) rfl (takes_ifWith hk hs hbody harms hlast)
  | rangeLoop var start stop body ih =>
    have hbody := hall body (Stmt.allWellFormed_iff.mp hs.2.2.2) ih
    rw [statement_eq]
    iterate 4 refine .nextIn_bind (c := false) rfl ?_
    exact .nextIn_bind (c := true) rfl (takes_forWith_range hk hs hbody).of_never
  | stepLoop init condition step body ih =>
    have hbody := hall body (Stmt.allWellFormed_iff.mp hs.2.2.2) ih
    rw [statement_eq]
    iterate 4 refine .nextIn_bind (c := false) rfl ?_
    exact .nextIn_bind (c := true) rfl (takes_forWith_step hk hs hbody).of_never
  | whileLoop condition body ih =>
    have hbody := hall body (Stmt.allWellFormed_iff.mp hs.2) ih
    rw [statement_eq]
    iterate 5 refine .nextIn_bind (c := false) rfl ?_
    exact .nextIn_bind (c := true) rfl (takes_whileLoopWith hk hs hbody).of_never

theorem takes_block {body : List Stmt} (hbody : ∀ s ∈ body, s.WellFormed) (fault : SyntaxFault) :
    Takes (block fault) never body (braced (Stmt.unparses body)) :=
  takes_blockWith shrinks_statement hbody (fun s hs => takes_statement (hbody s hs)) fault

theorem takes_parameter {p : Param} (hp : p.WellFormed) :
    Takes parameter never p p.unparse := by
  refine (takes_typeRef hp.type).bind (.name_bind hp.name .pure) (.cons ?_)
  rw [Slot.kind, hp.name]
  rfl

/-- Behind a return type stands the name of the function. -/
theorem takes_returnType {t : TypeRef} (ht : t.IsReturned) :
    Takes returnType (fun k => !KindClass.name k) t t.unparse := by
  have hname : ∀ k, (!KindClass.name k) = false → k = .name := by
    intro k hk
    simpa [KindClass.name] using hk
  rcases ht with ⟨hkind, hrank, hword⟩ | hvalue
  · obtain ⟨kind, word?, rank⟩ := t
    obtain rfl : kind = .void := hkind
    obtain rfl : rank = 0 := hrank
    cases word? with
    | none =>
      refine .take_bind_of_bars (.nil fun k hk => ?_)
        (.nextIn_bind_of_bars (.nil fun k hk => ?_) ?_)
      · rw [hname k hk]
        rfl
      · rw [hname k hk]
        rfl
      · exact .pure
    | some word =>
      refine .take_bind (beq_iff_eq.mpr (hword word rfl)) ?_
      rintro word rfl
      exact .pure
  · have hstarts : ∀ w, Fits t.unparse w → StartsIn typeWords w := fun _ => TypeRef.startsIn hvalue
    refine .take_bind_of_bars (Bars.of_startsIn hstarts fun k hk => ?_).of_never ?_
    · exact beq_eq_false_of_lacks rfl hk
    · refine .nextIn_bind_of_startsIn hstarts ((takes_typeRef hvalue).mono fun k hk => ?_)
      rw [hname k hk]
      rfl

theorem takes_function {f : Func} (hf : f.WellFormed) : Takes function never f f.unparse := by
  obtain ⟨name, params, returns, body⟩ := f
  obtain ⟨hname, hparams, hreturns, hbody⟩ := hf
  rw [Func.unparse, Slot.grouped_append]
  refine .keyword_bind fun _ => (takes_returnType hreturns).bind ?_ (.cons ?_)
  · refine .name_bind hname (.symbol_bind fun _ => ?_)
    refine .listUntil_bind (s := never) shrinks_parameter rfl rfl (by decide)
      (fun p hp => takes_parameter (hparams p hp)) (fun p hp => ?_) ?_
    · refine Bars.of_startsIn (k := typeWords) (fun w hw => ?_) fun k hk => ?_
      · exact hw.startsIn_append fun _ => TypeRef.startsIn (hparams p hp).type
      · exact beq_eq_false_of_lacks rfl hk
    · exact .symbol_bind fun _ => (takes_block hbody _).bind_pure
  · rw [Slot.kind, hname]
    rfl

theorem takes_item {i : Item} (hi : i.WellFormed) : Takes item branchGoesOn i i.unparse := by
  cases i with
  | func f =>
    exact .nextIn_bind (c := true) rfl (takes_function hi).of_never.bind_pure
  | declare d =>
    have hstarts : ∀ w, Fits d.unparse w → StartsIn typeWords w := fun _ => Decl.startsIn hi
    refine .nextIn_bind_of_bars (Bars.of_startsIn hstarts fun k hk => ?_).of_never ?_
    · exact beq_eq_false_of_lacks rfl hk
    · exact .nextIn_bind_of_startsIn hstarts (takes_declaration hi).of_never.bind_pure
  | stmt s =>
    obtain ⟨houter, hs⟩ := hi
    have hstarts : ∀ w, Fits s.unparse w → StartsIn s.starts w := fun _ => Stmt.startsIn hs
    have houterStarts : ∀ k, s.starts k = true → outerStatementStarts k = true ∧
        typeWords k = false := fun k hk => (Stmt.starts_iff_isOuter hk).mp houter
    refine .nextIn_bind_of_bars (Bars.of_startsIn hstarts fun k hk => ?_).of_never ?_
    · exact beq_eq_false_of_lacks rfl (houterStarts k hk).1
    · refine .nextIn_bind_of_bars (Bars.of_startsIn hstarts fun k hk => ?_).of_never ?_
      · exact (houterStarts k hk).2
      · refine .nextIn_bind_of_startsIn (fun w hw => ?_) (takes_statement hs).bind_pure
        exact (hstarts w hw).mono fun k hk => (houterStarts k hk).1

theorem startsIn_of_item {i : Item} (hi : i.WellFormed) {w : List Token} (hw : Fits i.unparse w) :
    StartsIn (fun k => !branchGoesOn k) w := by
  have hnot : ∀ k, statementStarts k = true → (!branchGoesOn k) = true := by
    intro k hk
    rw [not_branchGoesOn_of_statementStarts hk]
    rfl
  cases i with
  | func f => exact hw.startsIn rfl
  | declare d =>
    refine (Decl.startsIn hi hw).mono fun k hk => hnot k ?_
    exact Stmt.statementStarts_of_starts (s := .declare d) hk
  | stmt s =>
    exact (Stmt.startsIn hi.2 hw).mono fun k hk => hnot k (Stmt.statementStarts_of_starts hk)

theorem takes_program {p : Program} (hp : p.WellFormed) :
    Takes program (fun _ => true) p p.unparse := by
  have hstarts : ∀ i ∈ p.items, ∀ w, Fits i.unparse w → StartsIn (fun k => !branchGoesOn k) w :=
    fun i hi _ => startsIn_of_item (hp i hi)
  have hitems : Takes (many (ifNext (fun _ => true) item)) (fun _ => true) p.items
      (p.items.flatMap Item.unparse) := by
    refine .manyIfNext shrinks_item (fun i hi w hw => (hstarts i hi w hw).mono fun _ _ => rfl)
      (fun i hi => ?_) (fun i hi => takes_item (hp i hi)) fun _ hk => Bool.noConfusion hk
    exact (Bars.of_startsIn (hstarts i hi) fun k hk => by simpa using hk).of_never
  exact hitems.bind_pure

end Jam.Grammar
