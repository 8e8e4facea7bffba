import Jam.Proofs.Grammar.First
import Jam.Proofs.Grammar.Soundness.Expression

/-!
The rules for statements, functions and programs read well-formed trees from the words that fit
them.
-/
namespace Jam.Grammar

open Jam.Parser
open Slot (bracketed grouped braced commas)

theorem reads_returnStmt : Reads returnStmt (Written Stmt.WellFormed Stmt.unparse) := by
  refine .keyword_bind fun word hword => ?_
  refine reads_expression.bind fun value u hvalue => ?_
  refine .symbol_bind fun semicolon hsemicolon => ?_
  exact .pure ⟨hvalue.1, .keyword hword (hvalue.2.append (.symbol hsemicolon .nil))⟩

theorem reads_target : Reads target (Written Target.WellFormed Target.unparse) := by
  refine .name_bind fun name hname => ?_
  refine reads_indices.bind_pure fun indices u hindices => ?_
  exact ⟨⟨hname, hindices.1⟩, hindices.2.kept name⟩

theorem reads_assignment : Reads assignment (Written Assign.WellFormed Assign.unparse) := by
  refine reads_operation.bind fun value u hvalue => ?_
  refine .symbol_bind fun sign hsign => ?_
  refine reads_target.bind_pure fun target v htarget => ?_
  exact ⟨⟨hvalue.1, htarget.1⟩, hvalue.2.append (.symbol hsign htarget.2)⟩

theorem reads_assignStmt : Reads assignStmt (Written Stmt.WellFormed Stmt.unparse) := by
  refine reads_assignment.bind fun assign u hassign => ?_
  refine .symbol_bind fun semicolon hsemicolon => ?_
  exact .pure ⟨hassign.1, hassign.2.append (.symbol hsemicolon .nil)⟩

theorem reads_callStmt : Reads callStmt (Written Stmt.WellFormed Stmt.unparse) := by
  refine reads_call.bind fun call u hcall => (reads_target.led holds_symbol).bind ?_
  rintro (_ | target) v ⟨htarget, hv⟩
  · refine .symbol_bind fun semicolon hsemicolon => ?_
    obtain rfl := Fits.nil_iff.mp hv
    exact .pure ⟨hcall.1, hcall.2.append (.symbol hsemicolon .nil)⟩
  · refine .symbol_bind fun semicolon hsemicolon => ?_
    refine .pure ⟨⟨hcall.1, htarget target rfl⟩, ?_⟩
    have hrow := (hcall.2.append hv).append (.symbol hsemicolon .nil)
    rw [List.append_assoc u v] at hrow
    exact hrow

theorem reads_step : Reads step (Written Assign.WellFormed Assign.unparse) := by
  refine .nextIn_bind fun _ => .ite ?_ reads_assignment
  refine reads_call.bind fun call u hcall => ?_
  refine .symbol_bind fun sign hsign => ?_
  refine reads_target.bind_pure fun target v htarget => ?_
  exact ⟨⟨hcall.1, htarget.1⟩, hcall.2.append (.symbol hsign htarget.2)⟩

section

variable {nested : Parser Stmt} (hn : Reads nested (Written Stmt.WellFormed Stmt.unparse))
  (hk : Shrinks nested)

include hn hk

theorem reads_blockWith (fault : SyntaxFault) :
    Reads (blockWith nested fault)
      (Written (fun body => ∀ s ∈ body, s.WellFormed) fun body =>
        braced (Stmt.unparses body)) := by
  refine .symbol_bind fun left hleft => ?_
  refine (hn.manyIfNext hk).bind fun body u hbody => ?_
  refine .symbol_bind fun right hright => ?_
  refine .pure ⟨hbody.1, ?_⟩
  show Fits (braced (Stmt.unparses body)) (left :: (u ++ [right]))
  rw [Stmt.unparses_eq_flatMap]
  exact .enclosed hleft hbody.2 hright

theorem reads_armWith :
    Reads (armWith nested)
      (Written (fun arm => arm.1.IsCondition ∧ ∀ s ∈ arm.2, s.WellFormed) fun arm =>
        unparseArm arm.1.unparse (Stmt.unparses arm.2)) := by
  refine .symbol_bind fun left hleft => ?_
  refine reads_condition.bind fun condition u hcondition => ?_
  refine .symbol_bind fun right hright => ?_
  refine (reads_blockWith hn hk _).bind_pure fun body v hbody => ?_
  refine ⟨⟨hcondition.1, hbody.1⟩, ?_⟩
  exact .grouped_append hleft hcondition.2 hright hbody.2

theorem reads_ifWith : Reads (ifWith nested) (Written Stmt.WellFormed Stmt.unparse) := by
  have hfurther : Reads (do
      let _ ← Parser.keyword .if_ .ifAfterOr
      armWith nested)
      (Written (fun arm => arm.1.IsCondition ∧ ∀ s ∈ arm.2, s.WellFormed) fun arm =>
        .keyword .if_ :: unparseArm arm.1.unparse (Stmt.unparses arm.2)) := by
    refine .keyword_bind fun word hword => ?_
    exact (reads_armWith hn hk).mono fun arm u harm => ⟨harm.1, .keyword hword harm.2⟩
  refine .keyword_bind fun word hword => ?_
  apply (reads_armWith hn hk).bind
  intro arm u harm
  obtain ⟨condition, body⟩ := arm
  obtain ⟨⟨hcondition, hbody⟩, hu⟩ := harm
  refine (hfurther.manyLed holds_keyword (shrinks_furtherArmWith hk.keeps).keeps).bind
    fun others v hothers => ?_
  refine ((reads_blockWith hn hk .elseBody).led holds_keyword).bind_pure fun last x hlast => ?_
  constructor
  · exact ⟨hcondition, Stmt.allWellFormed_iff.mpr hbody,
      Tail.wellFormed_ofArms.mpr ⟨hothers.1, hlast.1⟩⟩
  · have htail : Fits (Tail.ofArms others last).unparse (v ++ x) := by
      rw [Tail.unparse_ofArms]
      exact hothers.2.append hlast.2
    exact .keyword hword (hu.append htail)

theorem reads_rangeLoopWith :
    Reads (rangeLoopWith nested) fun s w => ∀ word left : Token, word.kind = .keyword .for_ →
      left.kind = .symbol .leftParen →
        Written Stmt.WellFormed Stmt.unparse s (word :: left :: w) := by
  refine .name_bind fun var hvar => ?_
  refine .keyword_bind fun moves hmoves => ?_
  refine .keyword_bind fun from_ hfrom => ?_
  refine reads_expression.bind fun start u hstart => ?_
  refine .keyword_bind fun to_ hto => ?_
  refine reads_expression.bind fun stop v hstop => ?_
  refine .symbol_bind fun right hright => ?_
  refine (reads_blockWith hn hk _).bind_pure fun body x hbody => ?_
  intro word left hword hleft
  refine ⟨⟨hvar, hstart.1, hstop.1, Stmt.allWellFormed_iff.mpr hbody.1⟩, ?_⟩
  have hend := hstop.2.append (.symbol hright hbody.2)
  have hbounds := hstart.2.append (.keyword hto hend)
  exact .keyword hword (.symbol hleft (.kept var (.keyword hmoves (.keyword hfrom hbounds))))

theorem reads_stepLoopWith :
    Reads (stepLoopWith nested) fun s w => ∀ word left : Token, word.kind = .keyword .for_ →
      left.kind = .symbol .leftParen →
        Written Stmt.WellFormed Stmt.unparse s (word :: left :: w) := by
  refine reads_declaration.bind fun init u hinit => ?_
  refine reads_condition.bind fun condition v hcondition => ?_
  refine .symbol_bind fun semicolon hsemicolon => ?_
  refine reads_step.bind fun step x hstep => ?_
  refine .symbol_bind fun right hright => ?_
  refine (reads_blockWith hn hk _).bind_pure fun body y hbody => ?_
  intro word left hword hleft
  refine ⟨⟨hinit.1, hcondition.1, hstep.1, Stmt.allWellFormed_iff.mpr hbody.1⟩, ?_⟩
  have hend := hstep.2.append (.symbol hright hbody.2)
  have hheader := hcondition.2.append (.symbol hsemicolon hend)
  exact .keyword hword (.symbol hleft (hinit.2.append hheader))

theorem reads_forWith : Reads (forWith nested) (Written Stmt.WellFormed Stmt.unparse) := by
  refine .keyword_bind fun word hword => ?_
  refine .symbol_bind fun left hleft => ?_
  have hrange := (reads_rangeLoopWith hn hk).mono fun s w h => h word left hword hleft
  have hstep := (reads_stepLoopWith hn hk).mono fun s w h => h word left hword hleft
  exact .nextIn_bind fun _ => .ite hrange (.nextIn_bind fun _ => .ite hstep
    (.fail hrange.exists_word))

theorem reads_whileLoopWith :
    Reads (whileLoopWith nested) (Written Stmt.WellFormed Stmt.unparse) := by
  refine .keyword_bind fun word hword => ?_
  refine .symbol_bind fun left hleft => ?_
  refine reads_condition.bind fun condition u hcondition => ?_
  refine .symbol_bind fun right hright => ?_
  refine (reads_blockWith hn hk _).bind_pure fun body v hbody => ?_
  refine ⟨⟨hcondition.1, Stmt.allWellFormed_iff.mpr hbody.1⟩, ?_⟩
  exact .keyword hword (.grouped_append hleft hcondition.2 hright hbody.2)

theorem reads_statementWith :
    Reads (statementWith nested) (Written Stmt.WellFormed Stmt.unparse) := by
  refine .nextIn_bind fun _ => .ite (reads_declaration.bind_pure fun decl u hdecl => hdecl) ?_
  refine .nextIn_bind fun _ => .ite reads_returnStmt ?_
  refine .nextIn_bind fun _ => .ite reads_callStmt ?_
  refine .nextIn_bind fun _ => .ite (reads_ifWith hn hk) ?_
  refine .nextIn_bind fun _ => .ite (reads_forWith hn hk) ?_
  refine .nextIn_bind fun _ => .ite (reads_whileLoopWith hn hk) ?_
  exact .nextIn_bind fun _ => .ite reads_assignStmt (.fail reads_assignStmt.exists_word)

end

theorem reads_statementWithin (depth : List Token) :
    Reads (statementWithin depth) (Written Stmt.WellFormed Stmt.unparse) := by
  induction depth with
  | nil => exact .fail reads_assignStmt.exists_word
  | cons _ depth ih => exact reads_statementWith ih (shrinks_statementWithin depth)

theorem reads_statement : Reads statement (Written Stmt.WellFormed Stmt.unparse) := by
  refine .of_agreeBelow fun n => ?_
  obtain ⟨depth, hdepth⟩ := exists_statementWithin n
  exact ⟨_, hdepth, reads_statementWithin depth⟩

theorem reads_parameter : Reads parameter (Written Param.WellFormed Param.unparse) := by
  refine reads_typeRef.bind fun type u htype => ?_
  refine .name_bind fun name hname => ?_
  exact .pure ⟨⟨hname, htype.1⟩, htype.2.append (Fits.nil.kept name)⟩

theorem reads_returnType : Reads returnType (Written TypeRef.IsReturned TypeRef.unparse) := by
  refine .take_bind (fun word hword => .pure ?_) (.nextIn_bind fun _ => .ite ?_ (.pure ?_))
  · refine ⟨Or.inl ⟨rfl, rfl, ?_⟩, Fits.nil.kept word⟩
    rintro _ ⟨⟩
    exact beq_iff_eq.mp hword
  · exact reads_typeRef.mono fun type w htype => ⟨Or.inr htype.1, htype.2⟩
  · exact ⟨Or.inl ⟨rfl, rfl, by simp [TypeRef.implicitVoid]⟩, .nil⟩

theorem reads_function : Reads function (Written Func.WellFormed Func.unparse) := by
  refine .keyword_bind fun word hword => ?_
  refine reads_returnType.bind fun returns u hreturns => ?_
  refine .name_bind fun name hname => ?_
  refine .symbol_bind fun left hleft => ?_
  refine (reads_parameter.listUntil shrinks_parameter).bind fun params v hparams => ?_
  refine .symbol_bind fun right hright => ?_
  refine (reads_blockWith reads_statement shrinks_statement _).bind_pure fun body x hbody => ?_
  refine ⟨⟨hname, hparams.1, hreturns.1, hbody.1⟩, ?_⟩
  have hrow : Fits (grouped (commas (params.map Param.unparse)) ++ braced (Stmt.unparses body))
      (left :: (v ++ right :: x)) := .grouped_append hleft hparams.2 hright hbody.2
  exact .keyword hword (hreturns.2.append (.kept name hrow))

/-- A statement outside all blocks begins with a token that no declaration has and is not
`return`. -/
theorem wellFormed_stmt_of_head {s : Stmt} {t : Token} {w : List Token} (hs : s.WellFormed)
    (hw : Fits s.unparse (t :: w)) (hstarts : outerStatementStarts t.kind = true)
    (htype : typeWords t.kind = false) : (Item.stmt s).WellFormed := by
  obtain ⟨_, _, h, ht⟩ := Stmt.startsIn hs hw
  cases h
  exact ⟨(Stmt.starts_iff_isOuter ht).mpr ⟨hstarts, htype⟩, hs⟩

theorem reads_item : Reads item (Written Item.WellFormed Item.unparse) := by
  have hfunction : Reads (do return Item.func (← function))
      (Written Item.WellFormed Item.unparse) :=
    reads_function.bind_pure fun f u hf => hf
  have hdeclaration : Reads (do return Item.declare (← declaration))
      fun i w => ∃ d, i = .declare d ∧ Written Decl.WellFormed Decl.unparse d w :=
    reads_declaration.bind_pure fun d u hd => ⟨d, rfl, hd⟩
  have hstatement : Reads (do return Item.stmt (← statement))
      fun i w => ∃ s, i = .stmt s ∧ Written Stmt.WellFormed Stmt.unparse s w :=
    reads_statement.bind_pure fun s u hs => ⟨s, rfl, hs⟩
  let outer (i : Item) (w : List Token) : Prop := StartsIn outerStatementStarts w ∧
    ∃ s, i = .stmt s ∧ Written Stmt.WellFormed Stmt.unparse s w
  have hne : ∃ i w, outer i w := by
    obtain ⟨c, w, hc, hw⟩ := reads_call.exists_word
    have hstmt : Fits (Stmt.call c).unparse (w ++ [⟨.symbol .semicolon, ";", none, .origin⟩]) :=
      hw.append (.symbol rfl .nil)
    have hstarts := Stmt.startsIn (s := .call c) hc hstmt
    refine ⟨.stmt (.call c), _, hstarts.mono fun k hk => ?_, .call c, rfl, hc, hstmt⟩
    exact ((Stmt.starts_iff_isOuter hk).mp trivial).1
  have houter : Reads (do
      if ← nextIn outerStatementStarts then return .stmt (← statement) else fail .item) outer := by
    refine .nextIn_bind_head hstatement (.fail hne) ?_ ?_ ?_ ?_ hne
    · intro i t w hi ht
      exact ⟨⟨t, w, rfl, ht⟩, hi⟩
    · intro i t w hi _
      exact hi
    · intro i hi
      obtain ⟨s, rfl, hs⟩ := hi
      exact not_startsIn_nil _ (Stmt.startsIn hs.1 hs.2)
    · intro i houter
      obtain ⟨hi, -⟩ := houter
      exact not_startsIn_nil _ hi
  refine .nextIn_bind fun _ => .ite hfunction (.nextIn_bind_head hdeclaration houter ?_ ?_ ?_ ?_
    hfunction.exists_word)
  · intro i t w hi _
    obtain ⟨d, rfl, hd⟩ := hi
    exact hd
  · intro i t w hi htype
    obtain ⟨⟨_, _, h, hstarts⟩, s, rfl, hs⟩ := hi
    cases h
    exact ⟨wellFormed_stmt_of_head hs.1 hs.2 hstarts htype, hs.2⟩
  · intro i hi
    obtain ⟨d, rfl, hd⟩ := hi
    exact not_startsIn_nil _ (Decl.startsIn hd.1 hd.2)
  · intro i houter
    obtain ⟨hi, -⟩ := houter
    exact not_startsIn_nil _ hi

theorem reads_program : Reads program (Written Program.WellFormed Program.unparse) :=
  (reads_item.manyIfNext shrinks_item).bind_pure fun _ _ hitems => hitems

end Jam.Grammar
