import Jam.Proofs.Grammar.Reads
import Jam.Proofs.Tree.Unparse
import Jam.Proofs.Tree.WellFormed

/-!
The rules for expressions and declarations read well-formed trees from the words that fit them.
Each rule is followed token by token; what has been read so far is a word before the rest of the
rule.
-/
namespace Jam.Grammar

open Jam.Parser
open Slot (bracketed grouped braced commas)

section

variable {nested : Parser Expr} (hn : Reads nested (Written Expr.WellFormed Expr.unparse))

include hn

theorem reads_indicesWith (hk : Keeps nested) :
    Reads (indicesWith nested) (WrittenList Expr.WellFormed fun e => bracketed e.unparse) := by
  have hindex : Reads (do
      let index ← nested
      let _ ← Parser.symbol .rightBracket .indexEnd
      return index) (Written Expr.WellFormed fun e => e.unparse ++ [.symbol .rightBracket]) := by
    refine hn.bind fun e u he => ?_
    refine .symbol_bind fun t ht => ?_
    exact .pure ⟨he.1, he.2.append (.symbol ht .nil)⟩
  exact hindex.manyLed holds_symbol (keeps_indexWith hk)

theorem reads_callWith (hk : Shrinks nested) :
    Reads (callWith nested) (Written Call.WellFormed Call.unparse) := by
  refine .keyword_bind fun word hword => ?_
  refine .name_bind fun callee hcallee => ?_
  refine .symbol_bind fun left hleft => ?_
  refine (hn.listUntil hk).bind fun args u hargs => ?_
  refine .symbol_bind fun right hright => ?_
  refine .pure ⟨⟨hword, hcallee, Expr.allWellFormed_iff.mpr hargs.1⟩, ?_⟩
  rw [Call.unparse, Call.expr, Expr.unparse_call]
  have hrow : Fits (grouped (commas (args.map Expr.unparse))) (left :: (u ++ [right])) :=
    .enclosed hleft hargs.2 hright
  exact (hrow.kept callee).kept word

theorem reads_atomWith (hk : Keeps nested) :
    Reads (atomWith nested) (Written (fun e => e.IsOperand ∧ e.WellFormed) Expr.unparse) := by
  refine .take_bind_or_failAt (fun t ht => ?_) (.take_bind (fun t ht => ?_)
    (.take_bind (fun t ht => ?_) (.fail ?_)))
  · cases hvalue : t.literal with
    | none => exact Or.inr ⟨.numberValue, by simp only [hvalue]⟩
    | some value =>
      apply Or.inl
      simp only [hvalue]
      exact .pure ⟨⟨trivial, beq_iff_eq.mp ht, hvalue⟩, Fits.nil.kept t⟩
  · refine (reads_indicesWith hn hk).bind_pure fun indices u hindices => ?_
    cases indices with
    | nil => exact ⟨⟨trivial, beq_iff_eq.mp ht⟩, hindices.2.kept t⟩
    | cons first others =>
      refine ⟨⟨trivial, beq_iff_eq.mp ht, List.cons_ne_nil _ _,
        Expr.allWellFormed_iff.mpr hindices.1⟩, ?_⟩
      show Fits (Expr.element t (first :: others)).unparse (t :: u)
      rw [Expr.unparse_element]
      exact hindices.2.kept t
  · refine hn.bind fun e u he => ?_
    refine .symbol_bind fun right hright => ?_
    exact .pure ⟨⟨trivial, he.1⟩, .enclosed (beq_iff_eq.mp ht) he.2 hright⟩
  · exact ⟨.name ⟨.name, "", none, .origin⟩, _, ⟨trivial, rfl⟩, Fits.nil.kept _⟩

theorem reads_operationWith (hk : Keeps nested) :
    Reads (operationWith nested) (Written Expr.WellFormed Expr.unparse) := by
  have hatom := reads_atomWith hn hk
  refine hatom.bind fun left u hleft => .take_bind (fun op hop => ?_) (.pure ?_)
  · refine hatom.bind fun right v hright => ?_
    have hbinary : Written Expr.WellFormed Expr.unparse (.binary left op right)
        (u ++ op :: (v ++ [])) := by
      rw [List.append_nil]
      exact ⟨⟨hop, hleft.1, hright.1⟩, hleft.2.append (hright.2.kept op)⟩
    exact .nextIn_bind fun _ => .ite (.fail ⟨_, _, hbinary⟩) (.pure hbinary)
  · rw [List.append_nil]
    exact ⟨hleft.1.2, hleft.2⟩

theorem reads_expressionWith (hk : Shrinks nested) :
    Reads (expressionWith nested) (Written Expr.WellFormed Expr.unparse) := by
  refine .nextIn_bind fun _ => .ite ?_ (reads_operationWith hn hk.keeps)
  refine (reads_callWith hn hk).bind fun call u hcall => ?_
  rw [← List.append_nil u] at hcall
  exact .nextIn_bind fun _ => .ite (.fail ⟨call.expr, _, hcall⟩) (.pure hcall)

end

theorem reads_expressionWithin (depth : List Token) :
    Reads (expressionWithin depth) (Written Expr.WellFormed Expr.unparse) := by
  induction depth with
  | nil => exact .fail ⟨.name ⟨.name, "", none, .origin⟩, _, rfl, Fits.nil.kept _⟩
  | cons _ depth ih => exact reads_expressionWith ih (shrinks_expressionWithin depth)

/-- Nesting is bounded by the length of the input only to define expressions; what they read is
the same at every depth. -/
theorem reads_expression : Reads expression (Written Expr.WellFormed Expr.unparse) := by
  refine .of_agreeBelow fun n => ?_
  obtain ⟨depth, hdepth⟩ := exists_expressionWithin n
  exact ⟨_, hdepth, reads_expressionWithin depth⟩

theorem reads_indices :
    Reads indices (WrittenList Expr.WellFormed fun e => bracketed e.unparse) :=
  reads_indicesWith reads_expression shrinks_expression.keeps

theorem reads_call : Reads call (Written Call.WellFormed Call.unparse) :=
  reads_callWith reads_expression shrinks_expression

theorem reads_operation : Reads operation (Written Expr.WellFormed Expr.unparse) :=
  reads_operationWith reads_expression shrinks_expression.keeps

theorem reads_condition : Reads condition (Written Expr.IsCondition Expr.unparse) := by
  refine reads_expression.bind fun left u hleft => ?_
  refine .expect_bind ⟨.symbol .less, rfl⟩ fun op hop => ?_
  refine reads_expression.bind_pure fun right v hright => ?_
  exact ⟨⟨hop, hleft.1, hright.1⟩, hleft.2.append (hright.2.kept op)⟩

theorem reads_name (fault : SyntaxFault) :
    Reads (name fault) (Written (fun t => t.kind = .name) fun t => [.kept t]) := by
  have hname : Reads (expect .name fault) _ := .expect ⟨.name, rfl⟩
  apply hname.mono
  intro t w ht
  obtain ⟨ht, rfl⟩ := ht
  exact ⟨beq_iff_eq.mp ht, Fits.nil.kept t⟩

theorem exists_of_scalarWords {k : TokenKind} (h : scalarWords k = true) :
    ∃ s, k = .keyword (.scalar s) := by
  unfold scalarWords TokenKind.isScalar at h
  split at h
  · exact ⟨_, rfl⟩
  · cases h

theorem reads_arrayOrScalar {α : Type} {part : Parser α} {good : α → Prop} {row : α → List Slot}
    (hpart : Reads part (Written good row)) (hk : Shrinks part) :
    Reads (arrayOrScalar part)
      (Written (fun r => (∃ s, r.1.kind = .keyword (.scalar s)) ∧ ∀ a ∈ r.2, good a) fun r =>
        Slot.arrayWord r.2.length ++ .kept r.1 :: r.2.flatMap row) := by
  have hscalar : ∃ kind, scalarWords kind = true := ⟨.keyword (.scalar .int), rfl⟩
  refine .take_bind (fun array harray => ?_) ?_
  · refine .expect_bind hscalar fun word hs => ?_
    refine (hpart.oneOrMore hk).bind_pure fun parts u hparts => ?_
    refine ⟨⟨exists_of_scalarWords hs, hparts.1.2⟩, ?_⟩
    cases parts with
    | nil => exact absurd rfl hparts.1.1
    | cons first others => exact .keyword (beq_iff_eq.mp harray) (hparts.2.kept word)
  · refine .expect_bind hscalar fun word hs => ?_
    exact .pure ⟨⟨exists_of_scalarWords hs, by simp⟩, Fits.nil.kept word⟩

theorem reads_typeRef : Reads typeRef (Written TypeRef.IsOfValue TypeRef.unparse) := by
  have hbrackets : Reads (do
      let _ ← Parser.symbol .leftBracket .arrayBracket
      Parser.symbol .rightBracket .arrayTypeBracketEnd)
      (Written (fun _ => True) fun _ => bracketed []) := by
    refine .symbol_bind fun left hleft => ?_
    have hclose : Reads (expect (.symbol .rightBracket) .arrayTypeBracketEnd) _ :=
      .expect ⟨.symbol .rightBracket, rfl⟩
    apply hclose.mono
    intro right w hright
    obtain ⟨hright, rfl⟩ := hright
    exact ⟨trivial, .enclosed hleft .nil (beq_iff_eq.mp hright)⟩
  apply (reads_arrayOrScalar hbrackets shrinks_brackets).bind
  intro read u hread
  obtain ⟨word, brackets⟩ := read
  obtain ⟨⟨⟨s, hs⟩, -⟩, hu⟩ := hread
  refine .pure ⟨⟨s, word, congrArg typeKind hs, rfl, hs⟩, ?_⟩
  rw [List.append_nil]
  simpa [TypeRef.unparse, List.flatMap_def, List.map_const'] using hu

theorem reads_initializer (dims : Nat) :
    Reads (initializer dims) (Written (Init.HasDepth dims) Init.unparse) := by
  induction dims with
  | zero =>
    refine reads_expression.bind_pure fun e u he => ?_
    exact ⟨he.1, he.2⟩
  | succ dims ih =>
    refine .symbol_bind fun left hleft => ?_
    refine (ih.commaSeparated (shrinks_initializer dims)).bind fun items u hitems => ?_
    refine .symbol_bind fun right hright => ?_
    refine .pure ⟨hitems.1, ?_⟩
    rw [Init.unparse_braces]
    exact .enclosed hleft hitems.2 hright

theorem reads_declaration : Reads declaration (Written Decl.WellFormed Decl.unparse) := by
  have hsize : Reads (do
      let _ ← Parser.symbol .leftBracket .arrayBracket
      let size ← expression
      let _ ← Parser.symbol .rightBracket .dimensionEnd
      return size) (Written Expr.WellFormed fun e => bracketed e.unparse) := by
    refine .symbol_bind fun left hleft => ?_
    refine reads_expression.bind fun size u hsize => ?_
    refine .symbol_bind fun right hright => ?_
    exact .pure ⟨hsize.1, .enclosed hleft hsize.2 hright⟩
  apply (reads_arrayOrScalar hsize shrinks_dimension).bind
  intro read u hread
  obtain ⟨word, dims⟩ := read
  obtain ⟨⟨⟨s, hs⟩, hdims⟩, hu⟩ := hread
  refine .name_bind fun first hfirst => ?_
  refine ((reads_initializer dims.length).led holds_symbol).bind
    fun init v hinit => ?_
  refine ((reads_name _).manyLed holds_symbol (shrinks_expect _ _).keeps).bind
    fun others x hothers => ?_
  refine .symbol_bind fun semicolon hsemicolon => ?_
  refine .pure ⟨?_, ?_⟩
  · exact {
      type := ⟨s, word, congrArg typeKind hs, rfl, hs⟩
      rank := rfl
      dims := hdims
      names := ⟨List.cons_ne_nil _ _, List.forall_mem_cons.mpr ⟨hfirst, hothers.1⟩⟩
      init := hinit.1
    }
  · have hnames := (hinit.2.append hothers.2).kept first
    have hrow := (hu.append hnames).append (.symbol hsemicolon .nil)
    simpa [Decl.unparse, unparseNames] using hrow

end Jam.Grammar
