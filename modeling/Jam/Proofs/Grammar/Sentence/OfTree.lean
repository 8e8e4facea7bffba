import Jam.Proofs.Grammar.Derives
import Jam.Proofs.Grammar.First

/-!
What a well-formed tree is written as is derived by the grammar, once all but the kinds of the
tokens is forgotten.
-/
namespace Jam

namespace Slot

/-- The kinds that a row asks for. -/
def phrase (row : List Slot) : Phrase := row.map kind

theorem phrase_cons (s : Slot) (row : List Slot) : phrase (s :: row) = s.kind :: phrase row := rfl

theorem phrase_append (row others : List Slot) :
    phrase (row ++ others) = phrase row ++ phrase others :=
  List.map_append

theorem phrase_flatMap {α : Type} (as : List α) (f : α → List Slot) :
    phrase (as.flatMap f) = as.flatMap fun a => phrase (f a) :=
  List.map_flatMap

theorem phrase_bracketed (row : List Slot) :
    phrase (bracketed row) = Phrase.bracketed (phrase row) := by
  rw [bracketed, phrase_cons, phrase_append]
  rfl

theorem phrase_grouped (row : List Slot) : phrase (grouped row) = Phrase.grouped (phrase row) := by
  rw [grouped, phrase_cons, phrase_append]
  rfl

theorem phrase_braced (row : List Slot) : phrase (braced row) = Phrase.braced (phrase row) := by
  rw [braced, phrase_cons, phrase_append]
  rfl

theorem phrase_commas {α : Type} (as : List α) (f : α → List Slot) :
    phrase (commas (as.map f)) = Phrase.commas (as.map fun a => phrase (f a)) := by
  cases as with
  | nil => rfl
  | cons a as =>
    rw [List.map_cons, commas, phrase_append, phrase_flatMap, List.map_cons, Phrase.commas,
      List.flatMap_map, List.flatMap_map]
    rfl

theorem phrase_bracketedAll {α : Type} (as : List α) (f : α → List Slot) :
    phrase (as.flatMap fun a => bracketed (f a)) =
      (as.map fun a => phrase (f a)).flatMap Phrase.bracketed := by
  rw [phrase_flatMap, List.flatMap_map]
  simp only [phrase_bracketed]

end Slot

open Slot Phrase

theorem forall_mem_phrases {α : Type} {as : List α} {f : α → List Slot} {n : Nonterminal}
    (h : ∀ a ∈ as, Derives n (phrase (f a))) : ∀ w ∈ as.map fun a => phrase (f a), Derives n w := by
  intro w hw
  obtain ⟨a, ha, rfl⟩ := List.mem_map.mp hw
  exact h a ha

theorem mem_of_arithmetic {k : TokenKind} (h : KindClass.arithmetic k = true) :
    ∃ op, k = .symbol op ∧ op ∈ [Symbol.plus, .minus, .star, .slash, .percent] := by
  cases k with
  | symbol s => exact ⟨s, rfl, by cases s <;> first | decide | cases h⟩
  | _ => cases h

theorem mem_of_relational {k : TokenKind} (h : KindClass.relational k = true) :
    ∃ op, k = .symbol op ∧
      op ∈ [Symbol.less, .lessEqual, .greater, .greaterEqual, .equal, .notEqual] := by
  cases k with
  | symbol s => exact ⟨s, rfl, by cases s <;> first | decide | cases h⟩
  | _ => cases h

theorem Expr.derives_call {word callee : Token} {args : List Expr}
    (hword : word.kind = .keyword .call) (hcallee : callee.kind = .name)
    (h : ∀ e ∈ args, Derives .expression (phrase e.unparse)) :
    Derives .call (phrase (Expr.call word callee args).unparse) := by
  rw [Expr.unparse_call, phrase_cons, phrase_cons, kind, kind, hword, hcallee, phrase_grouped,
    phrase_commas]
  exact .call (forall_mem_phrases h)

theorem Expr.derives_and_atom (e : Expr) (he : e.WellFormed) :
    Derives .expression (phrase e.unparse) ∧ (e.IsOperand → Derives .atom (phrase e.unparse)) := by
  have hatom : ∀ {e : Expr}, Derives .atom (phrase e.unparse) →
      Derives .expression (phrase e.unparse) ∧
        (e.IsOperand → Derives .atom (phrase e.unparse)) :=
    fun h => ⟨.operationExpression (.atomOperation h), fun _ => h⟩
  induction e using Expr.induction with
  | literal t value =>
    apply hatom
    rw [Expr.unparse, phrase_cons, kind, he.1]
    exact .numberAtom
  | name t =>
    apply hatom
    rw [Expr.unparse, phrase_cons, kind, show t.kind = .name from he]
    have hindices : ∀ w ∈ ([] : List Phrase), Derives .expression w := by simp
    exact .nameAtom hindices
  | element t indices ih =>
    obtain ⟨ht, -, hindices⟩ := he
    rw [Expr.allWellFormed_iff] at hindices
    apply hatom
    rw [Expr.unparse_element, phrase_cons, kind, ht, phrase_bracketedAll]
    exact .nameAtom (forall_mem_phrases fun e hmem => (ih e hmem (hindices e hmem)).1)
  | group inner ih =>
    apply hatom
    rw [Expr.unparse, phrase_grouped]
    exact .groupAtom (ih he).1
  | call word callee args ih =>
    obtain ⟨hword, hcallee, hargs⟩ := he
    rw [Expr.allWellFormed_iff] at hargs
    refine ⟨.callExpression ?_, fun ho => ho.elim⟩
    exact Expr.derives_call hword hcallee fun e hmem => (ih e hmem (hargs e hmem)).1
  | binary left op right ihleft ihright =>
    obtain ⟨hop, ⟨hl, hleft⟩, hr, hright⟩ := he
    refine ⟨.operationExpression ?_, fun ho => ho.elim⟩
    obtain ⟨s, hs, hmem⟩ := mem_of_arithmetic hop
    rw [Expr.unparse, phrase_append, phrase_cons, kind, hs]
    exact .binaryOperation hmem ((ihleft hleft).2 hl) ((ihright hright).2 hr)

theorem Expr.derives {e : Expr} (he : e.WellFormed) : Derives .expression (phrase e.unparse) :=
  (Expr.derives_and_atom e he).1

theorem Call.derives {c : Call} (hc : c.WellFormed) : Derives .call (phrase c.unparse) := by
  obtain ⟨hword, hcallee, hargs⟩ := hc
  rw [Expr.allWellFormed_iff] at hargs
  exact Expr.derives_call hword hcallee fun e hmem => Expr.derives (hargs e hmem)

theorem Expr.derives_operation {e : Expr} (hc : ¬ e.IsCall) (he : e.WellFormed) :
    Derives .operation (phrase e.unparse) := by
  cases e with
  | call word callee args => exact absurd trivial hc
  | binary left op right =>
    obtain ⟨hop, ⟨hl, hleft⟩, hr, hright⟩ := he
    obtain ⟨s, hs, hmem⟩ := mem_of_arithmetic hop
    rw [Expr.unparse, phrase_append, phrase_cons, kind, hs]
    exact .binaryOperation hmem ((Expr.derives_and_atom left hleft).2 hl)
      ((Expr.derives_and_atom right hright).2 hr)
  | _ => exact .atomOperation ((Expr.derives_and_atom _ he).2 trivial)

theorem Expr.derives_condition {e : Expr} (he : e.IsCondition) :
    Derives .condition (phrase e.unparse) := by
  cases e with
  | binary left op right =>
    obtain ⟨hop, hleft, hright⟩ := he
    obtain ⟨s, hs, hmem⟩ := mem_of_relational hop
    rw [Expr.unparse, phrase_append, phrase_cons, kind, hs]
    exact .condition hmem (Expr.derives hleft) (Expr.derives hright)
  | _ => exact he.elim

theorem TypeRef.derives {t : TypeRef} (ht : t.IsOfValue) : Derives .type (phrase t.unparse) := by
  obtain ⟨kind, word?, rank⟩ := t
  obtain ⟨s, word, rfl, rfl, hword⟩ := ht
  cases rank with
  | zero =>
    change Derives .type [word.kind]
    rw [hword]
    exact .scalarType s
  | succ n =>
    change Derives .type (.keyword .array :: word.kind ::
      phrase (List.replicate (n + 1) (Slot.bracketed [])).flatten)
    rw [hword, phrase, List.map_flatten, List.map_replicate]
    exact .arrayType s n

theorem TypeRef.derives_returnType {t : TypeRef} (ht : t.IsReturned) :
    Derives .returnType (phrase t.unparse) := by
  rcases ht with ⟨-, hrank, hword⟩ | hvalue
  · obtain ⟨kind, word?, rank⟩ := t
    obtain rfl : rank = 0 := hrank
    cases word? with
    | none => exact .noReturnType
    | some word =>
      change Derives .returnType [word.kind]
      rw [hword word rfl]
      exact .voidReturnType
  · exact .valueReturnType (TypeRef.derives hvalue)

theorem Init.derives {dims : Nat} {i : Init} (hi : i.HasDepth dims) :
    Derives (.initializer dims) (phrase i.unparse) := by
  induction dims generalizing i with
  | zero =>
    cases i with
    | value e => exact .valueInitializer (Expr.derives hi)
    | braces items => exact hi.elim
  | succ dims ih =>
    cases i with
    | value e => exact hi.elim
    | braces items =>
      rw [Init.unparse_braces, phrase_braced, phrase_commas]
      refine .bracesInitializer ?_ (forall_mem_phrases fun i hmem => ih (hi.2 i hmem))
      simpa using hi.1

theorem Init.derives_initial {dims : Nat} {init : Option Init}
    (h : ∀ i ∈ init, i.HasDepth dims) :
    Derives (.initial dims)
      (phrase (init.elim [] fun i => .symbol .assign :: i.unparse)) := by
  cases init with
  | none => exact .noInitial dims
  | some i => exact .someInitial (Init.derives (h i rfl))

theorem phrase_furtherNames {ts : List Token} (h : ∀ t ∈ ts, t.kind = .name) :
    phrase (ts.flatMap fun t => [.symbol .comma, .kept t]) = furtherNames ts.length := by
  induction ts with
  | nil => rfl
  | cons t ts ih =>
    rw [List.forall_mem_cons] at h
    rw [List.flatMap_cons, phrase_append, ih h.2, phrase_cons, phrase_cons, kind, kind, h.1]
    rfl

theorem Decl.derives {d : Decl} (hd : d.WellFormed) : Derives .declaration (phrase d.unparse) := by
  obtain ⟨⟨kind, word?, rank⟩, dims, names, init⟩ := d
  obtain ⟨⟨s, word, rfl, rfl, hword⟩, hrank, hdims, ⟨hne, hnames⟩, hinit⟩ := hd
  obtain rfl : rank = dims.length := hrank
  have hinitial := Init.derives_initial hinit
  cases names with
  | nil => exact absurd rfl hne
  | cons first others =>
    obtain ⟨hfirst, hothers⟩ := List.forall_mem_cons.mp hnames
    have hrow : phrase (Decl.unparse
        ⟨⟨.scalar s, some word, dims.length⟩, dims, first :: others, init⟩) =
        phrase (arrayWord dims.length) ++ TokenKind.keyword (.scalar s) ::
          ((dims.map fun e => phrase e.unparse).flatMap Phrase.bracketed ++ TokenKind.name ::
            (phrase (init.elim [] fun i => .symbol .assign :: i.unparse) ++
              (furtherNames others.length ++ [TokenKind.symbol .semicolon]))) := by
      rw [← phrase_furtherNames hothers, ← phrase_bracketedAll]
      simp [Decl.unparse, unparseNames, phrase, Slot.kind, hword, hfirst]
    rw [hrow]
    cases dims with
    | nil => exact .scalarDeclaration s _ hinitial
    | cons e dims =>
      refine .arrayDeclaration s _ (List.cons_ne_nil _ _)
        (forall_mem_phrases fun e he => Expr.derives (hdims e he)) ?_
      rw [List.length_map]
      exact hinitial

theorem Target.derives {t : Target} (ht : t.WellFormed) : Derives .target (phrase t.unparse) := by
  rw [Target.unparse, phrase_cons, kind, ht.name, phrase_bracketedAll]
  exact .target (forall_mem_phrases fun e he => Expr.derives (ht.indices e he))

theorem Assign.derives {a : Assign} (ha : a.WellFormed) : Derives .step (phrase a.unparse) := by
  obtain ⟨value, target⟩ := a
  have htarget := Target.derives ha.target
  rw [Assign.unparse, phrase_append, phrase_cons]
  by_cases hc : value.IsCall
  · cases value with
    | call word callee args =>
      exact .callStep (Call.derives (c := ⟨word, callee, args⟩) ha.value) htarget
    | _ => exact hc.elim
  · exact .operationStep (Expr.derives_operation hc ha.value) htarget

/-- What can be the step of a loop can be a statement. -/
theorem Derives.statement_of_step {w : Phrase} (h : Derives .step w) :
    Derives .outerStatement (w ++ [.symbol .semicolon]) := by
  cases h with
  | callStep hcall htarget =>
    rw [List.append_assoc]
    exact .callAssignStatement hcall htarget
  | operationStep hvalue htarget =>
    rw [List.append_assoc]
    exact .assignStatement hvalue htarget

theorem Stmt.derives_block {body : List Stmt}
    (h : ∀ s ∈ body, Derives .statement (phrase s.unparse)) :
    Derives .block (phrase (Stmt.unparses body)) := by
  rw [Stmt.unparses_eq_flatMap, phrase_flatMap, List.flatMap_def]
  exact .block (forall_mem_phrases h)

theorem derives_unparseArm {condition : Expr} {body : List Stmt}
    (hc : condition.IsCondition) (h : ∀ s ∈ body, Derives .statement (phrase s.unparse)) :
    Derives .arm (phrase (unparseArm condition.unparse (Stmt.unparses body))) := by
  rw [unparseArm, phrase_append, phrase_grouped, phrase_braced]
  exact .arm (Expr.derives_condition hc) (Stmt.derives_block h)

theorem Tail.derives_branch {condition : Expr} {body : List Stmt}
    {arms : List (Expr × List Stmt)} {last : Option (List Stmt)}
    (hfirst : Derives .arm (phrase (unparseArm condition.unparse (Stmt.unparses body))))
    (harms : ∀ arm ∈ arms, Derives .arm
      (phrase (unparseArm arm.1.unparse (Stmt.unparses arm.2))))
    (hlast : ∀ block ∈ last, ∀ s ∈ block, Derives .statement (phrase s.unparse)) :
    Derives .outerStatement
      (phrase (Stmt.branch condition body (.ofArms arms last)).unparse) := by
  have hotherwise : Derives .otherwise
      (phrase (last.elim [] fun body => .keyword .else_ :: braced (Stmt.unparses body))) := by
    cases last with
    | none => exact .noOtherwise
    | some block =>
      rw [Option.elim_some, phrase_cons, phrase_braced]
      exact .someOtherwise (Stmt.derives_block (hlast block rfl))
  have hothers : phrase (arms.flatMap fun arm => .keyword .or_ :: .keyword .if_ ::
      unparseArm arm.1.unparse (Stmt.unparses arm.2)) =
      (arms.map fun arm => phrase (unparseArm arm.1.unparse (Stmt.unparses arm.2))).flatMap
        fun w => TokenKind.keyword .or_ :: .keyword .if_ :: w := by
    rw [phrase_flatMap, List.flatMap_map]
    rfl
  rw [Stmt.unparse, Tail.unparse_ofArms, phrase_cons, phrase_append, phrase_append, hothers]
  exact .ifStatement hfirst (forall_mem_phrases harms) hotherwise

theorem Stmt.derives_and_outer (s : Stmt) (hs : s.WellFormed) :
    Derives .statement (phrase s.unparse) ∧
      (s.IsOuter → Derives .outerStatement (phrase s.unparse)) := by
  have houter : ∀ {s : Stmt}, Derives .outerStatement (phrase s.unparse) →
      Derives .statement (phrase s.unparse) ∧
        (s.IsOuter → Derives .outerStatement (phrase s.unparse)) :=
    fun h => ⟨.outerStatement h, fun _ => h⟩
  induction s using Stmt.induction with
  | declare d => exact ⟨.declarationStatement (Decl.derives hs), fun ho => ho.elim⟩
  | ret value =>
    refine ⟨?_, fun ho => ho.elim⟩
    rw [Stmt.unparse, phrase_cons, phrase_append]
    exact .returnStatement (Expr.derives hs)
  | assign a =>
    apply houter
    rw [Stmt.unparse, phrase_append]
    exact (Assign.derives hs).statement_of_step
  | call c =>
    apply houter
    rw [Stmt.unparse, phrase_append]
    exact .callStatement (Call.derives hs)
  | branch condition body tail ihbody iharms ihlast =>
    obtain ⟨hcondition, hbody, htail⟩ := hs
    rw [Stmt.allWellFormed_iff] at hbody
    rw [← tail.ofArms_arms_last] at htail
    obtain ⟨hothers, hotherwise⟩ := Tail.wellFormed_ofArms.mp htail
    have hfirst := derives_unparseArm hcondition fun s hs => (ihbody s hs (hbody s hs)).1
    have harms := fun arm harm => derives_unparseArm (hothers arm harm).1 fun s hs =>
      (iharms arm harm s hs ((hothers arm harm).2 s hs)).1
    have hlast := fun block hmem s hs => (ihlast block hmem s hs (hotherwise block hmem s hs)).1
    apply houter
    rw [← tail.ofArms_arms_last]
    exact Tail.derives_branch hfirst harms hlast
  | rangeLoop var start stop body ih =>
    obtain ⟨hvar, hstart, hstop, hbody⟩ := hs
    rw [Stmt.allWellFormed_iff] at hbody
    have hblock := Stmt.derives_block fun s hs => (ih s hs (hbody s hs)).1
    apply houter
    simp only [Stmt.unparse, phrase_cons, phrase_append, phrase_braced, kind, hvar]
    exact .rangeStatement (Expr.derives hstart) (Expr.derives hstop) hblock
  | stepLoop init condition step body ih =>
    obtain ⟨hinit, hcondition, hstep, hbody⟩ := hs
    rw [Stmt.allWellFormed_iff] at hbody
    have hblock := Stmt.derives_block fun s hs => (ih s hs (hbody s hs)).1
    apply houter
    simp only [Stmt.unparse, phrase_cons, phrase_append, phrase_braced, kind]
    exact .stepStatement (Decl.derives hinit) (Expr.derives_condition hcondition)
      (Assign.derives hstep) hblock
  | whileLoop condition body ih =>
    obtain ⟨hcondition, hbody⟩ := hs
    rw [Stmt.allWellFormed_iff] at hbody
    apply houter
    rw [Stmt.unparse, phrase_cons]
    exact .whileStatement (derives_unparseArm hcondition fun s hs => (ih s hs (hbody s hs)).1)

theorem Stmt.derives {s : Stmt} (hs : s.WellFormed) : Derives .statement (phrase s.unparse) :=
  (Stmt.derives_and_outer s hs).1

theorem Param.derives {p : Param} (hp : p.WellFormed) : Derives .parameter (phrase p.unparse) := by
  rw [Param.unparse, phrase_append, phrase_cons, kind, hp.name]
  exact .parameter (TypeRef.derives hp.type)

theorem Func.derives {f : Func} (hf : f.WellFormed) : Derives .function (phrase f.unparse) := by
  simp only [Func.unparse, phrase_cons, phrase_append, phrase_braced, phrase_grouped,
    phrase_commas, kind, hf.name]
  exact .function (TypeRef.derives_returnType hf.returns)
    (forall_mem_phrases fun p hp => Param.derives (hf.params p hp))
    (Stmt.derives_block fun s hs => Stmt.derives (hf.body s hs))

theorem Item.derives {i : Item} (hi : i.WellFormed) : Derives .item (phrase i.unparse) := by
  cases i with
  | declare d => exact .declarationItem (Decl.derives hi)
  | stmt s => exact .statementItem ((Stmt.derives_and_outer s hi.2).2 hi.1)
  | func f => exact .functionItem (Func.derives hi)

/-- A well-formed program is written as a sentence. -/
theorem Program.derives {p : Program} (hp : p.WellFormed) :
    Derives .program (phrase p.unparse) := by
  rw [Program.unparse, phrase_flatMap, List.flatMap_def]
  exact .program (forall_mem_phrases fun i hi => Item.derives (hp i hi))

end Jam
