import Jam.Proofs.Grammar.Derives
import Jam.Proofs.Grammar.First
import Jam.Proofs.Grammar.Reads
import Jam.Proofs.Tree.Kept

/-!
Whatever the grammar derives is what some well-formed tree is written as. A phrase knows only
kinds; the tree keeps the tokens that are given for it.
-/
namespace Jam

open Jam.Parser (Written)

/-- Whatever tokens of these kinds are given, they fit a tree. -/
def Spells {α : Type} (w : Phrase) (good : α → Prop) (row : α → List Slot) : Prop :=
  ∀ ts : List Token, (∀ t ∈ ts, t.IsValued) → ts.map (·.kind) = w → ∃ a, Written good row a ts

namespace Spells

variable {α β : Type} {w v : Phrase} {good : α → Prop} {row : α → List Slot}
  {good' : β → Prop} {row' : β → List Slot}

theorem map (f : α → β) (h : Spells w good row)
    (hf : ∀ a, good a → good' (f a) ∧ row' (f a) = row a) : Spells w good' row' := by
  intro ts hts hw
  obtain ⟨a, ha, hfits⟩ := h ts hts hw
  obtain ⟨hgood, hrow⟩ := hf a ha
  exact ⟨f a, hgood, hrow ▸ hfits⟩

theorem nil {a : α} (ha : good a) (hrow : row a = []) : Spells [] good row := by
  intro ts _ hw
  obtain rfl := List.map_eq_nil_iff.mp hw
  exact ⟨a, ha, hrow ▸ .nil⟩

theorem append (h : Spells w good row) (h' : Spells v good' row') :
    Spells (w ++ v) (fun p : α × β => good p.1 ∧ good' p.2) fun p => row p.1 ++ row' p.2 := by
  intro ts hts hw
  obtain ⟨us, vs, rfl, hu, hv⟩ := List.map_eq_append_iff.mp hw
  rw [List.forall_mem_append] at hts
  obtain ⟨a, ha, hafits⟩ := h us hts.1 hu
  obtain ⟨b, hb, hbfits⟩ := h' vs hts.2 hv
  exact ⟨(a, b), ⟨ha, hb⟩, hafits.append hbfits⟩

/-- A token whose kind is known. A number has its value as well. -/
theorem kept {k : TokenKind} (h : Spells w good row) :
    Spells (k :: w) (fun p : Token × α => (p.1.kind = k ∧ p.1.IsValued) ∧ good p.2)
      fun p => .kept p.1 :: row p.2 := by
  intro ts hts hw
  obtain ⟨t, us, rfl, ht, hu⟩ := List.map_eq_cons_iff.mp hw
  rw [List.forall_mem_cons] at hts
  obtain ⟨a, ha, hfits⟩ := h us hts.2 hu
  exact ⟨(t, a), ⟨⟨ht, hts.1⟩, ha⟩, hfits.kept t⟩

/-- A token that is implied, so that the tree says nothing of it. -/
theorem implied (s : Slot) (hs : ∀ t : Token, t.kind = s.kind → s.Holds t)
    (h : Spells w good row) : Spells (s.kind :: w) good fun a => s :: row a := by
  intro ts hts hw
  obtain ⟨t, us, rfl, ht, hu⟩ := List.map_eq_cons_iff.mp hw
  obtain ⟨a, ha, hfits⟩ := h us (List.forall_mem_cons.mp hts).2 hu
  exact ⟨a, ha, .cons (hs t ht) hfits⟩

theorem symbol {s : Symbol} (h : Spells w good row) :
    Spells (.symbol s :: w) good fun a => .symbol s :: row a :=
  implied (.symbol s) (fun _ ht => ht) h

theorem keyword {k : Keyword} (h : Spells w good row) :
    Spells (.keyword k :: w) good fun a => .keyword k :: row a :=
  implied (.keyword k) (fun _ ht => ht) h

/-- The end of a sequence in which only the tokens before count. -/
theorem empty : Spells [] (fun _ : Unit => True) fun _ => [] := nil (a := ()) trivial rfl

/-- A symbol at the end. -/
theorem before {s : Symbol} (h : Spells w good row) :
    Spells (w ++ [.symbol s]) good fun a => row a ++ [.symbol s] := by
  have hend : Spells [.symbol s] (fun _ : Unit => True) fun _ => [.symbol s] := empty.symbol
  exact (h.append hend).map Prod.fst fun p hp => ⟨hp.1, rfl⟩

theorem bracketed (h : Spells w good row) :
    Spells (Phrase.bracketed w) good fun a => Slot.bracketed (row a) := h.before.symbol

theorem grouped (h : Spells w good row) :
    Spells (Phrase.grouped w) good fun a => Slot.grouped (row a) := h.before.symbol

theorem braced (h : Spells w good row) :
    Spells (Phrase.braced w) good fun a => Slot.braced (row a) := h.before.symbol

/-- A repetition gives as many trees as it has phrases. -/
theorem flatMap {ws : List Phrase} {f : Phrase → Phrase}
    (h : ∀ w ∈ ws, Spells (f w) good row) :
    Spells (ws.flatMap f) (fun as : List α => as.length = ws.length ∧ ∀ a ∈ as, good a)
      fun as => as.flatMap row := by
  induction ws with
  | nil => exact nil (a := []) (by simp) rfl
  | cons w ws ih =>
    rw [List.forall_mem_cons] at h
    apply (h.1.append (ih h.2)).map (fun p => p.1 :: p.2)
    intro p hp
    obtain ⟨a, as⟩ := p
    obtain ⟨ha, hlength, has⟩ := hp
    exact ⟨⟨congrArg Nat.succ hlength, List.forall_mem_cons.mpr ⟨ha, has⟩⟩, rfl⟩

theorem flatten {ws : List Phrase} (h : ∀ w ∈ ws, Spells w good row) :
    Spells ws.flatten (fun as : List α => ∀ a ∈ as, good a) fun as => as.flatMap row := by
  rw [← List.flatMap_id]
  exact (flatMap h).map id fun as has => ⟨has.2, rfl⟩

theorem commas {ws : List Phrase} (h : ∀ w ∈ ws, Spells w good row) :
    Spells (Phrase.commas ws) (fun as : List α => as.length = ws.length ∧ ∀ a ∈ as, good a)
      fun as => Slot.commas (as.map row) := by
  cases ws with
  | nil => exact nil (a := []) (by simp) rfl
  | cons w ws =>
    rw [List.forall_mem_cons] at h
    have hothers := flatMap (f := fun w => .symbol .comma :: w) fun w hw => (h.2 w hw).symbol
    apply (h.1.append hothers).map (fun p => p.1 :: p.2)
    intro p hp
    obtain ⟨a, as⟩ := p
    obtain ⟨ha, hlength, has⟩ := hp
    refine ⟨⟨congrArg Nat.succ hlength, List.forall_mem_cons.mpr ⟨ha, has⟩⟩, ?_⟩
    rw [List.map_cons, Slot.commas, List.flatMap_map]

end Spells

/-- The trees that the phrases of a nonterminal spell. -/
def Nonterminal.Spells : Nonterminal → Phrase → Prop
  | .program, w => Jam.Spells w Program.WellFormed Program.unparse
  | .item, w => Jam.Spells w Item.WellFormed Item.unparse
  | .function, w => Jam.Spells w Func.WellFormed Func.unparse
  | .returnType, w => Jam.Spells w TypeRef.IsReturned TypeRef.unparse
  | .parameter, w => Jam.Spells w Param.WellFormed Param.unparse
  | .type, w => Jam.Spells w TypeRef.IsOfValue TypeRef.unparse
  | .declaration, w => Jam.Spells w Decl.WellFormed Decl.unparse
  | .initial dims, w => Jam.Spells w (fun init : Option Init => ∀ i ∈ init, i.HasDepth dims)
      fun init => init.elim [] fun i => .symbol .assign :: i.unparse
  | .initializer dims, w => Jam.Spells w (Init.HasDepth dims) Init.unparse
  | .block, w => Jam.Spells w (fun body => ∀ s ∈ body, s.WellFormed) Stmt.unparses
  | .statement, w => Jam.Spells w Stmt.WellFormed Stmt.unparse
  | .outerStatement, w => Jam.Spells w (fun s => s.IsOuter ∧ s.WellFormed) Stmt.unparse
  | .arm, w => Jam.Spells w
      (fun arm : Expr × List Stmt => arm.1.IsCondition ∧ ∀ s ∈ arm.2, s.WellFormed)
      fun arm => unparseArm arm.1.unparse (Stmt.unparses arm.2)
  | .otherwise, w => Jam.Spells w
      (fun last : Option (List Stmt) => ∀ body ∈ last, ∀ s ∈ body, s.WellFormed)
      fun last => last.elim [] fun body => .keyword .else_ :: Slot.braced (Stmt.unparses body)
  | .step, w => Jam.Spells w Assign.WellFormed Assign.unparse
  | .condition, w => Jam.Spells w Expr.IsCondition Expr.unparse
  | .expression, w => Jam.Spells w Expr.WellFormed Expr.unparse
  | .operation, w => Jam.Spells w Expr.WellFormed Expr.unparse
  | .atom, w => Jam.Spells w (fun e => e.IsOperand ∧ e.WellFormed) Expr.unparse
  | .call, w => Jam.Spells w Call.WellFormed Call.unparse
  | .target, w => Jam.Spells w Target.WellFormed Target.unparse

namespace Spells

variable {w v b : Phrase} {ws : List Phrase}

theorem numberAtom : Nonterminal.Spells .atom [.number] := by
  refine empty.kept.map (fun p => .literal p.1 (p.1.literal.getD 0)) ?_
  intro p hp
  obtain ⟨t, _⟩ := p
  obtain ⟨⟨ht, hvalue⟩, -⟩ := hp
  obtain ⟨value, hliteral⟩ : ∃ value, t.literal = some value :=
    Option.ne_none_iff_exists'.mp (hvalue ht)
  refine ⟨⟨trivial, ht, ?_⟩, rfl⟩
  change t.literal = some (t.literal.getD 0)
  rw [hliteral, Option.getD_some]

theorem indexed (h : ∀ w ∈ ws, Nonterminal.Spells .expression w) :
    Spells (ws.flatMap Phrase.bracketed)
      (fun es : List Expr => es.length = ws.length ∧ ∀ e ∈ es, e.WellFormed)
      fun es => es.flatMap fun e => Slot.bracketed e.unparse :=
  flatMap fun w hw => bracketed (h w hw)

theorem nameAtom (h : ∀ w ∈ ws, Nonterminal.Spells .expression w) :
    Nonterminal.Spells .atom (.name :: ws.flatMap Phrase.bracketed) := by
  refine (indexed h).kept.map
    (fun p => if p.2.isEmpty then .name p.1 else .element p.1 p.2) ?_
  intro p hp
  obtain ⟨t, indices⟩ := p
  obtain ⟨⟨ht, -⟩, -, hindices⟩ := hp
  cases indices with
  | nil => exact ⟨⟨trivial, ht⟩, rfl⟩
  | cons e es =>
    refine ⟨⟨trivial, ht, List.cons_ne_nil _ _, Expr.allWellFormed_iff.mpr hindices⟩, ?_⟩
    exact Expr.unparse_element t (e :: es)

theorem target (h : ∀ w ∈ ws, Nonterminal.Spells .expression w) :
    Nonterminal.Spells .target (.name :: ws.flatMap Phrase.bracketed) :=
  (indexed h).kept.map (fun p => Target.mk p.1 p.2) fun _ hp => ⟨⟨hp.1.1, hp.2.2⟩, rfl⟩

theorem call (h : ∀ w ∈ ws, Nonterminal.Spells .expression w) :
    Nonterminal.Spells .call
      (.keyword .call :: .name :: Phrase.grouped (Phrase.commas ws)) := by
  have hargs : Spells (Phrase.commas ws)
      (fun es : List Expr => es.length = ws.length ∧ ∀ e ∈ es, e.WellFormed)
      fun es => Slot.commas (es.map Expr.unparse) := commas h
  apply hargs.grouped.kept.kept.map (fun p => Call.mk p.1 p.2.1 p.2.2)
  intro p hp
  obtain ⟨word, callee, args⟩ := p
  obtain ⟨⟨hword, -⟩, ⟨hcallee, -⟩, -, hall⟩ := hp
  refine ⟨⟨hword, hcallee, Expr.allWellFormed_iff.mpr hall⟩, ?_⟩
  exact Expr.unparse_call word callee args

/-- Two trees with an operator between them. -/
theorem operator {good : Expr → Prop} {op : Symbol} (hleft : Spells w good Expr.unparse)
    (hright : Spells v good Expr.unparse) :
    Spells (w ++ .symbol op :: v)
      (fun e => ∃ l t r, e = .binary l t r ∧ t.kind = .symbol op ∧ good l ∧ good r)
      Expr.unparse := by
  refine (hleft.append hright.kept).map (fun p => .binary p.1 p.2.1 p.2.2) ?_
  intro p hp
  obtain ⟨l, t, r⟩ := p
  obtain ⟨hl, ⟨ht, -⟩, hr⟩ := hp
  exact ⟨⟨l, t, r, rfl, ht, hl, hr⟩, rfl⟩

theorem binaryOperation {op : Symbol} (hop : op ∈ [Symbol.plus, .minus, .star, .slash, .percent])
    (hleft : Nonterminal.Spells .atom w) (hright : Nonterminal.Spells .atom v) :
    Nonterminal.Spells .operation (w ++ .symbol op :: v) := by
  have harithmetic : KindClass.arithmetic (.symbol op) = true :=
    (by decide : ∀ s ∈ [Symbol.plus, .minus, .star, .slash, .percent],
      KindClass.arithmetic (.symbol s) = true) op hop
  apply (operator hleft hright).map id
  intro e he
  obtain ⟨l, t, r, rfl, ht, hl, hr⟩ := he
  exact ⟨⟨ht ▸ harithmetic, hl, hr⟩, rfl⟩

theorem condition {op : Symbol}
    (hop : op ∈ [Symbol.less, .lessEqual, .greater, .greaterEqual, .equal, .notEqual])
    (hleft : Nonterminal.Spells .expression w) (hright : Nonterminal.Spells .expression v) :
    Nonterminal.Spells .condition (w ++ .symbol op :: v) := by
  have hrelational : KindClass.relational (.symbol op) = true :=
    (by decide : ∀ s ∈ [Symbol.less, .lessEqual, .greater, .greaterEqual, .equal, .notEqual],
      KindClass.relational (.symbol s) = true) op hop
  apply (operator hleft hright).map id
  intro e he
  obtain ⟨l, t, r, rfl, ht, hl, hr⟩ := he
  exact ⟨⟨ht ▸ hrelational, hl, hr⟩, rfl⟩

theorem scalarType (s : Scalar) : Nonterminal.Spells .type [.keyword (.scalar s)] := by
  apply empty.kept.map (fun p => TypeRef.mk (.scalar s) (some p.1) 0)
  intro p hp
  obtain ⟨word, _⟩ := p
  obtain ⟨⟨hword, -⟩, -⟩ := hp
  exact ⟨⟨s, word, rfl, rfl, hword⟩, rfl⟩

theorem arrayType (s : Scalar) (n : Nat) :
    Nonterminal.Spells .type (.keyword .array :: .keyword (.scalar s) ::
      (List.replicate (n + 1) (Phrase.bracketed [])).flatten) := by
  have hbrackets : ∀ n, Spells (List.replicate n (Phrase.bracketed [])).flatten
      (fun _ : Unit => True) fun _ => (List.replicate n (Slot.bracketed [])).flatten := by
    intro n
    induction n with
    | zero => exact empty
    | succ n ih => exact (empty.bracketed.append ih).map (fun _ => ()) fun _ _ => ⟨trivial, rfl⟩
  refine (hbrackets (n + 1)).kept.keyword.map
    (fun p => TypeRef.mk (.scalar s) (some p.1) (n + 1)) ?_
  intro p hp
  obtain ⟨word, _⟩ := p
  obtain ⟨⟨hword, -⟩, -⟩ := hp
  exact ⟨⟨s, word, rfl, rfl, hword⟩, rfl⟩

theorem voidReturnType : Nonterminal.Spells .returnType [.keyword .void] := by
  apply empty.kept.map (fun p => TypeRef.mk .void (some p.1) 0)
  intro p hp
  obtain ⟨word, _⟩ := p
  obtain ⟨⟨hword, -⟩, -⟩ := hp
  refine ⟨Or.inl ⟨rfl, rfl, ?_⟩, rfl⟩
  rintro _ ⟨⟩
  exact hword

theorem noReturnType : Nonterminal.Spells .returnType [] :=
  nil (a := TypeRef.implicitVoid) (Or.inl ⟨rfl, rfl, by simp [TypeRef.implicitVoid]⟩) rfl

theorem furtherNames (n : Nat) :
    Spells (Phrase.furtherNames n) (fun ts : List Token => ∀ t ∈ ts, t.kind = .name)
      fun ts => ts.flatMap fun t => [.symbol .comma, .kept t] := by
  induction n with
  | zero => exact nil (a := []) (by simp) rfl
  | succ n ih =>
    apply Spells.map (fun p => p.1 :: p.2) ih.kept.symbol
    intro p hp
    obtain ⟨t, ts⟩ := p
    obtain ⟨⟨ht, -⟩, hts⟩ := hp
    exact ⟨List.forall_mem_cons.mpr ⟨ht, hts⟩, rfl⟩

/-- The part of a declaration behind its type. -/
theorem declared {dims more : Nat} {i : Phrase} (hi : Nonterminal.Spells (.initial dims) i) :
    Spells (.name :: (i ++ (Phrase.furtherNames more ++ [.symbol .semicolon])))
      (fun p : Token × Option Init × List Token => p.1.kind = .name ∧
        (∀ i ∈ p.2.1, i.HasDepth dims) ∧ ∀ t ∈ p.2.2, t.kind = .name)
      fun p => unparseNames (p.2.1.elim [] fun i => .symbol .assign :: i.unparse)
        (p.1 :: p.2.2) ++ [.symbol .semicolon] := by
  have hothers := (furtherNames more).before (s := .semicolon)
  apply (append hi hothers).kept.map id
  intro p hp
  obtain ⟨first, init, others⟩ := p
  obtain ⟨⟨hfirst, -⟩, hinit, hothers⟩ := hp
  exact ⟨⟨hfirst, hinit, hothers⟩, by simp [unparseNames]⟩

theorem scalarDeclaration (s : Scalar) (more : Nat) {i : Phrase}
    (hi : Nonterminal.Spells (.initial 0) i) :
    Nonterminal.Spells .declaration (.keyword (.scalar s) :: .name ::
      (i ++ (Phrase.furtherNames more ++ [.symbol .semicolon]))) := by
  refine (declared hi).kept.map (fun p =>
    Decl.mk ⟨.scalar s, some p.1, 0⟩ [] (p.2.1 :: p.2.2.2) p.2.2.1) ?_
  intro p hp
  obtain ⟨word, first, init, others⟩ := p
  obtain ⟨⟨hword, -⟩, hfirst, hinit, hothers⟩ := hp
  refine ⟨⟨⟨s, word, rfl, rfl, hword⟩, rfl, by simp, ⟨List.cons_ne_nil _ _, ?_⟩, hinit⟩, rfl⟩
  exact List.forall_mem_cons.mpr ⟨hfirst, hothers⟩

theorem arrayDeclaration (s : Scalar) (more : Nat) {i : Phrase} (hne : ws ≠ [])
    (hsizes : ∀ w ∈ ws, Nonterminal.Spells .expression w)
    (hi : Nonterminal.Spells (.initial ws.length) i) :
    Nonterminal.Spells .declaration (.keyword .array :: .keyword (.scalar s) ::
      (ws.flatMap Phrase.bracketed ++ .name ::
        (i ++ (Phrase.furtherNames more ++ [.symbol .semicolon])))) := by
  refine ((indexed hsizes).append (declared hi)).kept.keyword.map (fun p =>
    Decl.mk ⟨.scalar s, some p.1, ws.length⟩ p.2.1 (p.2.2.1 :: p.2.2.2.2) p.2.2.2.1) ?_
  intro p hp
  obtain ⟨word, dims, first, init, others⟩ := p
  obtain ⟨⟨hword, -⟩, ⟨hlength, hdims⟩, hfirst, hinit, hothers⟩ := hp
  refine ⟨⟨⟨s, word, rfl, rfl, hword⟩, hlength.symm, hdims, ⟨List.cons_ne_nil _ _, ?_⟩, ?_⟩, ?_⟩
  · exact List.forall_mem_cons.mpr ⟨hfirst, hothers⟩
  · exact fun i hi => hlength ▸ hinit i hi
  · cases ws with
    | nil => exact absurd rfl hne
    | cons w ws => simp [Decl.unparse, Slot.arrayWord]

theorem bracesInitializer {dims : Nat} (hne : ws ≠ [])
    (h : ∀ w ∈ ws, Nonterminal.Spells (.initializer dims) w) :
    Nonterminal.Spells (.initializer (dims + 1)) (Phrase.braced (Phrase.commas ws)) := by
  have hitems : Spells (Phrase.commas ws)
      (fun is : List Init => is.length = ws.length ∧ ∀ i ∈ is, i.HasDepth dims)
      fun is => Slot.commas (is.map Init.unparse) := commas h
  apply hitems.braced.map Init.braces
  intro items hitems
  obtain ⟨hlength, hall⟩ := hitems
  refine ⟨⟨?_, hall⟩, Init.unparse_braces items⟩
  rintro rfl
  exact hne (List.length_eq_zero_iff.mp hlength.symm)

theorem block (h : ∀ w ∈ ws, Nonterminal.Spells .statement w) :
    Nonterminal.Spells .block ws.flatten :=
  (flatten h).map id fun body hbody => ⟨hbody, Stmt.unparses_eq_flatMap body⟩

theorem returnStatement (h : Nonterminal.Spells .expression w) :
    Nonterminal.Spells .statement (.keyword .return_ :: (w ++ [.symbol .semicolon])) :=
  (keyword (before h)).map Stmt.ret fun _ he => ⟨he, rfl⟩

theorem callStatement (h : Nonterminal.Spells .call w) :
    Nonterminal.Spells .outerStatement (w ++ [.symbol .semicolon]) :=
  (before h).map Stmt.call fun _ hc => ⟨⟨trivial, hc⟩, rfl⟩

/-- Calls and operations flow into targets in the same way. -/
theorem flow {good : α → Prop} {row : α → List Slot} (value : α → Expr)
    (hvalue : ∀ a, good a → (value a).WellFormed ∧ (value a).unparse = row a)
    (h : Spells w good row) (htarget : Nonterminal.Spells .target v) :
    Nonterminal.Spells .step (w ++ .symbol .assign :: v) := by
  apply (append h (symbol htarget)).map (fun p => Assign.mk (value p.1) p.2)
  intro p hp
  obtain ⟨a, t⟩ := p
  obtain ⟨ha, ht⟩ := hp
  exact ⟨⟨(hvalue a ha).1, ht⟩, by rw [Assign.unparse, (hvalue a ha).2]⟩

theorem callStep (hcall : Nonterminal.Spells .call w) (htarget : Nonterminal.Spells .target v) :
    Nonterminal.Spells .step (w ++ .symbol .assign :: v) :=
  flow Call.expr (fun _ hc => ⟨hc, rfl⟩) hcall htarget

theorem operationStep (hvalue : Nonterminal.Spells .operation w)
    (htarget : Nonterminal.Spells .target v) :
    Nonterminal.Spells .step (w ++ .symbol .assign :: v) :=
  flow id (fun _ he => ⟨he, rfl⟩) hvalue htarget

theorem stepStatement (h : Nonterminal.Spells .step (w ++ .symbol .assign :: v)) :
    Nonterminal.Spells .outerStatement (w ++ .symbol .assign :: (v ++ [.symbol .semicolon])) := by
  have hstatement : Nonterminal.Spells .outerStatement
      ((w ++ .symbol .assign :: v) ++ [.symbol .semicolon]) :=
    (before h).map Stmt.assign fun _ ha => ⟨⟨trivial, ha⟩, rfl⟩
  rwa [List.append_assoc] at hstatement

theorem arm {c : Phrase} (hc : Nonterminal.Spells .condition c)
    (hb : Nonterminal.Spells .block b) :
    Nonterminal.Spells .arm (Phrase.grouped c ++ Phrase.braced b) :=
  (append (grouped hc) (braced hb)).map id fun _ harm => ⟨harm, rfl⟩

theorem noOtherwise : Nonterminal.Spells .otherwise [] := nil (a := none) (by simp) rfl

theorem someOtherwise (hb : Nonterminal.Spells .block b) :
    Nonterminal.Spells .otherwise (.keyword .else_ :: Phrase.braced b) :=
  (keyword (braced hb)).map some fun _ hbody => ⟨by simpa using hbody, rfl⟩

theorem ifStatement (hfirst : Nonterminal.Spells .arm w)
    (hothers : ∀ w ∈ ws, Nonterminal.Spells .arm w) (hlast : Nonterminal.Spells .otherwise v) :
    Nonterminal.Spells .outerStatement (.keyword .if_ ::
      (w ++ (ws.flatMap (fun w => .keyword .or_ :: .keyword .if_ :: w) ++ v))) := by
  have harms := flatMap (f := fun w => .keyword .or_ :: .keyword .if_ :: w)
    fun w hw => keyword (keyword (hothers w hw))
  refine (keyword (append hfirst (append harms hlast))).map
    (fun p => Stmt.branch p.1.1 p.1.2 (.ofArms p.2.1 p.2.2)) ?_
  intro p hp
  obtain ⟨⟨condition, body⟩, arms, last⟩ := p
  obtain ⟨⟨hcondition, hbody⟩, ⟨-, harms⟩, hlast⟩ := hp
  refine ⟨⟨trivial, hcondition, Stmt.allWellFormed_iff.mpr hbody,
    Tail.wellFormed_ofArms.mpr ⟨harms, hlast⟩⟩, ?_⟩
  rw [Stmt.unparse, Tail.unparse_ofArms]

theorem rangeStatement (hstart : Nonterminal.Spells .expression w)
    (hstop : Nonterminal.Spells .expression v) (hb : Nonterminal.Spells .block b) :
    Nonterminal.Spells .outerStatement
      (.keyword .for_ :: .symbol .leftParen :: .name :: .keyword .moves :: .keyword .from_ ::
        (w ++ .keyword .to_ :: (v ++ .symbol .rightParen :: Phrase.braced b))) := by
  have hbounds := append hstart (keyword (k := .to_)
    (append hstop (symbol (s := .rightParen) (braced hb))))
  refine hbounds.keyword.keyword.kept.symbol.keyword.map
    (fun p => Stmt.rangeLoop p.1 p.2.1 p.2.2.1 p.2.2.2) ?_
  intro p hp
  obtain ⟨var, start, stop, body⟩ := p
  obtain ⟨⟨hvar, -⟩, hstart, hstop, hbody⟩ := hp
  exact ⟨⟨trivial, hvar, hstart, hstop, Stmt.allWellFormed_iff.mpr hbody⟩, rfl⟩

theorem stepStatementLoop {d c s : Phrase} (hinit : Nonterminal.Spells .declaration d)
    (hcondition : Nonterminal.Spells .condition c) (hstep : Nonterminal.Spells .step s)
    (hb : Nonterminal.Spells .block b) :
    Nonterminal.Spells .outerStatement (.keyword .for_ :: .symbol .leftParen ::
      (d ++ (c ++ .symbol .semicolon :: (s ++ .symbol .rightParen :: Phrase.braced b)))) := by
  have hheader := append hcondition (symbol (s := .semicolon)
    (append hstep (symbol (s := .rightParen) (braced hb))))
  refine (append hinit hheader).symbol.keyword.map
    (fun p => Stmt.stepLoop p.1 p.2.1 p.2.2.1 p.2.2.2) ?_
  intro p hp
  obtain ⟨init, condition, step, body⟩ := p
  obtain ⟨hinit, hcondition, hstep, hbody⟩ := hp
  exact ⟨⟨trivial, hinit, hcondition, hstep, Stmt.allWellFormed_iff.mpr hbody⟩, rfl⟩

theorem whileStatement (h : Nonterminal.Spells .arm w) :
    Nonterminal.Spells .outerStatement (.keyword .while_ :: w) := by
  apply (keyword h).map (fun arm => Stmt.whileLoop arm.1 arm.2)
  intro p hp
  obtain ⟨condition, body⟩ := p
  obtain ⟨hcondition, hbody⟩ := hp
  exact ⟨⟨trivial, hcondition, Stmt.allWellFormed_iff.mpr hbody⟩, rfl⟩

theorem parameter (h : Nonterminal.Spells .type w) :
    Nonterminal.Spells .parameter (w ++ [.name]) := by
  apply (append h empty.kept).map (fun p => Param.mk p.2.1 p.1)
  intro p hp
  obtain ⟨type, name, _⟩ := p
  obtain ⟨htype, ⟨hname, -⟩, -⟩ := hp
  exact ⟨⟨hname, htype⟩, rfl⟩

theorem function {r : Phrase} (hr : Nonterminal.Spells .returnType r)
    (hparams : ∀ w ∈ ws, Nonterminal.Spells .parameter w) (hb : Nonterminal.Spells .block b) :
    Nonterminal.Spells .function (.keyword .func ::
      (r ++ .name :: (Phrase.grouped (Phrase.commas ws) ++ Phrase.braced b))) := by
  have hlist : Spells (Phrase.commas ws)
      (fun ps : List Param => ps.length = ws.length ∧ ∀ p ∈ ps, p.WellFormed)
      fun ps => Slot.commas (ps.map Param.unparse) := commas hparams
  refine (append hr (append hlist.grouped (braced hb)).kept).keyword.map
    (fun p => Func.mk p.2.1 p.2.2.1 p.1 p.2.2.2) ?_
  intro p hp
  obtain ⟨returns, name, params, body⟩ := p
  obtain ⟨hreturns, ⟨hname, -⟩, ⟨-, hall⟩, hbody⟩ := hp
  exact ⟨⟨hname, hall, hreturns, hbody⟩, rfl⟩

end Spells

/-- By induction on the derivation: each production spells the trees of its nonterminal if its
parts spell the trees of theirs. -/
theorem Derives.spells {n : Nonterminal} {w : Phrase} (h : Derives n w) : n.Spells w := by
  induction h with
  | program _ ih => exact (Spells.flatten ih).map Program.mk fun _ h => ⟨h, rfl⟩
  | functionItem _ ih => exact Spells.map Item.func ih fun _ h => ⟨h, rfl⟩
  | declarationItem _ ih => exact Spells.map Item.declare ih fun _ h => ⟨h, rfl⟩
  | statementItem _ ih => exact Spells.map Item.stmt ih fun _ h => ⟨h, rfl⟩
  | function _ _ _ hr hparams hb => exact Spells.function hr hparams hb
  | noReturnType => exact Spells.noReturnType
  | voidReturnType => exact Spells.voidReturnType
  | valueReturnType _ ih => exact Spells.map id ih fun _ h => ⟨Or.inr h, rfl⟩
  | parameter _ ih => exact Spells.parameter ih
  | scalarType s => exact Spells.scalarType s
  | arrayType s n => exact Spells.arrayType s n
  | scalarDeclaration s more _ ih => exact Spells.scalarDeclaration s more ih
  | arrayDeclaration s more hne _ _ hsizes ih => exact Spells.arrayDeclaration s more hne hsizes ih
  | noInitial dims => exact Spells.nil (a := none) (by simp) rfl
  | someInitial _ ih =>
    exact (Spells.symbol ih).map some fun _ h => ⟨by simpa using h, rfl⟩
  | valueInitializer _ ih => exact Spells.map Init.value ih fun _ h => ⟨h, rfl⟩
  | bracesInitializer hne _ ih => exact Spells.bracesInitializer hne ih
  | block _ ih => exact Spells.block ih
  | declarationStatement _ ih => exact Spells.map Stmt.declare ih fun _ h => ⟨h, rfl⟩
  | returnStatement _ ih => exact Spells.returnStatement ih
  | outerStatement _ ih => exact Spells.map id ih fun _ h => ⟨h.2, rfl⟩
  | callStatement _ ih => exact Spells.callStatement ih
  | callAssignStatement _ _ hcall ht => exact Spells.stepStatement (Spells.callStep hcall ht)
  | assignStatement _ _ hvalue ht => exact Spells.stepStatement (Spells.operationStep hvalue ht)
  | ifStatement _ _ _ hfirst hothers hlast => exact Spells.ifStatement hfirst hothers hlast
  | rangeStatement _ _ _ hstart hstop hb => exact Spells.rangeStatement hstart hstop hb
  | stepStatement _ _ _ _ hinit hc hs hb => exact Spells.stepStatementLoop hinit hc hs hb
  | whileStatement _ ih => exact Spells.whileStatement ih
  | arm _ _ hc hb => exact Spells.arm hc hb
  | noOtherwise => exact Spells.noOtherwise
  | someOtherwise _ ih => exact Spells.someOtherwise ih
  | callStep _ _ hcall ht => exact Spells.callStep hcall ht
  | operationStep _ _ hvalue ht => exact Spells.operationStep hvalue ht
  | condition hop _ _ hleft hright => exact Spells.condition hop hleft hright
  | callExpression _ ih => exact Spells.map Call.expr ih fun _ h => ⟨h, rfl⟩
  | operationExpression _ ih => exact ih
  | atomOperation _ ih => exact Spells.map id ih fun _ h => ⟨h.2, rfl⟩
  | binaryOperation hop _ _ hleft hright => exact Spells.binaryOperation hop hleft hright
  | numberAtom => exact Spells.numberAtom
  | nameAtom _ ih => exact Spells.nameAtom ih
  | groupAtom _ ih => exact (Spells.grouped ih).map Expr.group fun _ h => ⟨⟨trivial, h⟩, rfl⟩
  | call _ ih => exact Spells.call ih
  | target _ ih => exact Spells.target ih

end Jam
