import Jam.Proofs.Grammar.Takes

/-!
The rules for expressions and declarations take whatever fits a well-formed tree, and give the
tree back. An expression would go on only with an arithmetic operator or with an index.
-/
namespace Jam.Grammar

open Jam.Parser
open Slot (bracketed grouped braced commas)

/-- The kinds with which an expression goes on. -/
def goesOn : KindClass := fun k => KindClass.arithmetic k || KindClass.symbol .leftBracket k

theorem eq_false_of_goesOn {k : TokenKind} (h : goesOn k = false) :
    KindClass.arithmetic k = false ∧ KindClass.symbol .leftBracket k = false := by
  simpa [goesOn] using h

theorem not_goesOn_of_relational {k : TokenKind} (h : KindClass.relational k = true) :
    goesOn k = false := by
  cases k with
  | symbol s => cases s <;> first | rfl | cases h
  | _ => cases h

theorem eq_of_expressionStarts {k : TokenKind} (h : expressionStarts k = true) :
    k = .number ∨ k = .name ∨ k = .symbol .leftParen ∨ k = .keyword .call := by
  rcases Bool.or_eq_true_iff.mp h with h | h
  · have := eq_of_operationStarts h
    tauto
  · exact Or.inr (Or.inr (Or.inr (beq_iff_eq.mp h)))

theorem bars_expression {e : Expr} (he : e.WellFormed) {s : KindClass}
    (hs : ∀ kind, expressionStarts kind = true → s kind = false) : Bars s e.unparse never :=
  .of_startsIn (fun _ => Expr.startsIn he) hs

section

variable {nested : Parser Expr}

theorem takes_indicesWith (hk : Keeps nested) {es : List Expr}
    (h : ∀ e ∈ es, Takes nested goesOn e e.unparse) :
    Takes (indicesWith nested) (.symbol .leftBracket) es
      (es.flatMap fun e => bracketed e.unparse) := by
  refine .manyLed (s := never) (keeps_indexWith hk) (beq_self_eq_true _) rfl ?_
    fun kind hkind => ⟨rfl, hkind⟩
  intro e he
  exact (h e he).bind (.symbol_bind fun _ => .pure) (.cons rfl)

theorem takes_callWith (hk : Shrinks nested) {c : Call} (hc : c.WellFormed)
    (h : ∀ e ∈ c.args, Takes nested goesOn e e.unparse) :
    Takes (callWith nested) never c c.unparse := by
  obtain ⟨hword, hcallee, hargs⟩ := hc
  rw [Expr.allWellFormed_iff] at hargs
  rw [Call.unparse, Call.expr, Expr.unparse_call]
  refine .kept_bind (beq_iff_eq.mpr hword) (.name_bind hcallee (.symbol_bind fun _ => ?_))
  refine .listUntil_bind hk rfl rfl (by decide) h ?_ (.symbol_bind fun _ => .pure)
  intro e he
  refine bars_expression (hargs e he) fun kind hkind => ?_
  rcases eq_of_expressionStarts hkind with rfl | rfl | rfl | rfl <;> rfl

/-- What an operand is made of is nested in it. -/
def TakesParts (nested : Parser Expr) : Expr → Prop
  | .element _ indices => ∀ e ∈ indices, Takes nested goesOn e e.unparse
  | .group inner => Takes nested goesOn inner inner.unparse
  | .call _ _ args => ∀ e ∈ args, Takes nested goesOn e e.unparse
  | _ => True

theorem takes_atomWith (hk : Keeps nested) {e : Expr} (ho : e.IsOperand) (he : e.WellFormed)
    (h : TakesParts nested e) : Takes (atomWith nested) (.symbol .leftBracket) e e.unparse := by
  cases e with
  | literal t value =>
    refine .take_bind (beq_iff_eq.mpr he.1) ?_
    rintro t rfl
    simp only [he.2]
    exact .pure
  | name t =>
    have ht : t.kind = .name := he
    refine .take_bind_of_bars (.cons (by rw [Slot.kind, ht]; rfl))
      (.take_bind (beq_iff_eq.mpr ht) ?_)
    rintro t rfl
    have hindices : Takes (indicesWith nested) (.symbol .leftBracket) [] [] :=
      takes_indicesWith hk (by simp)
    exact hindices.bind_pure
  | element t indices =>
    obtain ⟨ht, hne, -⟩ := he
    rw [Expr.unparse_element]
    refine .take_bind_of_bars (.cons (by rw [Slot.kind, ht]; rfl))
      (.take_bind (beq_iff_eq.mpr ht) ?_)
    rintro t rfl
    have hindices := (takes_indicesWith hk h).bind_pure
      (g := fun indices => if indices.isEmpty then Expr.name t else .element t indices)
    simpa only [List.isEmpty_iff, if_neg hne] using hindices
  | group inner =>
    refine .take_bind_of_bars (.cons rfl) (.take_bind_of_bars (.cons rfl)
      (.take_bind rfl fun _ _ => ?_))
    exact Takes.bind h (.symbol_bind fun _ => .pure) (.cons rfl)
  | call word callee args => exact ho.elim
  | binary left op right => exact ho.elim

theorem takes_operationWith_operand {e : Expr}
    (h : Takes (atomWith nested) (.symbol .leftBracket) e e.unparse) :
    Takes (operationWith nested) goesOn e e.unparse := by
  rw [← List.append_nil e.unparse]
  refine h.bind (.take_bind_of_bars (.nil fun kind hkind => ?_) .pure) (.nil fun kind hkind => ?_)
  · exact (eq_false_of_goesOn hkind).1
  · exact (eq_false_of_goesOn hkind).2

theorem takes_operationWith_binary {left right : Expr} {op : Token}
    (hop : KindClass.arithmetic op.kind = true)
    (hleft : Takes (atomWith nested) (.symbol .leftBracket) left left.unparse)
    (hright : Takes (atomWith nested) (.symbol .leftBracket) right right.unparse) :
    Takes (operationWith nested) goesOn (.binary left op right)
      (Expr.binary left op right).unparse := by
  refine hleft.bind (.take_bind hop ?_) (.cons (beq_eq_false_of_lacks rfl hop))
  rintro op rfl
  rw [← List.append_nil right.unparse]
  refine hright.bind (.nextIn_bind_of_bars (.nil fun kind hkind => ?_) .pure)
    (.nil fun kind hkind => ?_)
  · exact (eq_false_of_goesOn hkind).1
  · exact (eq_false_of_goesOn hkind).2

theorem takes_expressionWith_operation {e : Expr} (hc : ¬ e.IsCall) (he : e.WellFormed)
    (h : Takes (operationWith nested) goesOn e e.unparse) :
    Takes (expressionWith nested) goesOn e e.unparse :=
  .nextIn_bind_of_bars (Bars.of_startsIn (fun _ => Expr.startsIn_of_not_isCall hc he)
    fun _ => beq_eq_false_of_lacks rfl).of_never h

theorem takes_expressionWith_call {c : Call} (hc : c.WellFormed)
    (h : Takes (callWith nested) never c c.unparse) :
    Takes (expressionWith nested) goesOn c.expr c.unparse := by
  have hcall : Takes (callWith nested >>= fun call => do
      if ← nextIn .arithmetic then fail .callOperand else return call.expr) goesOn c.expr
      c.unparse := by
    rw [← List.append_nil c.unparse]
    refine h.bind (.nextIn_bind_of_bars (.nil fun kind hkind => ?_) .pure) (.nil fun _ _ => rfl)
    exact (eq_false_of_goesOn hkind).1
  exact .nextIn_bind (c := true) (beq_iff_eq.mpr hc.1) hcall

end

theorem takes_expression_and_atom (e : Expr) (he : e.WellFormed) :
    Takes expression goesOn e e.unparse ∧
      (e.IsOperand → Takes (atomWith expression) (.symbol .leftBracket) e e.unparse) := by
  have hk : Shrinks expression := shrinks_expression
  -- An operand stands alone as well as beside an operator.
  have hoperand : ∀ e : Expr, e.IsOperand → e.WellFormed → TakesParts expression e →
      Takes expression goesOn e e.unparse ∧
        (e.IsOperand → Takes (atomWith expression) (.symbol .leftBracket) e e.unparse) := by
    intro e ho he hparts
    have hatom := takes_atomWith hk.keeps ho he hparts
    have hc : ¬ e.IsCall := by
      cases e <;> simp_all [Expr.IsCall, Expr.IsOperand]
    refine ⟨?_, fun _ => hatom⟩
    rw [expression_eq]
    exact takes_expressionWith_operation hc he (takes_operationWith_operand hatom)
  induction e using Expr.induction with
  | literal t value => exact hoperand _ trivial he trivial
  | name t => exact hoperand _ trivial he trivial
  | element t indices ih =>
    refine hoperand _ trivial he fun e hmem => (ih e hmem ?_).1
    exact Expr.allWellFormed_iff.mp he.2.2 e hmem
  | group inner ih => exact hoperand _ trivial he (ih he).1
  | call word callee args ih =>
    refine ⟨?_, fun ho => ho.elim⟩
    have hargs : ∀ e ∈ args, Takes expression goesOn e e.unparse := by
      intro e hmem
      exact (ih e hmem (Expr.allWellFormed_iff.mp he.2.2 e hmem)).1
    rw [expression_eq]
    exact takes_expressionWith_call (c := ⟨word, callee, args⟩) he (takes_callWith hk he hargs)
  | binary left op right ihleft ihright =>
    obtain ⟨hop, ⟨hl, hleft⟩, hr, hright⟩ := he
    refine ⟨?_, fun ho => ho.elim⟩
    rw [expression_eq]
    refine takes_expressionWith_operation id ⟨hop, ⟨hl, hleft⟩, hr, hright⟩ ?_
    exact takes_operationWith_binary hop ((ihleft hleft).2 hl) ((ihright hright).2 hr)

theorem takes_expression {e : Expr} (he : e.WellFormed) : Takes expression goesOn e e.unparse :=
  (takes_expression_and_atom e he).1

theorem takes_atom {e : Expr} (ho : e.IsOperand) (he : e.WellFormed) :
    Takes (atomWith expression) (.symbol .leftBracket) e e.unparse :=
  (takes_expression_and_atom e he).2 ho

theorem takes_indices {es : List Expr} (hes : ∀ e ∈ es, e.WellFormed) :
    Takes indices (.symbol .leftBracket) es (es.flatMap fun e => bracketed e.unparse) :=
  takes_indicesWith shrinks_expression.keeps fun e he => takes_expression (hes e he)

theorem takes_call {c : Call} (hc : c.WellFormed) : Takes call never c c.unparse :=
  takes_callWith shrinks_expression hc fun e he =>
    takes_expression (Expr.allWellFormed_iff.mp hc.2.2 e he)

theorem takes_operation {e : Expr} (hc : ¬ e.IsCall) (he : e.WellFormed) :
    Takes operation goesOn e e.unparse := by
  cases e with
  | call word callee args => exact absurd trivial hc
  | binary left op right =>
    obtain ⟨hop, ⟨hl, hleft⟩, hr, hright⟩ := he
    exact takes_operationWith_binary hop (takes_atom hl hleft) (takes_atom hr hright)
  | _ => exact takes_operationWith_operand (takes_atom trivial he)

theorem takes_condition {e : Expr} (he : e.IsCondition) :
    Takes condition goesOn e e.unparse := by
  cases e with
  | binary left op right =>
    obtain ⟨hop, hleft, hright⟩ := he
    exact (takes_expression hleft).bind (.kept_bind hop (takes_expression hright).bind_pure)
      (.cons (not_goesOn_of_relational hop))
  | _ => exact he.elim

theorem takes_arrayOrScalar {α : Type} {part : Parser α} {inner : α → List Slot} {parts : List α}
    {word : Token} {s : Scalar} (hk : Shrinks part) (hword : word.kind = .keyword (.scalar s))
    (h : ∀ a ∈ parts, Takes part never a (.symbol .leftBracket :: inner a)) :
    Takes (arrayOrScalar part) (.symbol .leftBracket) (word, parts)
      (Slot.arrayWord parts.length ++ .kept word ::
        parts.flatMap fun a => .symbol .leftBracket :: inner a) := by
  have hscalar : scalarWords word.kind = true := by rw [hword]; rfl
  cases parts with
  | nil =>
    refine .take_bind_of_bars (.cons ?_) (.kept_bind hscalar .pure)
    rw [Slot.kind, hword]
    rfl
  | cons first others =>
    refine .take_bind rfl fun _ _ => .kept_bind hscalar ?_
    refine (Takes.oneOrMore hk (List.cons_ne_nil _ _) ?_ (fun _ _ => .cons rfl) h ?_).bind_pure
    · exact fun _ _ _ hw => hw.startsIn rfl
    · exact fun _ hkind => ⟨rfl, hkind⟩

/-- The tokens that close the brackets of a type are all that reading them gives. -/
theorem exists_closing {n : Nat} {w : List Token}
    (hw : Fits (List.replicate n (bracketed [])).flatten w) :
    ∃ ts : List Token, ts.length = n ∧ (∀ t ∈ ts, t.kind = .symbol .rightBracket) ∧
      Fits (ts.flatMap fun t => [.symbol .leftBracket, .kept t]) w := by
  induction n generalizing w with
  | zero => exact ⟨[], rfl, by simp, hw⟩
  | succ n ih =>
    rw [List.replicate_succ, List.flatten_cons] at hw
    obtain ⟨u, v, rfl, hu, hv⟩ := Fits.append_iff.mp hw
    obtain ⟨l, u, rfl, hl, hu⟩ := Fits.cons_iff.mp hu
    obtain ⟨r, u, rfl, hr, hu⟩ := Fits.cons_iff.mp hu
    obtain rfl := Fits.nil_iff.mp hu
    obtain ⟨ts, rfl, hts, hfits⟩ := ih hv
    exact ⟨r :: ts, rfl, List.forall_mem_cons.mpr ⟨hr, hts⟩, .symbol hl (hfits.kept r)⟩

theorem takes_typeRef {t : TypeRef} (ht : t.IsOfValue) :
    Takes typeRef (.symbol .leftBracket) t t.unparse := by
  obtain ⟨kind, word?, rank⟩ := t
  obtain ⟨s, word, rfl, rfl, hword⟩ := ht
  intro w rest hw hrest
  obtain ⟨u, v, rfl, hu, hv⟩ := Fits.append_iff.mp hw
  obtain ⟨ts, rfl, hts, hfits⟩ := exists_closing hv
  have hpart : ∀ t ∈ ts, Takes (do
      let _ ← Parser.symbol .leftBracket .arrayBracket
      Parser.symbol .rightBracket .arrayTypeBracketEnd) never t
      [.symbol .leftBracket, .kept t] := fun t ht =>
    .symbol_bind fun _ => .kept (beq_iff_eq.mpr (hts t ht))
  have h := (takes_arrayOrScalar shrinks_brackets hword hpart).bind_pure
    (g := fun r => (⟨typeKind r.1.kind, some r.1, r.2.length⟩ : TypeRef))
  rw [hword] at h
  refine h _ rest ?_ hrest
  have hrow := hu.append hfits
  rw [List.append_assoc] at hrow
  exact hrow

theorem takes_initializer {dims : Nat} {i : Init} (hi : i.HasDepth dims) :
    Takes (initializer dims) goesOn i i.unparse := by
  induction dims generalizing i with
  | zero =>
    cases i with
    | value e => exact (takes_expression hi).bind_pure
    | braces items => exact hi.elim
  | succ dims ih =>
    cases i with
    | value e => exact hi.elim
    | braces items =>
      obtain ⟨hne, hitems⟩ := hi
      rw [Init.unparse_braces]
      have hlist : Takes (commaSeparated (initializer dims))
          (fun k => goesOn k || k == .symbol .comma) items (commas (items.map Init.unparse)) := by
        refine .commaSeparated (shrinks_initializer dims) rfl hne
          (fun i hmem => ih (hitems i hmem)) ?_
        intro kind hkind
        simpa using hkind
      exact .symbol_bind fun _ => hlist.bind (.symbol_bind fun _ => .pure) (.cons rfl)

theorem takes_declaration {d : Decl} (hd : d.WellFormed) :
    Takes declaration never d d.unparse := by
  obtain ⟨⟨kind, word?, rank⟩, dims, names, init⟩ := d
  obtain ⟨⟨s, word, rfl, rfl, hword⟩, hrank, hdims, ⟨hne, hnames⟩, hinit⟩ := hd
  obtain rfl : rank = dims.length := hrank
  cases names with
  | nil => exact absurd rfl hne
  | cons first others =>
    obtain ⟨hfirst, hothers⟩ := List.forall_mem_cons.mp hnames
    have hparts : ∀ e ∈ dims, Takes (do
        let _ ← Parser.symbol .leftBracket .arrayBracket
        let size ← expression
        let _ ← Parser.symbol .rightBracket .dimensionEnd
        return size) never e (bracketed e.unparse) := fun e he =>
      .symbol_bind fun _ => (takes_expression (hdims e he)).bind
        (.symbol_bind fun _ => .pure) (.cons rfl)
    have hled : Takes (led (.symbol .assign) (initializer dims.length))
        (fun k => goesOn k || k == .symbol .assign) init
        (init.elim [] fun i => .symbol .assign :: i.unparse) := by
      refine .led (beq_self_eq_true _) (fun kind hkind => ?_) fun i hi => ?_
      · exact (Bool.or_eq_false_iff.mp hkind).2
      · exact (takes_initializer (hinit i hi)).mono fun kind hkind =>
          (Bool.or_eq_false_iff.mp hkind).1
    have hnames : Takes (many (led (.symbol .comma) (name .furtherVariableName)))
        (.symbol .comma) others (others.flatMap fun t => [.symbol .comma, .kept t]) :=
      .manyLed (s := never) (shrinks_expect _ _).keeps (beq_self_eq_true _) rfl
        (fun t ht => .kept (beq_iff_eq.mpr (hothers t ht))) fun _ hkind => ⟨rfl, hkind⟩
    have hkind : typeKind word.kind = .scalar s := congrArg typeKind hword
    have hrow : Decl.unparse ⟨⟨.scalar s, some word, dims.length⟩, dims, first :: others, init⟩ =
        (Slot.arrayWord dims.length ++ .kept word :: dims.flatMap fun e => bracketed e.unparse) ++
          .kept first :: ((init.elim [] fun i => .symbol .assign :: i.unparse) ++
            (others.flatMap (fun t => [.symbol .comma, .kept t]) ++ [.symbol .semicolon])) := by
      simp [Decl.unparse, unparseNames]
    rw [hrow, ← hkind]
    refine (takes_arrayOrScalar shrinks_dimension hword hparts).bind (.name_bind hfirst
      (hled.bind (hnames.bind (.symbol_bind fun _ => .pure) (.cons rfl)) ?_)) (.cons ?_)
    · exact (Bars.flatMap (fun _ _ => .cons rfl) fun _ hkind => hkind).append (.cons rfl)
    · exact beq_eq_false_iff_ne.mpr (by rw [Slot.kind, hfirst]; decide)

end Jam.Grammar
