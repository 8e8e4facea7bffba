import Jam.Proofs.Tree.Faded

/-!
Two programs that were read have the same listing exactly when they are the same apart from what a
listing leaves out. The text tells the outline of a program, because no token that was read within
a line has a line feed in it; and the outline tells the program, from the root down.
-/
namespace Jam

open Text

section Pairs

variable {text text' : List Char}

/-- The outline of a statement tells it apart from the statements of another text, as far as it is
shown. -/
def Stmt.Shown (text text' : List Char) (s : Stmt) : Prop :=
  ∀ s' : Stmt, (Node.stmt s).ReadFrom text → (Node.stmt s').ReadFrom text' →
    (s.outline = s'.outline ↔ s.relabel Token.faded = s'.relabel Token.faded)

theorem Stmt.map_outline_eq_iff {body body' : List Stmt} (ih : ∀ s ∈ body, s.Shown text text')
    (h : ∀ s ∈ body, (Node.stmt s).ReadFrom text)
    (h' : ∀ s ∈ body', (Node.stmt s).ReadFrom text') :
    body.map outline = body'.map outline ↔
      body.map (relabel Token.faded) = body'.map (relabel Token.faded) :=
  map_eq_map_iff_of_forall fun s hs s' hs' => ih s hs s' (h s hs) (h' s' hs')

theorem armOutline_eq_iff (heading : Heading) {condition condition' : Expr}
    {body body' : List Stmt} (ih : ∀ s ∈ body, s.Shown text text')
    (h : (Node.condition condition).ReadFrom text)
    (h' : (Node.condition condition').ReadFrom text')
    (hbody : ∀ s ∈ body, (Node.stmt s).ReadFrom text)
    (hbody' : ∀ s ∈ body', (Node.stmt s).ReadFrom text') :
    armOutline heading condition (body.map Stmt.outline) =
        armOutline heading condition' (body'.map Stmt.outline) ↔
      condition.relabel Token.faded = condition'.relabel Token.faded ∧
        body.map (Stmt.relabel Token.faded) = body'.map (Stmt.relabel Token.faded) := by
  simp only [armOutline, Outline.node.injEq, List.cons.injEq, true_and, and_true,
    Expr.outline_eq_iff_of_condition h h', Stmt.map_outline_eq_iff ih hbody hbody']

/-- The outlines of a tail are those of its arms and of its last block, which have headings of
their own. -/
theorem Tail.outlines_eq_iff {t t' : Tail}
    (iharms : ∀ arm ∈ t.arms, ∀ s ∈ arm.2, s.Shown text text')
    (ihlast : ∀ body ∈ t.last, ∀ s ∈ body, s.Shown text text') (h : (Node.tail t).ReadFrom text)
    (h' : (Node.tail t').ReadFrom text') :
    t.outlines = t'.outlines ↔ t.relabel Token.faded = t'.relabel Token.faded := by
  cases t with
  | nothing => cases t' <;> simp [outlines, relabel]
  | otherwise body =>
    cases t' with
    | nothing => simp [outlines, relabel]
    | otherwise body' =>
      have hbody := Stmt.map_outline_eq_iff (ihlast body rfl) (h.tail.2 body rfl)
        (h'.tail.2 body' rfl)
      simp only [outlines, relabel, Stmt.outlines_eq_map, Stmt.relabelAll_eq_map, List.cons.injEq,
        Outline.node.injEq, Tail.otherwise.injEq, true_and, and_true, hbody]
    | orIf condition' body' rest' => simp [outlines, relabel, armOutline]
  | orIf condition body rest =>
    cases t' with
    | nothing => simp [outlines, relabel]
    | otherwise body' => simp [outlines, relabel, armOutline]
    | orIf condition' body' rest' =>
      rw [arms, List.forall_mem_cons] at iharms
      obtain ⟨harms, -⟩ := h.tail
      obtain ⟨harms', -⟩ := h'.tail
      rw [arms, List.forall_mem_cons] at harms harms'
      have hrest : (Node.tail rest).ReadFrom text := h.child (by simp [Node.children])
      have hrest' : (Node.tail rest').ReadFrom text' := h'.child (by simp [Node.children])
      have harm := armOutline_eq_iff .orIf iharms.1 harms.1.1 harms'.1.1 harms.1.2 harms'.1.2
      simp only [outlines, relabel, Stmt.outlines_eq_map, Stmt.relabelAll_eq_map, List.cons.injEq,
        Tail.orIf.injEq, harm, outlines_eq_iff iharms.2 ihlast hrest hrest', and_assoc]

/-- The label of a statement tells its sort, and its parts are told one by one. -/
theorem Stmt.shown (s : Stmt) : s.Shown text text' := by
  induction s using Stmt.induction with
  | declare d =>
    intro s' h h'
    cases s' with
    | declare d' =>
      have hd : (Node.decl d).ReadFrom text := h.child List.mem_cons_self
      have hd' : (Node.decl d').ReadFrom text' := h'.child List.mem_cons_self
      simp only [outline, relabel, Stmt.declare.injEq, Decl.outline_eq_iff hd hd']
    | _ => simp [outline, relabel, Decl.outline, Assign.outline]
  | ret value =>
    intro s' h h'
    cases s' with
    | ret value' =>
      have hvalue : (Node.value value).ReadFrom text := h.child List.mem_cons_self
      have hvalue' : (Node.value value').ReadFrom text' := h'.child List.mem_cons_self
      simp only [outline, relabel, Outline.node.injEq, List.cons.injEq, Stmt.ret.injEq, true_and,
        and_true, Expr.outline_eq_iff hvalue hvalue']
    | _ => simp [outline, relabel, Decl.outline, Assign.outline]
  | assign a =>
    intro s' h h'
    cases s' with
    | assign a' =>
      have ha : (Node.assign a).ReadFrom text := h.child List.mem_cons_self
      have ha' : (Node.assign a').ReadFrom text' := h'.child List.mem_cons_self
      simp only [outline, relabel, Stmt.assign.injEq, Assign.outline_eq_iff ha ha']
    | _ => simp [outline, relabel, Decl.outline, Assign.outline]
  | call c =>
    intro s' h h'
    cases s' with
    | call c' =>
      have hc : (Node.value c.expr).ReadFrom text := h.child List.mem_cons_self
      have hc' : (Node.value c'.expr).ReadFrom text' := h'.child List.mem_cons_self
      have hcall := Expr.outline_eq_iff hc hc'
      simp only [Call.expr, Expr.relabel, Expr.call.injEq, Expr.relabelAll_eq_map] at hcall
      simp only [outline, relabel, Call.expr, Call.relabel, Outline.node.injEq, List.cons.injEq,
        Stmt.call.injEq, Call.mk.injEq, true_and, and_true, hcall]
    | _ => simp [outline, relabel, Decl.outline, Assign.outline]
  | branch condition body tail ihbody iharms ihlast =>
    intro s' h h'
    cases s' with
    | branch condition' body' tail' =>
      have harm := armOutline_eq_iff .arm ihbody
        (h.child (m := .condition condition) (by simp [Node.children]))
        (h'.child (m := .condition condition') (by simp [Node.children]))
        (fun s hs => h.child (by simp [Node.children, hs]))
        (fun s (hs : s ∈ body') => h'.child (by simp [Node.children, hs]))
      have htail : tail.outlines = tail'.outlines ↔
          tail.relabel Token.faded = tail'.relabel Token.faded :=
        Tail.outlines_eq_iff iharms ihlast (h.child (by simp [Node.children]))
          (h'.child (by simp [Node.children]))
      simp only [outline, relabel, outlines_eq_map, relabelAll_eq_map, Outline.node.injEq,
        List.cons.injEq, Stmt.branch.injEq, true_and, harm, htail, and_assoc]
    | _ => simp [outline, relabel, Decl.outline, Assign.outline]
  | rangeLoop var start stop body ih =>
    intro s' h h'
    cases s' with
    | rangeLoop var' start' stop' body' =>
      have hvar : var.lexeme = var'.lexeme ↔ var.faded = var'.faded :=
        (h.token List.mem_cons_self).lexeme_eq_iff_of_name (h'.token List.mem_cons_self) h.obeys
          h'.obeys
      have hstart : start.outline = start'.outline ↔
          start.relabel Token.faded = start'.relabel Token.faded :=
        Expr.outline_eq_iff (h.child (by simp [Node.children]))
          (h'.child (by simp [Node.children]))
      have hstop : stop.outline = stop'.outline ↔
          stop.relabel Token.faded = stop'.relabel Token.faded :=
        Expr.outline_eq_iff (h.child (by simp [Node.children]))
          (h'.child (by simp [Node.children]))
      have hbody := map_outline_eq_iff ih
        (fun s hs => h.child (by simp [Node.children, hs]))
        (fun s (hs : s ∈ body') => h'.child (by simp [Node.children, hs]))
      simp only [outline, relabel, outlines_eq_map, relabelAll_eq_map, Outline.node.injEq,
        List.cons.injEq, Stmt.rangeLoop.injEq, Option.some.injEq, true_and, and_true, hvar, hstart,
        hstop, hbody]
    | _ => simp [outline, relabel, Decl.outline, Assign.outline]
  | stepLoop init condition step body ih =>
    intro s' h h'
    cases s' with
    | stepLoop init' condition' step' body' =>
      have hinit : init.outline = init'.outline ↔
          init.relabel Token.faded = init'.relabel Token.faded :=
        Decl.outline_eq_iff (h.child (by simp [Node.children]))
          (h'.child (by simp [Node.children]))
      have hcondition : condition.outline = condition'.outline ↔
          condition.relabel Token.faded = condition'.relabel Token.faded :=
        Expr.outline_eq_iff_of_condition (h.child (by simp [Node.children]))
          (h'.child (by simp [Node.children]))
      have hstep : step.outline = step'.outline ↔
          step.relabel Token.faded = step'.relabel Token.faded :=
        Assign.outline_eq_iff (h.child (by simp [Node.children]))
          (h'.child (by simp [Node.children]))
      have hbody := map_outline_eq_iff ih
        (fun s hs => h.child (by simp [Node.children, hs]))
        (fun s (hs : s ∈ body') => h'.child (by simp [Node.children, hs]))
      simp only [outline, relabel, outlines_eq_map, relabelAll_eq_map, Outline.node.injEq,
        List.cons.injEq, Stmt.stepLoop.injEq, true_and, and_true, hinit, hcondition, hstep, hbody]
    | _ => simp [outline, relabel, Decl.outline, Assign.outline]
  | whileLoop condition body ih =>
    intro s' h h'
    cases s' with
    | whileLoop condition' body' =>
      have hcondition : condition.outline = condition'.outline ↔
          condition.relabel Token.faded = condition'.relabel Token.faded :=
        Expr.outline_eq_iff_of_condition (h.child (by simp [Node.children]))
          (h'.child (by simp [Node.children]))
      have hbody := map_outline_eq_iff ih
        (fun s hs => h.child (by simp [Node.children, hs]))
        (fun s (hs : s ∈ body') => h'.child (by simp [Node.children, hs]))
      simp only [outline, relabel, outlines_eq_map, relabelAll_eq_map, Outline.node.injEq,
        List.cons.injEq, Stmt.whileLoop.injEq, true_and, and_true, hcondition, hbody]
    | _ => simp [outline, relabel, Decl.outline, Assign.outline]

theorem Stmt.outline_eq_iff {s s' : Stmt} (h : (Node.stmt s).ReadFrom text)
    (h' : (Node.stmt s').ReadFrom text') :
    s.outline = s'.outline ↔ s.relabel Token.faded = s'.relabel Token.faded :=
  s.shown s' h h'

/-- What stands before a separator in a detail that begins with a name. -/
theorem detail_eq_iff_of_name {t t' : Token} (ht : t.StandsIn text) (ht' : t'.StandsIn text')
    (hkind : t.kind = .name) (hkind' : t'.kind = .name) {sep : Char} {rest : List Char}
    {separator : String} (hseparator : separator.toList = sep :: rest)
    (hsep : isNamePart sep = false) (label label' : String) :
    t.lexeme ++ separator ++ label = t'.lexeme ++ separator ++ label' ↔
      t.faded = t'.faded ∧ label = label' := by
  rw [← ht.lexeme_eq_iff_of_name ht' hkind hkind']
  constructor
  · intro h
    have hlist := congrArg String.toList h
    simp only [String.toList_append, hseparator, List.append_assoc, List.cons_append] at hlist
    obtain ⟨hname, hrest⟩ := eq_of_append_cons_eq (ht.not_mem_of_name hkind hsep)
      (ht'.not_mem_of_name hkind' hsep) hlist
    exact ⟨String.toList_inj.mp hname, String.toList_inj.mp (List.append_cancel_left hrest)⟩
  · rintro ⟨hname, hlabel⟩
    rw [hname, hlabel]

theorem Param.outline_eq_iff {p p' : Param} (h : (Node.param p).ReadFrom text)
    (h' : (Node.param p').ReadFrom text') :
    p.outline = p'.outline ↔ p.relabel Token.faded = p'.relabel Token.faded := by
  have htype : p.type.label = p'.type.label ↔
      p.type.relabel Token.faded = p'.type.relabel Token.faded :=
    TypeRef.label_eq_iff_of_type (h.child List.mem_cons_self) (h'.child List.mem_cons_self)
  have hdetail := detail_eq_iff_of_name (h.token List.mem_cons_self) (h'.token List.mem_cons_self)
    h.obeys h'.obeys (show ": ".toList = ':' :: [' '] from rfl) (by decide) p.type.label
    p'.type.label
  simp only [outline, relabel, Outline.node.injEq, Param.mk.injEq, Option.some.injEq, true_and,
    and_true, hdetail, htype]

theorem Func.outline_eq_iff {f f' : Func} (h : (Node.func f).ReadFrom text)
    (h' : (Node.func f').ReadFrom text') : f.outline = f'.outline ↔ f.faded = f'.faded := by
  have hreturns : f.returns.label = f'.returns.label ↔ f.returns.faded = f'.returns.faded :=
    TypeRef.label_eq_iff_of_returned (h.child (by simp [Node.children]))
      (h'.child (by simp [Node.children]))
  have hdetail := detail_eq_iff_of_name (h.token List.mem_cons_self) (h'.token List.mem_cons_self)
    h.obeys h'.obeys (show " -> ".toList = ' ' :: ['-', '>', ' '] from rfl) (by decide)
    f.returns.label f'.returns.label
  have hparams : f.params.map Param.outline = f'.params.map Param.outline ↔
      f.params.map (Param.relabel Token.faded) = f'.params.map (Param.relabel Token.faded) := by
    have hread : ∀ p ∈ f.params, (Node.param p).ReadFrom text :=
      fun p hp => h.child (by simp [Node.children, hp])
    have hread' : ∀ p ∈ f'.params, (Node.param p).ReadFrom text' :=
      fun p hp => h'.child (by simp [Node.children, hp])
    exact map_eq_map_iff_of_forall
      fun p hp p' hp' => Param.outline_eq_iff (hread p hp) (hread' p' hp')
  have hbody := Stmt.map_outline_eq_iff (fun s _ => s.shown)
    (fun s (hs : s ∈ f.body) => h.child (by simp [Node.children, hs]))
    (fun s (hs : s ∈ f'.body) => h'.child (by simp [Node.children, hs]))
  -- The body is the last part of a function, whatever its parameters are.
  have hparts : ∀ {os os' bs bs' : List Outline},
      os ++ [Outline.node .body none bs] = os' ++ [Outline.node .body none bs'] ↔
        os = os' ∧ bs = bs' := by
    intro os os' bs bs'
    constructor
    · intro hsame
      obtain ⟨hos, hbs⟩ := List.append_inj' hsame rfl
      exact ⟨hos, by simpa using hbs⟩
    · rintro ⟨rfl, rfl⟩
      rfl
  simp only [outline, faded, relabel, Outline.node.injEq, Func.mk.injEq, Option.some.injEq,
    true_and, hdetail, hreturns, hparts, hparams, hbody]
  tauto

/-- A statement outside all blocks is no declaration, so the label of an item tells its sort. -/
theorem Stmt.outline_ne_node_of_isOuter {s : Stmt} (h : s.IsOuter) (detail : Option String)
    (parts : List Outline) : s.outline ≠ .node .varDecl detail parts := by
  cases s with
  | declare d => exact h.elim
  | ret value => exact h.elim
  | _ => simp [outline, Assign.outline]

theorem Stmt.outline_ne_node (s : Stmt) (detail : Option String) (parts : List Outline) :
    s.outline ≠ .node .funcDef detail parts := by
  cases s <;> simp [outline, Decl.outline, Assign.outline]

theorem Item.outline_eq_iff {i i' : Item} (h : (Node.item i).ReadFrom text)
    (h' : (Node.item i').ReadFrom text') : i.outline = i'.outline ↔ i.faded = i'.faded := by
  cases i with
  | declare d =>
    have hd : (Node.decl d).ReadFrom text := h.child List.mem_cons_self
    cases i' with
    | declare d' =>
      have hd' : (Node.decl d').ReadFrom text' := h'.child List.mem_cons_self
      simp only [outline, faded, Item.declare.injEq, Decl.outline_eq_iff hd hd']
    | stmt s' =>
      have hne := Stmt.outline_ne_node_of_isOuter h'.obeys
      simp [outline, faded, Decl.outline, Ne.symm (hne _ _)]
    | func f' => simp [outline, faded, Decl.outline, Func.outline]
  | stmt s =>
    have hne := Stmt.outline_ne_node_of_isOuter h.obeys
    have hs : (Node.stmt s).ReadFrom text := h.child List.mem_cons_self
    cases i' with
    | declare d' => simp [outline, faded, Decl.outline, hne]
    | stmt s' =>
      have hs' : (Node.stmt s').ReadFrom text' := h'.child List.mem_cons_self
      simp only [outline, faded, Item.stmt.injEq, Stmt.outline_eq_iff hs hs']
    | func f' => simp [outline, faded, Func.outline, s.outline_ne_node]
  | func f =>
    have hf : (Node.func f).ReadFrom text := h.child List.mem_cons_self
    cases i' with
    | declare d' => simp [outline, faded, Decl.outline, Func.outline]
    | stmt s' => simp [outline, faded, Func.outline, Ne.symm (s'.outline_ne_node _ _)]
    | func f' =>
      have hf' : (Node.func f').ReadFrom text' := h'.child List.mem_cons_self
      simp only [outline, faded, Item.func.injEq, Func.outline_eq_iff hf hf']

theorem Program.outline_eq_iff {p p' : Program} (h : (Node.program p).ReadFrom text)
    (h' : (Node.program p').ReadFrom text') : p.outline = p'.outline ↔ p.faded = p'.faded := by
  have hread : ∀ i ∈ p.items, (Node.item i).ReadFrom text :=
    fun i hi => h.child (List.mem_map_of_mem hi)
  have hread' : ∀ i ∈ p'.items, (Node.item i).ReadFrom text' :=
    fun i hi => h'.child (List.mem_map_of_mem hi)
  have hitems : p.items.map Item.outline = p'.items.map Item.outline ↔
      p.items.map Item.faded = p'.items.map Item.faded :=
    map_eq_map_iff_of_forall fun i hi i' hi' => Item.outline_eq_iff (hread i hi) (hread' i' hi')
  simp only [outline, faded, Outline.node.injEq, Program.mk.injEq, true_and, hitems]

end Pairs

namespace Outline

@[simp]
theorem isPlain_node {heading : Heading} {detail : Option String} {parts : List Outline} :
    (node heading detail parts).IsPlain ↔
      (∀ s ∈ detail, '\n' ∉ s.toList) ∧ ∀ o ∈ parts, o.IsPlain := by
  rw [IsPlain, allPlain_iff]

end Outline

/-- No line feed occurs in what is shown of a node. The type of a variable or of a function is a
part of a label. -/
def Node.IsPlain : Node → Prop
  | program p => p.outline.IsPlain
  | item i => i.outline.IsPlain
  | func f => f.outline.IsPlain
  | param p => p.outline.IsPlain
  | stmt s => s.outline.IsPlain
  | tail t => ∀ o ∈ t.outlines, o.IsPlain
  | assign a => a.outline.IsPlain
  | target t => t.outline.IsPlain
  | decl d => d.outline.IsPlain
  | init i => i.outline.IsPlain
  | returned _ => True
  | type _ => True
  | condition e => e.outline.IsPlain
  | value e => e.outline.IsPlain

section Plain

variable {text : List Char}

theorem TypeRef.no_newline (type : TypeRef) : '\n' ∉ type.label.toList :=
  not_mem_label (by decide) type

/-- A number is shown by digits. -/
theorem Token.StandsIn.no_newline_toString {t : Token} {value : Int} (ht : t.StandsIn text)
    (hkind : t.kind = .number) (hvalue : t.literal = some value) :
    '\n' ∉ (toString value).toList := by
  have hspelled := ht.spelled
  rw [hkind, hvalue] at hspelled
  obtain ⟨-, -, rfl⟩ := hspelled.digits
  exact not_mem_toString (by decide) _

theorem Decl.no_newline {d : Decl} (h : (Node.decl d).ReadFrom text) :
    '\n' ∉ d.detail.toList := by
  simp only [detail, String.toList_append, String.toList_intercalate, List.map_map,
    List.mem_append, not_or]
  refine ⟨⟨d.type.no_newline, by decide⟩, fun hmem => ?_⟩
  rcases mem_of_mem_intercalate hmem with hsep | ⟨w, hw, hx⟩
  · exact absurd hsep (by decide)
  · obtain ⟨t, ht, rfl⟩ := List.mem_map.mp hw
    exact (h.token ht).not_mem_of_name (h.obeys.1.2 t ht) (by decide) hx

theorem Expr.isPlain_binary {left op right} (hop : op.StandsIn text)
    (hkind : ∃ s, op.kind = .symbol s) (hleft : left.outline.IsPlain)
    (hright : right.outline.IsPlain) : (Expr.binary left op right).outline.IsPlain := by
  obtain ⟨s, hs⟩ := hkind
  have hnewline : '\n' ∉ op.lexeme.toList := hop.spelled.not_mem_newline (by simp [hs])
  simpa [outline] using ⟨hnewline, hleft, hright⟩

/-- The outline of an expression is plain if those of the expressions inside it are. -/
theorem Expr.isPlain_outline {e : Expr} (h : (Node.value e).ReadFrom text)
    (hchildren : ∀ inner ∈ e.children, inner.outline.IsPlain) : e.outline.IsPlain := by
  cases e with
  | literal t value =>
    have ht : t.StandsIn text := h.token List.mem_cons_self
    simpa [outline] using ht.no_newline_toString h.obeys.1 h.obeys.2
  | name t =>
    have ht : t.StandsIn text := h.token List.mem_cons_self
    simpa [outline] using ht.not_mem_of_name h.obeys (by decide)
  | element t indices =>
    have ht : t.StandsIn text := h.token List.mem_cons_self
    have hname : '\n' ∉ t.lexeme.toList := ht.not_mem_of_name h.obeys.1 (by decide)
    simpa [outline, outlines_eq_map, children] using ⟨hname, hchildren⟩
  | group inner => simpa [outline, children] using hchildren
  | call word callee args =>
    have ht : callee.StandsIn text := h.token (List.mem_cons_of_mem _ List.mem_cons_self)
    have hname : '\n' ∉ callee.lexeme.toList := ht.not_mem_of_name h.obeys.2 (by decide)
    simpa [outline, outlines_eq_map, children] using ⟨hname, hchildren⟩
  | binary left op right =>
    simp only [children, List.forall_mem_cons] at hchildren
    exact isPlain_binary (h.token List.mem_cons_self)
      (KindClass.exists_symbol_of_operator (Or.inl h.obeys.1)) hchildren.1 hchildren.2.1

namespace Node

/-- What is shown of a node is plain if what is shown of its children is: it adds words without line
feeds and its own tokens. -/
theorem isPlain_of_children {n : Node} (hn : n.ReadFrom text)
    (hchildren : ∀ m ∈ n.children, m.IsPlain) : n.IsPlain := by
  cases n with
  | program p => simpa [IsPlain, children, Program.outline] using hchildren
  | item i => cases i <;> simpa [IsPlain, children, Item.outline] using hchildren
  | func f =>
    simp only [children, List.forall_mem_cons, List.forall_mem_append, List.forall_mem_map]
      at hchildren
    obtain ⟨-, hparams, hbody⟩ := hchildren
    have ht : f.name.StandsIn text := hn.token List.mem_cons_self
    have hname : '\n' ∉ f.name.lexeme.toList := ht.not_mem_of_name hn.obeys (by decide)
    have hparts : ∀ o ∈ f.params.map Param.outline ++
        [.node .body none (f.body.map Stmt.outline)], o.IsPlain := by
      simp only [List.forall_mem_append, List.forall_mem_singleton, List.forall_mem_map,
        Outline.isPlain_node]
      exact ⟨hparams, by simp, hbody⟩
    simp only [IsPlain, Func.outline, Outline.isPlain_node]
    refine ⟨?_, hparts⟩
    simp [hname, f.returns.no_newline]
  | param p =>
    have ht : p.name.StandsIn text := hn.token List.mem_cons_self
    have hname : '\n' ∉ p.name.lexeme.toList := ht.not_mem_of_name hn.obeys (by decide)
    simp [IsPlain, Param.outline, hname, p.type.no_newline]
  | stmt s =>
    cases s with
    | declare d => simpa [IsPlain, children, Stmt.outline] using hchildren
    | ret e => simpa [IsPlain, children, Stmt.outline] using hchildren
    | assign a => simpa [IsPlain, children, Stmt.outline] using hchildren
    | call c => simpa [IsPlain, children, Stmt.outline] using hchildren
    | branch e body t =>
      simp only [children, List.forall_mem_cons, List.forall_mem_append, List.forall_mem_map]
        at hchildren
      obtain ⟨he, hbody, htail, -⟩ := hchildren
      simpa [IsPlain, Stmt.outline, armOutline, Stmt.outlines_eq_map] using ⟨⟨he, hbody⟩, htail⟩
    | rangeLoop var start stop body =>
      simp only [children, List.forall_mem_cons, List.forall_mem_map] at hchildren
      obtain ⟨hstart, hstop, hbody⟩ := hchildren
      have ht : var.StandsIn text := hn.token List.mem_cons_self
      have hname : '\n' ∉ var.lexeme.toList := ht.not_mem_of_name hn.obeys (by decide)
      simpa [IsPlain, Stmt.outline, Stmt.outlines_eq_map] using ⟨hname, hstart, hstop, hbody⟩
    | stepLoop d e a body =>
      simp only [children, List.forall_mem_cons, List.forall_mem_map] at hchildren
      obtain ⟨hinit, he, hstep, hbody⟩ := hchildren
      simpa [IsPlain, Stmt.outline, Stmt.outlines_eq_map] using ⟨hinit, he, hstep, hbody⟩
    | whileLoop e body =>
      simp only [children, List.forall_mem_cons, List.forall_mem_map] at hchildren
      obtain ⟨he, hbody⟩ := hchildren
      simpa [IsPlain, Stmt.outline, Stmt.outlines_eq_map] using ⟨he, hbody⟩
  | tail t =>
    cases t with
    | nothing => simp [IsPlain, Tail.outlines]
    | otherwise body =>
      simpa [IsPlain, children, Tail.outlines, Stmt.outlines_eq_map] using hchildren
    | orIf e body t =>
      simp only [children, List.forall_mem_cons, List.forall_mem_append, List.forall_mem_map]
        at hchildren
      obtain ⟨he, hbody, htail, -⟩ := hchildren
      simpa [IsPlain, Tail.outlines, armOutline, Stmt.outlines_eq_map] using
        ⟨⟨he, hbody⟩, htail⟩
  | assign a => simpa [IsPlain, children, Assign.outline] using hchildren
  | target t =>
    simp only [children, List.forall_mem_map] at hchildren
    have ht : t.name.StandsIn text := hn.token List.mem_cons_self
    have hname : '\n' ∉ t.name.lexeme.toList := ht.not_mem_of_name hn.obeys (by decide)
    simpa [IsPlain, Target.outline] using ⟨hname, hchildren⟩
  | decl d =>
    simp only [children, List.forall_mem_cons, List.forall_mem_append, List.forall_mem_map,
      Option.mem_toList] at hchildren
    obtain ⟨-, hdims, hinit⟩ := hchildren
    have hdetail := Decl.no_newline hn
    have hparts : ∀ o ∈ (if d.dims.isEmpty then [] else
        [.node .dims none (d.dims.map Expr.outline)]), Outline.IsPlain o := by
      split
      · simp
      · simpa [IsPlain] using hdims
    simp only [IsPlain, Decl.outline, Outline.isPlain_node, List.forall_mem_append,
      List.forall_mem_map, Option.mem_toList]
    exact ⟨by simpa using hdetail, hparts, fun i hi => by simpa [IsPlain] using hinit i hi⟩
  | init i =>
    cases i <;> simpa [IsPlain, children, Init.outline, Init.outlines_eq_map] using hchildren
  | returned t => trivial
  | type t => trivial
  | condition e =>
    cases e with
    | binary left op right =>
      simp only [children, Expr.children, List.map_cons, List.forall_mem_cons] at hchildren
      exact Expr.isPlain_binary (hn.token List.mem_cons_self)
        (KindClass.exists_symbol_of_operator (Or.inr hn.wellFormed.1)) hchildren.1 hchildren.2.1
    | _ => exact hn.wellFormed.elim
  | value e =>
    simp only [children, List.forall_mem_map] at hchildren
    exact Expr.isPlain_outline hn hchildren

theorem ReadFrom.isPlain {n : Node} (hn : n.ReadFrom text) : n.IsPlain := by
  induction n using Node.induction with
  | step n ih => exact isPlain_of_children hn fun m hm => ih m hm (hn.child hm)

end Node

end Plain

namespace Program

/-- Two programs that texts spell have the same listing exactly when they are the same but for the
spans of their tokens, the spelling of their numbers, and whether a function that returns nothing
says so. What was written on a listing before makes no difference. -/
theorem emit_eq_iff {source source' : String} {p p' : Program} (h : ofText source = .ok p)
    (h' : ofText source' = .ok p') (l l' : Listing) :
    (l.emit p).1 = (l'.emit p').1 ↔ p.faded = p'.faded := by
  have hread := readFrom_of_ofText h
  have hread' := readFrom_of_ofText h'
  rw [← outline_eq_iff hread hread', Listing.emit_text, Listing.emit_text]
  constructor
  · intro htext
    have hplain : p.outline.IsPlain := hread.isPlain
    have hplain' : p'.outline.IsPlain := hread'.isPlain
    exact Outline.text_injective hplain hplain' (String.ofList_inj.mp htext)
  · intro hsame
    rw [hsame]

theorem emit_eq_iff_function :
    let source := "func f()\x7breturn 07;\x7d"
    let source' := "func void f ( )\n\x7b return 7; \x7d"
    let name (span : Span) : Token := ⟨.name, "f", none, span⟩
    let void : Token := ⟨.keyword .void, "void", none, ⟨1, 6, 9⟩⟩
    let number (lexeme : String) (span : Span) : Token := ⟨.number, lexeme, some 7, span⟩
    let function (name : Token) (word : Option Token) (number : Token) : Program :=
      ⟨[.func ⟨name, [], ⟨.void, word, 0⟩, [.ret (.literal number 7)]⟩]⟩
    let p := function (name ⟨1, 6, 6⟩) none (number "07" ⟨1, 17, 18⟩)
    let p' := function (name ⟨1, 11, 11⟩) (some void) (number "7" ⟨2, 10, 10⟩)
    let used : Listing := ⟨"Program\n", 3⟩
    ofText source = .ok p ∧ ofText source' = .ok p' ∧ p.faded = p'.faded ∧
      ((Listing.empty.emit p).1 = (used.emit p').1 ↔ p.faded = p'.faded) := by
  intro source source' name void number function p p' used
  have htokens : tokenize source = .ok [⟨.keyword .func, "func", none, ⟨1, 1, 4⟩⟩,
      name ⟨1, 6, 6⟩, ⟨.symbol .leftParen, "(", none, ⟨1, 7, 7⟩⟩,
      ⟨.symbol .rightParen, ")", none, ⟨1, 8, 8⟩⟩, ⟨.symbol .leftBrace, "\x7b", none, ⟨1, 9, 9⟩⟩,
      ⟨.keyword .return_, "return", none, ⟨1, 10, 15⟩⟩, number "07" ⟨1, 17, 18⟩,
      ⟨.symbol .semicolon, ";", none, ⟨1, 19, 19⟩⟩,
      ⟨.symbol .rightBrace, "\x7d", none, ⟨1, 20, 20⟩⟩, .endOfInput (.point 1 21)] := by decide
  have htokens' : tokenize source' = .ok [⟨.keyword .func, "func", none, ⟨1, 1, 4⟩⟩, void,
      name ⟨1, 11, 11⟩, ⟨.symbol .leftParen, "(", none, ⟨1, 13, 13⟩⟩,
      ⟨.symbol .rightParen, ")", none, ⟨1, 15, 15⟩⟩, ⟨.newline, "\n", none, ⟨1, 16, 16⟩⟩,
      ⟨.symbol .leftBrace, "\x7b", none, ⟨2, 1, 1⟩⟩,
      ⟨.keyword .return_, "return", none, ⟨2, 3, 8⟩⟩, number "7" ⟨2, 10, 10⟩,
      ⟨.symbol .semicolon, ";", none, ⟨2, 11, 11⟩⟩,
      ⟨.symbol .rightBrace, "\x7d", none, ⟨2, 13, 13⟩⟩, .endOfInput (.point 2 14)] := by decide
  have h : ofText source = .ok p := ofText_eq_ok_iff.mpr ⟨_, htokens, rfl⟩
  have h' : ofText source' = .ok p' := ofText_eq_ok_iff.mpr ⟨_, htokens', rfl⟩
  exact ⟨h, h', rfl, emit_eq_iff h h' Listing.empty used⟩

end Program
end Jam
