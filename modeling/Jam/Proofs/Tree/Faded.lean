import Jam.Proofs.Tree.Details

/-!
What the listing of a program leaves out: the spans of all tokens, the spelling of numbers, and
whether a function that returns nothing says so. Two programs that were read have the same listing
exactly when they are the same apart from that. At each node this is a fact about its label and the
outlines of its parts, so it follows from the root down.
-/
namespace Jam

open Text

/-- The token without its span and, if it is a number, without its spelling. -/
def Token.faded (t : Token) : Token :=
  if t.kind = .number then { t.withoutSpan with lexeme := "" } else t.withoutSpan

/-- Whether a function says that it returns nothing makes no difference. -/
def TypeRef.faded (type : TypeRef) : TypeRef :=
  if type.kind = .void then { type with word := none } else type.relabel Token.faded

def Func.faded (f : Func) : Func := { f.relabel Token.faded with returns := f.returns.faded }

def Item.faded : Item → Item
  | .declare d => .declare (d.relabel Token.faded)
  | .stmt s => .stmt (s.relabel Token.faded)
  | .func f => .func f.faded

/-- The tree without its spans, without the spelling of its numbers and without the word `void`
behind `func`. -/
def Program.faded (p : Program) : Program := ⟨p.items.map Item.faded⟩

section Pairs

variable {text text' : List Char}

/-- Two maps that tell single members apart in the same way do so for lists. -/
theorem map_eq_map_iff_of_forall {α β γ : Type} {f : α → β} {g : α → γ} {as bs : List α}
    (h : ∀ a ∈ as, ∀ b ∈ bs, f a = f b ↔ g a = g b) : as.map f = bs.map f ↔ as.map g = bs.map g :=
  ⟨map_eq_map_of_map_eq fun a ha b hb => (h a ha b hb).mp,
    map_eq_map_of_map_eq fun a ha b hb => (h a ha b hb).mpr⟩

namespace Token.StandsIn

variable {t t' : Token}

theorem lexeme_eq_iff (ht : t.StandsIn text) (ht' : t'.StandsIn text') (hkind : t.kind ≠ .number)
    (hkind' : t'.kind ≠ .number) : t.lexeme = t'.lexeme ↔ t.faded = t'.faded := by
  rw [faded, faded, if_neg hkind, if_neg hkind']
  constructor
  · exact ht.withoutSpan_eq ht'
  · intro h
    have hlexeme : t.withoutSpan.lexeme = t'.withoutSpan.lexeme := by rw [h]
    exact hlexeme

theorem lexeme_eq_iff_of_name (ht : t.StandsIn text) (ht' : t'.StandsIn text')
    (hkind : t.kind = .name) (hkind' : t'.kind = .name) :
    t.lexeme = t'.lexeme ↔ t.faded = t'.faded :=
  ht.lexeme_eq_iff ht' (by simp [hkind]) (by simp [hkind'])

/-- A keyword in one place is the same wherever the place is. -/
theorem faded_eq_of_keyword {k : Keyword} (ht : t.StandsIn text) (ht' : t'.StandsIn text')
    (hkind : t.kind = .keyword k) (hkind' : t'.kind = .keyword k) : t.faded = t'.faded := by
  apply (ht.lexeme_eq_iff ht' (by simp [hkind]) (by simp [hkind'])).mp
  rw [ht.lexeme_eq_of_keyword hkind, ht'.lexeme_eq_of_keyword hkind']

/-- Numbers with the same value differ in their spelling only. -/
theorem faded_eq_of_number {value : Int} (hkind : t.kind = .number)
    (hvalue : t.literal = some value) (hkind' : t'.kind = .number)
    (hvalue' : t'.literal = some value) : t.faded = t'.faded := by
  rw [faded, faded, if_pos hkind, if_pos hkind', withoutSpan, withoutSpan, hkind, hkind', hvalue,
    hvalue']

/-- The value of a number is told by the digits in which it is shown. -/
theorem value_eq_of_toString_eq {value value' : Int} (ht : t.StandsIn text)
    (ht' : t'.StandsIn text') (hkind : t.kind = .number) (hvalue : t.literal = some value)
    (hkind' : t'.kind = .number) (hvalue' : t'.literal = some value')
    (h : toString value = toString value') : value = value' := by
  have hspelled := ht.spelled
  have hspelled' := ht'.spelled
  rw [hkind, hvalue] at hspelled
  rw [hkind', hvalue'] at hspelled'
  obtain ⟨-, -, rfl⟩ := hspelled.digits
  obtain ⟨-, -, rfl⟩ := hspelled'.digits
  exact congrArg Int.ofNat (eq_of_toString_eq h)

end Token.StandsIn

/-- An operator is a symbol. -/
theorem KindClass.exists_symbol_of_operator {k : TokenKind}
    (h : arithmetic k = true ∨ relational k = true) : ∃ s, k = .symbol s := by
  cases k with
  | symbol s => exact ⟨s, rfl⟩
  | _ => rcases h with h | h <;> cases h

namespace Expr

theorem outline_binary_iff {left op right left' op' right'} (hop : op.StandsIn text)
    (hop' : op'.StandsIn text') (hkind : ∃ s, op.kind = .symbol s)
    (hkind' : ∃ s, op'.kind = .symbol s)
    (hleft : left.outline = left'.outline ↔
      left.relabel Token.faded = left'.relabel Token.faded)
    (hright : right.outline = right'.outline ↔
      right.relabel Token.faded = right'.relabel Token.faded) :
    (Expr.binary left op right).outline = (Expr.binary left' op' right').outline ↔
      (Expr.binary left op right).relabel Token.faded =
        (Expr.binary left' op' right').relabel Token.faded := by
  obtain ⟨s, hs⟩ := hkind
  obtain ⟨s', hs'⟩ := hkind'
  have hshown := hop.lexeme_eq_iff hop' (by simp [hs]) (by simp [hs'])
  simp only [outline, relabel, Outline.node.injEq, Expr.binary.injEq, List.cons.injEq,
    Option.some.injEq, hleft, hright, hshown, true_and, and_true]
  exact and_left_comm

/-- The label of an expression tells its sort, and what is not shown is left out. -/
theorem outline_eq_iff {e e' : Expr} (h : (Node.value e).ReadFrom text)
    (h' : (Node.value e').ReadFrom text') :
    e.outline = e'.outline ↔ e.relabel Token.faded = e'.relabel Token.faded := by
  induction e using Expr.induction generalizing e' with
  | literal t value =>
    cases e' with
    | literal t' value' =>
      obtain ⟨hkind, hvalue⟩ := h.obeys
      obtain ⟨hkind', hvalue'⟩ := h'.obeys
      have ht : t.StandsIn text := h.token List.mem_cons_self
      have ht' : t'.StandsIn text' := h'.token List.mem_cons_self
      simp only [outline, relabel, Outline.node.injEq, Expr.literal.injEq, Option.some.injEq,
        true_and, and_true]
      constructor
      · intro hshown
        obtain rfl := ht.value_eq_of_toString_eq ht' hkind hvalue hkind' hvalue' hshown
        exact ⟨Token.StandsIn.faded_eq_of_number hkind hvalue hkind' hvalue', rfl⟩
      · intro hsame
        rw [hsame.2]
    | _ => simp [outline, relabel]
  | name t =>
    cases e' with
    | name t' =>
      have ht : t.StandsIn text := h.token List.mem_cons_self
      have ht' : t'.StandsIn text' := h'.token List.mem_cons_self
      simp only [outline, relabel, Outline.node.injEq, Expr.name.injEq, Option.some.injEq,
        true_and, and_true, ht.lexeme_eq_iff_of_name ht' h.obeys h'.obeys]
    | _ => simp [outline, relabel]
  | element t indices ih =>
    cases e' with
    | element t' indices' =>
      have ht : t.StandsIn text := h.token List.mem_cons_self
      have ht' : t'.StandsIn text' := h'.token List.mem_cons_self
      have hindices : indices.map outline = indices'.map outline ↔
          indices.map (relabel Token.faded) = indices'.map (relabel Token.faded) := by
        refine map_eq_map_iff_of_forall fun e he e' he' => ih e he ?_ ?_
        · exact h.child (by simp [Node.children, children, he])
        · exact h'.child (by simp [Node.children, children, he'])
      simp only [outline, relabel, outlines_eq_map, relabelAll_eq_map, Outline.node.injEq,
        Expr.element.injEq, Option.some.injEq, true_and, hindices,
        ht.lexeme_eq_iff_of_name ht' h.obeys.1 h'.obeys.1]
    | _ => simp [outline, relabel]
  | group inner ih =>
    cases e' with
    | group inner' =>
      have hinner : (Node.value inner).ReadFrom text := h.child List.mem_cons_self
      have hinner' : (Node.value inner').ReadFrom text' := h'.child List.mem_cons_self
      simp only [outline, relabel, Outline.node.injEq, Expr.group.injEq, List.cons.injEq, true_and,
        and_true, ih hinner hinner']
    | _ => simp [outline, relabel]
  | call word callee args ih =>
    cases e' with
    | call word' callee' args' =>
      have hword : word.StandsIn text := h.token List.mem_cons_self
      have hword' : word'.StandsIn text' := h'.token List.mem_cons_self
      have hname : callee.StandsIn text := h.token (List.mem_cons_of_mem _ List.mem_cons_self)
      have hname' : callee'.StandsIn text' := h'.token (List.mem_cons_of_mem _ List.mem_cons_self)
      have hargs : args.map outline = args'.map outline ↔
          args.map (relabel Token.faded) = args'.map (relabel Token.faded) := by
        refine map_eq_map_iff_of_forall fun e he e' he' => ih e he ?_ ?_
        · exact h.child (by simp [Node.children, children, he])
        · exact h'.child (by simp [Node.children, children, he'])
      simp only [outline, relabel, outlines_eq_map, relabelAll_eq_map, Outline.node.injEq,
        Expr.call.injEq, Option.some.injEq, true_and, hargs,
        hname.lexeme_eq_iff_of_name hname' h.obeys.2 h'.obeys.2,
        hword.faded_eq_of_keyword hword' h.obeys.1 h'.obeys.1]
    | _ => simp [outline, relabel]
  | binary left op right ihleft ihright =>
    cases e' with
    | binary left' op' right' =>
      refine outline_binary_iff (h.token List.mem_cons_self) (h'.token List.mem_cons_self)
        (KindClass.exists_symbol_of_operator (Or.inl h.obeys.1))
        (KindClass.exists_symbol_of_operator (Or.inl h'.obeys.1)) (ihleft ?_ ?_) (ihright ?_ ?_)
      · exact h.child (by simp [Node.children, children])
      · exact h'.child (by simp [Node.children, children])
      · exact h.child (by simp [Node.children, children])
      · exact h'.child (by simp [Node.children, children])
    | _ => simp [outline, relabel]

/-- A condition is a comparison of two values. -/
theorem outline_eq_iff_of_condition {e e' : Expr} (h : (Node.condition e).ReadFrom text)
    (h' : (Node.condition e').ReadFrom text') :
    e.outline = e'.outline ↔ e.relabel Token.faded = e'.relabel Token.faded := by
  cases e with
  | binary left op right =>
    cases e' with
    | binary left' op' right' =>
      have hvalue : ∀ inner ∈ [left, right], (Node.value inner).ReadFrom text :=
        fun inner hinner => h.child (List.mem_map_of_mem hinner)
      have hvalue' : ∀ inner ∈ [left', right'], (Node.value inner).ReadFrom text' :=
        fun inner hinner => h'.child (List.mem_map_of_mem hinner)
      simp only [List.forall_mem_cons] at hvalue hvalue'
      exact outline_binary_iff (h.token List.mem_cons_self) (h'.token List.mem_cons_self)
        (KindClass.exists_symbol_of_operator (Or.inr h.wellFormed.1))
        (KindClass.exists_symbol_of_operator (Or.inr h'.wellFormed.1))
        (outline_eq_iff hvalue.1 hvalue'.1) (outline_eq_iff hvalue.2.1 hvalue'.2.1)
    | _ => exact h'.wellFormed.elim
  | _ => exact h.wellFormed.elim

theorem map_outline_eq_iff {es es' : List Expr} (h : ∀ e ∈ es, (Node.value e).ReadFrom text)
    (h' : ∀ e ∈ es', (Node.value e).ReadFrom text') :
    es.map outline = es'.map outline ↔
      es.map (relabel Token.faded) = es'.map (relabel Token.faded) :=
  map_eq_map_iff_of_forall fun e he e' he' => outline_eq_iff (h e he) (h' e' he')

/-- The outline of an expression is headed by its sort, and is no list. -/
theorem outline_ne_list (e : Expr) (parts : List Outline) : e.outline ≠ .node .list none parts := by
  cases e <;> simp [outline]

end Expr

namespace TypeRef

variable {type type' : TypeRef}

theorem faded_kind (type : TypeRef) : type.faded.kind = type.kind := by
  unfold faded
  split <;> rfl

theorem faded_rank (type : TypeRef) : type.faded.rank = type.rank := by
  unfold faded
  split <;> rfl

/-- The word of a type is told by its kind. -/
theorem label_eq_iff_of_type (h : (Node.type type).ReadFrom text)
    (h' : (Node.type type').ReadFrom text') :
    type.label = type'.label ↔ type.relabel Token.faded = type'.relabel Token.faded := by
  rw [label_eq_iff]
  constructor
  · rintro ⟨hkind, hrank⟩
    obtain ⟨s, word, hs, hword, hwordkind⟩ := h.wellFormed
    obtain ⟨s', word', hs', hword', hwordkind'⟩ := h'.wellFormed
    obtain rfl : s = s' := by
      rw [hs, hs'] at hkind
      exact TypeKind.scalar.inj hkind
    have hstands : word.StandsIn text := h.token (by simp [Node.tokens, hword])
    have hstands' : word'.StandsIn text' := h'.token (by simp [Node.tokens, hword'])
    rw [relabel, relabel, hword, hword', Option.map_some, Option.map_some, hkind, hrank,
      hstands.faded_eq_of_keyword hstands' hwordkind hwordkind']
  · intro hsame
    have hkind : (type.relabel Token.faded).kind = (type'.relabel Token.faded).kind := by rw [hsame]
    have hrank : (type.relabel Token.faded).rank = (type'.relabel Token.faded).rank := by rw [hsame]
    exact ⟨hkind, hrank⟩

theorem label_eq_iff_of_returned (h : (Node.returned type).ReadFrom text)
    (h' : (Node.returned type').ReadFrom text') :
    type.label = type'.label ↔ type.faded = type'.faded := by
  constructor
  · intro hlabel
    obtain ⟨hkind, hrank⟩ := label_eq_iff.mp hlabel
    by_cases hvoid : type.kind = .void
    · have hvoid' : type'.kind = .void := hkind ▸ hvoid
      rw [faded, faded, if_pos hvoid, if_pos hvoid', hkind, hrank]
    · have hvoid' : type'.kind ≠ .void := hkind ▸ hvoid
      have hvalue : (Node.type type).ReadFrom text :=
        ⟨h.wellFormed.resolve_left fun hv => hvoid hv.1, h.standing⟩
      have hvalue' : (Node.type type').ReadFrom text' :=
        ⟨h'.wellFormed.resolve_left fun hv => hvoid' hv.1, h'.standing⟩
      rw [faded, faded, if_neg hvoid, if_neg hvoid']
      exact (label_eq_iff_of_type hvalue hvalue').mp hlabel
  · intro hsame
    rw [label_eq_iff, ← faded_kind, ← faded_rank, hsame, faded_kind, faded_rank]
    exact ⟨rfl, rfl⟩

end TypeRef

theorem Init.outline_eq_iff {i i' : Init} (h : (Node.init i).ReadFrom text)
    (h' : (Node.init i').ReadFrom text') :
    i.outline = i'.outline ↔ i.relabel Token.faded = i'.relabel Token.faded := by
  induction i using Init.induction generalizing i' with
  | value e =>
    cases i' with
    | value e' =>
      have he : (Node.value e).ReadFrom text := h.child List.mem_cons_self
      have he' : (Node.value e').ReadFrom text' := h'.child List.mem_cons_self
      simp only [outline, relabel, Init.value.injEq, Expr.outline_eq_iff he he']
    | braces items' => simp [outline, relabel, Expr.outline_ne_list]
  | braces items ih =>
    cases i' with
    | value e' => simp [outline, relabel, Ne.symm (Expr.outline_ne_list e' _)]
    | braces items' =>
      have hitems : items.map outline = items'.map outline ↔
          items.map (relabel Token.faded) = items'.map (relabel Token.faded) := by
        refine map_eq_map_iff_of_forall fun i hi i' hi' => ih i hi ?_ ?_
        · exact h.child (by simp [Node.children, hi])
        · exact h'.child (by simp [Node.children, hi'])
      simp only [outline, relabel, outlines_eq_map, relabelAll_eq_map, Outline.node.injEq,
        Init.braces.injEq, true_and, hitems]

namespace Decl

/-- The parts of a declaration tell its dimensions and its initializer, whether there are any or
not. -/
theorem parts_eq_iff {dims dims' : List Outline} {init init' : Option Outline} :
    (if dims.isEmpty then [] else [Outline.node .dims none dims]) ++
          init.toList.map (fun o => .node .init none [o]) =
        (if dims'.isEmpty then [] else [Outline.node .dims none dims']) ++
          init'.toList.map (fun o => .node .init none [o]) ↔
      dims = dims' ∧ init = init' := by
  cases dims <;> cases dims' <;> cases init <;> cases init' <;> simp

variable {d d' : Decl}

theorem outline_eq_node (d : Decl) :
    d.outline = .node .varDecl (some d.detail)
      ((if (d.dims.map Expr.outline).isEmpty then [] else
          [Outline.node .dims none (d.dims.map Expr.outline)]) ++
        (d.init.map Init.outline).toList.map fun o => .node .init none [o]) := by
  obtain ⟨type, dims, names, init⟩ := d
  cases init <;> simp [outline]

/-- The type of a declaration stands before the first blank, and commas separate its names. -/
theorem detail_eq_iff (h : (Node.decl d).ReadFrom text) (h' : (Node.decl d').ReadFrom text') :
    d.detail = d'.detail ↔
      d.type.label = d'.type.label ∧ d.names.map (·.lexeme) = d'.names.map (·.lexeme) := by
  have hnames : ∀ {text : List Char} {d : Decl}, (Node.decl d).ReadFrom text →
      d.names.map (·.lexeme.toList) ≠ [] ∧ ∀ w ∈ d.names.map (·.lexeme.toList), ',' ∉ w := by
    intro text d h
    constructor
    · simpa using h.obeys.1.1
    · rw [List.forall_mem_map]
      intro t ht
      exact (h.token ht).not_mem_of_name (h.obeys.1.2 t ht) (by decide)
  have hblank : ∀ type : TypeRef, ' ' ∉ type.label.toList := TypeRef.not_mem_label (by decide)
  constructor
  · intro hdetail
    have hlist := congrArg String.toList hdetail
    simp only [detail, String.toList_append, String.toList_intercalate, List.map_map,
      List.append_assoc] at hlist
    obtain ⟨htype, hrest⟩ := eq_of_append_cons_eq (hblank d.type) (hblank d'.type) hlist
    refine ⟨String.toList_inj.mp htype, ?_⟩
    have hwords := eq_of_intercalate_eq (hnames h).1 (hnames h').1 (hnames h).2 (hnames h').2 hrest
    exact map_eq_map_of_map_eq (fun t _ t' _ hsame => String.toList_inj.mp hsame) hwords
  · rintro ⟨htype, hlexemes⟩
    rw [detail, detail, htype, hlexemes]

theorem outline_eq_iff (h : (Node.decl d).ReadFrom text) (h' : (Node.decl d').ReadFrom text') :
    d.outline = d'.outline ↔ d.relabel Token.faded = d'.relabel Token.faded := by
  have htype : d.type.label = d'.type.label ↔
      d.type.relabel Token.faded = d'.type.relabel Token.faded :=
    TypeRef.label_eq_iff_of_type (h.child (by simp [Node.children]))
      (h'.child (by simp [Node.children]))
  have hdims : d.dims.map Expr.outline = d'.dims.map Expr.outline ↔
      d.dims.map (Expr.relabel Token.faded) = d'.dims.map (Expr.relabel Token.faded) :=
    Expr.map_outline_eq_iff (fun e he => h.child (by simp [Node.children, he]))
      (fun e he => h'.child (by simp [Node.children, he]))
  have hnames : d.names.map (·.lexeme) = d'.names.map (·.lexeme) ↔
      d.names.map Token.faded = d'.names.map Token.faded :=
    map_eq_map_iff_of_forall fun t ht t' ht' => (h.token ht).lexeme_eq_iff_of_name (h'.token ht')
      (h.obeys.1.2 t ht) (h'.obeys.1.2 t' ht')
  have hinit : d.init.map Init.outline = d'.init.map Init.outline ↔
      d.init.map (Init.relabel Token.faded) = d'.init.map (Init.relabel Token.faded) := by
    have hread : ∀ i ∈ d.init, (Node.init i).ReadFrom text :=
      fun i hi => h.child (by simp [Node.children, Option.mem_def.mp hi])
    have hread' : ∀ i ∈ d'.init, (Node.init i).ReadFrom text' :=
      fun i hi => h'.child (by simp [Node.children, Option.mem_def.mp hi])
    cases hi : d.init with
    | none => cases d'.init <;> simp
    | some i =>
      cases hi' : d'.init with
      | none => simp
      | some i' =>
        simp only [Option.map_some, Option.some.injEq,
          Init.outline_eq_iff (hread i hi) (hread' i' hi')]
  rw [outline_eq_node, outline_eq_node, Outline.node.injEq, parts_eq_iff, Option.some.injEq,
    detail_eq_iff h h', htype, hdims, hnames, hinit, relabel, relabel, Decl.mk.injEq]
  simp only [true_and]
  tauto

end Decl

theorem Target.outline_eq_iff {t t' : Target} (h : (Node.target t).ReadFrom text)
    (h' : (Node.target t').ReadFrom text') :
    t.outline = t'.outline ↔ t.relabel Token.faded = t'.relabel Token.faded := by
  have hname : t.name.lexeme = t'.name.lexeme ↔ t.name.faded = t'.name.faded :=
    (h.token List.mem_cons_self).lexeme_eq_iff_of_name (h'.token List.mem_cons_self) h.obeys
      h'.obeys
  have hindices := Expr.map_outline_eq_iff
    (fun e (he : e ∈ t.indices) => h.child (List.mem_map_of_mem he))
    (fun e (he : e ∈ t'.indices) => h'.child (List.mem_map_of_mem he))
  simp only [outline, relabel, Outline.node.injEq, Target.mk.injEq, Option.some.injEq, true_and,
    hname, hindices]

theorem Assign.outline_eq_iff {a a' : Assign} (h : (Node.assign a).ReadFrom text)
    (h' : (Node.assign a').ReadFrom text') :
    a.outline = a'.outline ↔ a.relabel Token.faded = a'.relabel Token.faded := by
  have hvalue := Expr.outline_eq_iff (h.child (m := .value a.value) (by simp [Node.children]))
    (h'.child (m := .value a'.value) (by simp [Node.children]))
  have htarget := Target.outline_eq_iff (h.child (m := .target a.target) (by simp [Node.children]))
    (h'.child (m := .target a'.target) (by simp [Node.children]))
  simp only [outline, relabel, Outline.node.injEq, Assign.mk.injEq, List.cons.injEq, true_and,
    and_true, hvalue, htarget]

end Pairs
end Jam
