import Jam.Proofs.Tree.Addressed
import Jam.Proofs.Tree.Located
import Jam.Proofs.Tree.ReadFrom

/-!
The JSON of a program keeps its tree. Two programs with the same JSON have the same constructors,
lists and options, the same kinds, values and lexemes, and the same spans wherever the JSON tells a
position. What the JSON leaves out is told by the rest: a type by its word, any other token by its
lexeme, and the digits of a number by its value and its position.
-/
namespace Jam

theorem Tail.armJsons_eq_map (tail : Tail) :
    tail.armJsons = tail.arms.map fun arm => armJson arm.1 (arm.2.map Stmt.json) := by
  cases tail with
  | nothing => rfl
  | otherwise body => rfl
  | orIf condition body tail =>
    rw [armJsons, arms, List.map_cons, Stmt.jsons_eq_map, armJsons_eq_map tail]

theorem Tail.lastJson_eq_elim (tail : Tail) :
    tail.lastJson = tail.last.elim .null fun body => .array (body.map Stmt.json) := by
  cases tail with
  | nothing => rfl
  | otherwise body => exact congrArg Json.array (Stmt.jsons_eq_map body)
  | orIf condition body tail => exact lastJson_eq_elim tail

section Pairs

variable {text text' : List Char}

theorem Span.json_injective {s s' : Span} (h : s.json = s'.json) : s = s' := by
  obtain ⟨line, colStart, colEnd⟩ := s
  obtain ⟨line', colStart', colEnd'⟩ := s'
  simpa [Span.json, Int.natCast_inj] using h

theorem Token.lexeme_eq_of_json {t t' : Token} (h : t.json = t'.json) : t.lexeme = t'.lexeme :=
  Json.string.inj h

namespace Token.StandsIn

variable {t t' : Token}

theorem withoutSpan_of_json (ht : t.StandsIn text) (ht' : t'.StandsIn text')
    (h : t.json = t'.json) : t.withoutSpan = t'.withoutSpan :=
  ht.withoutSpan_eq ht' (lexeme_eq_of_json h)

theorem eq_of_json (ht : t.StandsIn text) (ht' : t'.StandsIn text') (h : t.json = t'.json)
    (hspan : t.span.json = t'.span.json) : t = t' := by
  have hsame := ht.withoutSpan_of_json ht' h
  have hspans := Span.json_injective hspan
  obtain ⟨kind, lexeme, literal, span⟩ := t
  obtain ⟨kind', lexeme', literal', span'⟩ := t'
  simp_all [withoutSpan]

end Token.StandsIn

/-- A type is told by its word, and no word is the one for a type that is left out. -/
theorem TypeRef.relabel_of_json {type type' : TypeRef} (h : (Node.returned type).ReadFrom text)
    (h' : (Node.returned type').ReadFrom text') (hjson : type.json = type'.json) :
    type.relabel Token.withoutSpan = type'.relabel Token.withoutSpan := by
  have hblank : ∀ k : TypeKind, k.spelling ≠ "implicit void" := by
    rintro (s | _)
    · cases s <;> decide
    · decide
  rcases type.word_cases h with rfl | ⟨word, hword, hstands, hlexeme⟩
  · rcases type'.word_cases h' with rfl | ⟨word', hword', -, hlexeme'⟩
    · rfl
    · simp [json, implicitVoid, hword', hlexeme', Token.json, Ne.symm (hblank _)] at hjson
  · rcases type'.word_cases h' with rfl | ⟨word', hword', hstands', hlexeme'⟩
    · simp [json, implicitVoid, hword, hlexeme, Token.json, hblank] at hjson
    · simp only [json, hword, hword', Option.elim_some, Json.object.injEq, List.cons.injEq,
        Prod.mk.injEq, and_true, true_and, Json.number.injEq] at hjson
      obtain ⟨htoken, hrank⟩ := hjson
      have hsame := hstands.withoutSpan_of_json hstands' htoken
      have hlexemes := Token.lexeme_eq_of_json htoken
      rw [hlexeme, hlexeme'] at hlexemes
      have hkind := TypeKind.spelling_injective hlexemes
      simp only [relabel, hword, hword', Option.map_some, hsame, hkind]
      congr 1
      exact_mod_cast hrank

namespace Expr

theorem located_binary {left op right left' op' right'} (hop : op.StandsIn text)
    (hop' : op'.StandsIn text') (hleft : left.json = left'.json → left.located = left'.located)
    (hright : right.json = right'.json → right.located = right'.located)
    (hjson : (Expr.binary left op right).json = (Expr.binary left' op' right').json) :
    (Expr.binary left op right).located = (Expr.binary left' op' right').located := by
  simp only [json, Json.object.injEq, List.cons.injEq, Prod.mk.injEq, and_true, true_and]
    at hjson
  obtain ⟨hl, ho, hr⟩ := hjson
  rw [located, located, hleft hl, hop.withoutSpan_of_json hop' ho, hright hr]

/-- The JSON of an expression tells its sort, and the parts of each sort. -/
theorem located_of_json {e e' : Expr} (h : (Node.value e).ReadFrom text)
    (h' : (Node.value e').ReadFrom text') (hjson : e.json = e'.json) : e.located = e'.located := by
  induction e using Expr.induction generalizing e' with
  | literal t value =>
    cases e' with
    | literal t' value' =>
      obtain ⟨hkind, hvalue⟩ := h.obeys
      obtain ⟨hkind', hvalue'⟩ := h'.obeys
      simp only [json, Json.object.injEq, List.cons.injEq, Prod.mk.injEq, and_true, true_and,
        Json.number.injEq] at hjson
      obtain ⟨hspan, rfl⟩ := hjson
      have ht : t.StandsIn text := h.token List.mem_cons_self
      have ht' : t'.StandsIn text' := h'.token List.mem_cons_self
      rw [ht.eq_of_number ht' hkind hvalue hkind' hvalue' (Span.json_injective hspan)]
    | _ => simp [json] at hjson
  | name t =>
    cases e' with
    | name t' =>
      simp only [json, Json.object.injEq, List.cons.injEq, Prod.mk.injEq, and_true, true_and]
        at hjson
      have ht : t.StandsIn text := h.token List.mem_cons_self
      have ht' : t'.StandsIn text' := h'.token List.mem_cons_self
      rw [ht.eq_of_json ht' hjson.1 hjson.2]
    | _ => simp [json] at hjson
  | element t indices ih =>
    cases e' with
    | element t' indices' =>
      simp only [json, Json.object.injEq, List.cons.injEq, Prod.mk.injEq, and_true, true_and,
        Json.array.injEq, jsons_eq_map] at hjson
      obtain ⟨hindices, hname, hspan⟩ := hjson
      have ht : t.StandsIn text := h.token List.mem_cons_self
      have ht' : t'.StandsIn text' := h'.token List.mem_cons_self
      have hsame : indices.map located = indices'.map located := by
        refine map_eq_map_of_map_eq (fun e he e' he' => ih e he ?_ ?_) hindices
        · exact h.child (by simp [Node.children, children, he])
        · exact h'.child (by simp [Node.children, children, he'])
      rw [located, located, locatedAll_eq_map, locatedAll_eq_map, hsame,
        ht.eq_of_json ht' hname hspan]
    | _ => simp [json] at hjson
  | group inner ih =>
    cases e' with
    | group inner' =>
      simp only [json, Json.object.injEq, List.cons.injEq, Prod.mk.injEq, and_true, true_and]
        at hjson
      have hinner : (Node.value inner).ReadFrom text := h.child List.mem_cons_self
      have hinner' : (Node.value inner').ReadFrom text' := h'.child List.mem_cons_self
      rw [located, located, ih hinner hinner' hjson]
    | _ => simp [json] at hjson
  | call word callee args ih =>
    cases e' with
    | call word' callee' args' =>
      simp only [json, Json.object.injEq, List.cons.injEq, Prod.mk.injEq, and_true, true_and,
        Json.array.injEq, jsons_eq_map] at hjson
      obtain ⟨hargs, hcallee, hspan⟩ := hjson
      have hword : word.StandsIn text := h.token List.mem_cons_self
      have hword' : word'.StandsIn text' := h'.token List.mem_cons_self
      have hname : callee.StandsIn text := h.token (List.mem_cons_of_mem _ List.mem_cons_self)
      have hname' : callee'.StandsIn text' := h'.token (List.mem_cons_of_mem _ List.mem_cons_self)
      have hcall : word.json = word'.json := by
        rw [Token.json, Token.json, hword.lexeme_eq_of_keyword h.obeys.1,
          hword'.lexeme_eq_of_keyword h'.obeys.1]
      have hsame : args.map located = args'.map located := by
        refine map_eq_map_of_map_eq (fun e he e' he' => ih e he ?_ ?_) hargs
        · exact h.child (by simp [Node.children, children, he])
        · exact h'.child (by simp [Node.children, children, he'])
      rw [located, located, locatedAll_eq_map, locatedAll_eq_map, hsame,
        hword.eq_of_json hword' hcall hspan, hname.withoutSpan_of_json hname' hcallee]
    | _ => simp [json] at hjson
  | binary left op right ihleft ihright =>
    cases e' with
    | binary left' op' right' =>
      refine located_binary (h.token List.mem_cons_self) (h'.token List.mem_cons_self)
        (ihleft ?_ ?_) (ihright ?_ ?_) hjson
      · exact h.child (by simp [Node.children, children])
      · exact h'.child (by simp [Node.children, children])
      · exact h.child (by simp [Node.children, children])
      · exact h'.child (by simp [Node.children, children])
    | _ => simp [json] at hjson

/-- A condition is a comparison of two values. -/
theorem located_of_json_of_condition {e e' : Expr} (h : (Node.condition e).ReadFrom text)
    (h' : (Node.condition e').ReadFrom text') (hjson : e.json = e'.json) :
    e.located = e'.located := by
  cases e with
  | binary left op right =>
    cases e' with
    | binary left' op' right' =>
      have hvalue : ∀ inner ∈ [left, right], (Node.value inner).ReadFrom text :=
        fun inner hinner => h.child (List.mem_map_of_mem hinner)
      have hvalue' : ∀ inner ∈ [left', right'], (Node.value inner).ReadFrom text' :=
        fun inner hinner => h'.child (List.mem_map_of_mem hinner)
      simp only [List.forall_mem_cons] at hvalue hvalue'
      exact located_binary (h.token List.mem_cons_self) (h'.token List.mem_cons_self)
        (located_of_json hvalue.1 hvalue'.1) (located_of_json hvalue.2.1 hvalue'.2.1) hjson
    | _ => exact h'.wellFormed.elim
  | _ => exact h.wellFormed.elim

theorem json_ne_array (e : Expr) (vs : List Json) : e.json ≠ .array vs := by
  cases e <;> simp [json]

theorem json_ne_null (e : Expr) : e.json ≠ .null := by
  cases e <;> simp [json]

end Expr

theorem Init.located_of_json {i i' : Init} (h : (Node.init i).ReadFrom text)
    (h' : (Node.init i').ReadFrom text') (hjson : i.json = i'.json) : i.located = i'.located := by
  induction i using Init.induction generalizing i' with
  | value e =>
    cases i' with
    | value e' =>
      have he : (Node.value e).ReadFrom text := h.child List.mem_cons_self
      have he' : (Node.value e').ReadFrom text' := h'.child List.mem_cons_self
      rw [located, located, Expr.located_of_json he he' hjson]
    | braces items' => exact absurd hjson (e.json_ne_array _)
  | braces items ih =>
    cases i' with
    | value e' => exact absurd hjson.symm (e'.json_ne_array _)
    | braces items' =>
      simp only [json, Json.array.injEq, jsons_eq_map] at hjson
      have hsame : items.map located = items'.map located := by
        refine map_eq_map_of_map_eq (fun i hi i' hi' => ih i hi ?_ ?_) hjson
        · exact h.child (by simp [Node.children, hi])
        · exact h'.child (by simp [Node.children, hi'])
      rw [located, located, locatedAll_eq_map, locatedAll_eq_map, hsame]

theorem Init.json_ne_null (i : Init) : i.json ≠ .null := by
  cases i with
  | value e => exact e.json_ne_null
  | braces items => simp [json]

/-- Nothing stands for no initializer but `null`. -/
theorem Decl.located_init {init init' : Option Init}
    (h : ∀ i ∈ init, (Node.init i).ReadFrom text) (h' : ∀ i ∈ init', (Node.init i).ReadFrom text')
    (hjson : init.elim Json.null Init.json = init'.elim Json.null Init.json) :
    init.map Init.located = init'.map Init.located := by
  cases init with
  | none =>
    cases init' with
    | none => rfl
    | some i' => exact absurd hjson.symm i'.json_ne_null
  | some i =>
    cases init' with
    | none => exact absurd hjson i.json_ne_null
    | some i' => exact congrArg some (Init.located_of_json (h i rfl) (h' i' rfl) hjson)

theorem Expr.map_located_of_json {es es' : List Expr}
    (h : ∀ e ∈ es, (Node.value e).ReadFrom text) (h' : ∀ e ∈ es', (Node.value e).ReadFrom text')
    (hjson : es.map Expr.json = es'.map Expr.json) :
    es.map Expr.located = es'.map Expr.located :=
  map_eq_map_of_map_eq (fun e he e' he' => located_of_json (h e he) (h' e' he')) hjson

theorem Decl.located_of_json {d d' : Decl} (h : (Node.decl d).ReadFrom text)
    (h' : (Node.decl d').ReadFrom text') (hjson : d.json = d'.json) : d.located = d'.located := by
  simp only [json, Json.object.injEq, List.cons.injEq, Prod.mk.injEq, and_true, true_and,
    Json.array.injEq, Expr.jsons_eq_map] at hjson
  obtain ⟨hdims, hinit, hnames, htype⟩ := hjson
  have hsametype : d.type.relabel Token.withoutSpan = d'.type.relabel Token.withoutSpan :=
    TypeRef.relabel_of_json (TypeRef.readFrom_returned (h.child (by simp [Node.children])))
      (TypeRef.readFrom_returned (h'.child (by simp [Node.children]))) htype
  have hsamedims : d.dims.map Expr.located = d'.dims.map Expr.located :=
    Expr.map_located_of_json (fun e he => h.child (by simp [Node.children, he]))
      (fun e he => h'.child (by simp [Node.children, he])) hdims
  have hsamenames : d.names.map Token.withoutSpan = d'.names.map Token.withoutSpan :=
    map_eq_map_of_map_eq
      (fun t ht t' ht' => (h.token ht).withoutSpan_of_json (h'.token ht')) hnames
  have hsameinit : d.init.map Init.located = d'.init.map Init.located :=
    located_init (fun i hi => h.child (by simp [Node.children, Option.mem_def.mp hi]))
      (fun i hi => h'.child (by simp [Node.children, Option.mem_def.mp hi])) hinit
  rw [located, located, hsametype, hsamedims, hsamenames, hsameinit]

theorem Target.located_of_json {t t' : Target} (h : (Node.target t).ReadFrom text)
    (h' : (Node.target t').ReadFrom text') (hjson : t.json = t'.json) :
    t.located = t'.located := by
  simp only [json, Json.object.injEq, List.cons.injEq, Prod.mk.injEq, and_true, true_and,
    Json.array.injEq, Expr.jsons_eq_map] at hjson
  obtain ⟨hindices, hname⟩ := hjson
  have hsame : t.indices.map Expr.located = t'.indices.map Expr.located :=
    Expr.map_located_of_json (fun e he => h.child (List.mem_map_of_mem he))
      (fun e he => h'.child (List.mem_map_of_mem he)) hindices
  have ht : t.name.StandsIn text := h.token List.mem_cons_self
  have ht' : t'.name.StandsIn text' := h'.token List.mem_cons_self
  rw [located, located, hsame, ht.withoutSpan_of_json ht' hname]

theorem Assign.located_of_json {a a' : Assign} (h : (Node.assign a).ReadFrom text)
    (h' : (Node.assign a').ReadFrom text') (hjson : a.json = a'.json) :
    a.located = a'.located := by
  simp only [json, Json.object.injEq, List.cons.injEq, Prod.mk.injEq, and_true, true_and]
    at hjson
  obtain ⟨hvalue, htarget⟩ := hjson
  have hsamevalue : a.value.located = a'.value.located :=
    Expr.located_of_json (h.child (by simp [Node.children])) (h'.child (by simp [Node.children]))
      hvalue
  have hsametarget : a.target.located = a'.target.located :=
    Target.located_of_json (h.child (by simp [Node.children]))
      (h'.child (by simp [Node.children])) htarget
  rw [located, located, hsamevalue, hsametarget]

/-- The JSON of a statement tells it apart from the statements of another text. -/
def Stmt.Told (text text' : List Char) (s : Stmt) : Prop :=
  ∀ s' : Stmt, (Node.stmt s).ReadFrom text → (Node.stmt s').ReadFrom text' → s.json = s'.json →
    s.located = s'.located

theorem Stmt.map_located_of_json {body body' : List Stmt} (ih : ∀ s ∈ body, s.Told text text')
    (h : ∀ s ∈ body, (Node.stmt s).ReadFrom text) (h' : ∀ s ∈ body', (Node.stmt s).ReadFrom text')
    (hjson : body.map Stmt.json = body'.map Stmt.json) :
    body.map Stmt.located = body'.map Stmt.located :=
  map_eq_map_of_map_eq (fun s hs s' hs' => ih s hs s' (h s hs) (h' s' hs')) hjson

namespace Tail

/-- No last block is written as `null`, and a block as an array. -/
theorem located_last {last last' : Option (List Stmt)}
    (ih : ∀ body ∈ last, ∀ s ∈ body, s.Told text text')
    (h : ∀ body ∈ last, ∀ s ∈ body, (Node.stmt s).ReadFrom text)
    (h' : ∀ body ∈ last', ∀ s ∈ body, (Node.stmt s).ReadFrom text')
    (hjson : (last.elim Json.null fun body => .array (body.map Stmt.json)) =
      last'.elim Json.null fun body => .array (body.map Stmt.json)) :
    last.map (List.map Stmt.located) = last'.map (List.map Stmt.located) := by
  cases last with
  | none =>
    cases last' with
    | none => rfl
    | some body' => cases hjson
  | some body =>
    cases last' with
    | none => cases hjson
    | some body' =>
      have hbody := Json.array.inj hjson
      exact congrArg some (Stmt.map_located_of_json (ih body rfl) (h body rfl) (h' body' rfl) hbody)

theorem located_of_json {t t' : Tail} (iharms : ∀ arm ∈ t.arms, ∀ s ∈ arm.2, s.Told text text')
    (ihlast : ∀ body ∈ t.last, ∀ s ∈ body, s.Told text text') (h : (Node.tail t).ReadFrom text)
    (h' : (Node.tail t').ReadFrom text') (harms : t.armJsons = t'.armJsons)
    (hlast : t.lastJson = t'.lastJson) : t.located = t'.located := by
  rw [armJsons_eq_map, armJsons_eq_map] at harms
  rw [lastJson_eq_elim, lastJson_eq_elim] at hlast
  rw [located_eq_ofArms, located_eq_ofArms, located_last ihlast h.tail.2 h'.tail.2 hlast]
  congr 1
  refine map_eq_map_of_map_eq (fun arm harm arm' harm' hjson => ?_) harms
  simp only [armJson, Json.object.injEq, List.cons.injEq, Prod.mk.injEq, and_true, true_and,
    Json.array.injEq] at hjson
  obtain ⟨hbody, hcondition⟩ := hjson
  obtain ⟨hread, hreadbody⟩ := h.tail.1 arm harm
  obtain ⟨hread', hreadbody'⟩ := h'.tail.1 arm' harm'
  rw [Expr.located_of_json_of_condition hread hread' hcondition,
    Stmt.map_located_of_json (iharms arm harm) hreadbody hreadbody' hbody]

end Tail

/-- The JSON of a statement tells its sort, and the parts of each sort. -/
theorem Stmt.told (s : Stmt) : s.Told text text' := by
  induction s using Stmt.induction with
  | declare d =>
    intro s' h h' hjson
    cases s' with
    | declare d' =>
      have hd : (Node.decl d).ReadFrom text := h.child List.mem_cons_self
      have hd' : (Node.decl d').ReadFrom text' := h'.child List.mem_cons_self
      rw [located, located, Decl.located_of_json hd hd' hjson]
    | _ => simp [json, Decl.json, Assign.json] at hjson
  | ret value =>
    intro s' h h' hjson
    cases s' with
    | ret value' =>
      simp only [json, Json.object.injEq, List.cons.injEq, Prod.mk.injEq, and_true, true_and]
        at hjson
      have hvalue : (Node.value value).ReadFrom text := h.child List.mem_cons_self
      have hvalue' : (Node.value value').ReadFrom text' := h'.child List.mem_cons_self
      rw [located, located, Expr.located_of_json hvalue hvalue' hjson]
    | _ => simp [json, Decl.json, Assign.json] at hjson
  | assign a =>
    intro s' h h' hjson
    cases s' with
    | assign a' =>
      have ha : (Node.assign a).ReadFrom text := h.child List.mem_cons_self
      have ha' : (Node.assign a').ReadFrom text' := h'.child List.mem_cons_self
      rw [located, located, Assign.located_of_json ha ha' hjson]
    | _ => simp [json, Decl.json, Assign.json] at hjson
  | call c =>
    intro s' h h' hjson
    cases s' with
    | call c' =>
      simp only [json, Json.object.injEq, List.cons.injEq, Prod.mk.injEq, and_true, true_and]
        at hjson
      have hc : (Node.value c.expr).ReadFrom text := h.child List.mem_cons_self
      have hc' : (Node.value c'.expr).ReadFrom text' := h'.child List.mem_cons_self
      have hsame := Expr.located_of_json hc hc' hjson
      simp only [Call.expr, Expr.located, Expr.call.injEq, Expr.locatedAll_eq_map] at hsame
      obtain ⟨hword, hcallee, hargs⟩ := hsame
      rw [located, located, Call.located, Call.located, hword, hcallee, hargs]
    | _ => simp [json, Decl.json, Assign.json] at hjson
  | branch condition body tail ihbody iharms ihlast =>
    intro s' h h' hjson
    cases s' with
    | branch condition' body' tail' =>
      simp only [json, armJson, Json.object.injEq, List.cons.injEq, Prod.mk.injEq, and_true,
        true_and, Json.array.injEq, jsons_eq_map] at hjson
      obtain ⟨hlast, ⟨hbody, hcondition⟩, harms⟩ := hjson
      have hsamecondition : condition.located = condition'.located :=
        Expr.located_of_json_of_condition (h.child (by simp [Node.children]))
          (h'.child (by simp [Node.children])) hcondition
      have hsamebody : body.map located = body'.map located :=
        map_located_of_json ihbody (fun s hs => h.child (by simp [Node.children, hs]))
          (fun s hs => h'.child (by simp [Node.children, hs])) hbody
      have hsametail : tail.located = tail'.located :=
        Tail.located_of_json iharms ihlast (h.child (by simp [Node.children]))
          (h'.child (by simp [Node.children])) harms hlast
      rw [located, located, locatedAll_eq_map, locatedAll_eq_map, hsamecondition, hsamebody,
        hsametail]
    | _ => simp [json, Decl.json, Assign.json] at hjson
  | rangeLoop var start stop body ih =>
    intro s' h h' hjson
    cases s' with
    | rangeLoop var' start' stop' body' =>
      simp only [json, Json.object.injEq, List.cons.injEq, Prod.mk.injEq, and_true, true_and,
        Json.array.injEq, jsons_eq_map] at hjson
      obtain ⟨hbody, hstart, hstop, hvar⟩ := hjson
      have hname : var.StandsIn text := h.token List.mem_cons_self
      have hname' : var'.StandsIn text' := h'.token List.mem_cons_self
      have hsamestart : start.located = start'.located :=
        Expr.located_of_json (h.child (by simp [Node.children]))
          (h'.child (by simp [Node.children])) hstart
      have hsamestop : stop.located = stop'.located :=
        Expr.located_of_json (h.child (by simp [Node.children]))
          (h'.child (by simp [Node.children])) hstop
      have hsamebody : body.map located = body'.map located :=
        map_located_of_json ih (fun s hs => h.child (by simp [Node.children, hs]))
          (fun s hs => h'.child (by simp [Node.children, hs])) hbody
      rw [located, located, locatedAll_eq_map, locatedAll_eq_map, hsamebody, hsamestart,
        hsamestop, hname.withoutSpan_of_json hname' hvar]
    | _ => simp [json, Decl.json, Assign.json] at hjson
  | stepLoop init condition step body ih =>
    intro s' h h' hjson
    cases s' with
    | stepLoop init' condition' step' body' =>
      simp only [json, Json.object.injEq, List.cons.injEq, Prod.mk.injEq, and_true, true_and,
        Json.array.injEq, jsons_eq_map] at hjson
      obtain ⟨hbody, hcondition, hinit, hstep⟩ := hjson
      have hsameinit : init.located = init'.located :=
        Decl.located_of_json (h.child (by simp [Node.children]))
          (h'.child (by simp [Node.children])) hinit
      have hsamecondition : condition.located = condition'.located :=
        Expr.located_of_json_of_condition (h.child (by simp [Node.children]))
          (h'.child (by simp [Node.children])) hcondition
      have hsamestep : step.located = step'.located :=
        Assign.located_of_json (h.child (by simp [Node.children]))
          (h'.child (by simp [Node.children])) hstep
      have hsamebody : body.map located = body'.map located :=
        map_located_of_json ih (fun s hs => h.child (by simp [Node.children, hs]))
          (fun s hs => h'.child (by simp [Node.children, hs])) hbody
      rw [located, located, locatedAll_eq_map, locatedAll_eq_map, hsamebody, hsamecondition,
        hsameinit, hsamestep]
    | _ => simp [json, Decl.json, Assign.json] at hjson
  | whileLoop condition body ih =>
    intro s' h h' hjson
    cases s' with
    | whileLoop condition' body' =>
      simp only [json, Json.object.injEq, List.cons.injEq, Prod.mk.injEq, and_true, true_and,
        Json.array.injEq, jsons_eq_map] at hjson
      obtain ⟨hbody, hcondition⟩ := hjson
      have hsamecondition : condition.located = condition'.located :=
        Expr.located_of_json_of_condition (h.child (by simp [Node.children]))
          (h'.child (by simp [Node.children])) hcondition
      have hsamebody : body.map located = body'.map located :=
        map_located_of_json ih (fun s hs => h.child (by simp [Node.children, hs]))
          (fun s hs => h'.child (by simp [Node.children, hs])) hbody
      rw [located, located, locatedAll_eq_map, locatedAll_eq_map, hsamebody, hsamecondition]
    | _ => simp [json, Decl.json, Assign.json] at hjson

theorem Stmt.located_of_json {s s' : Stmt} (h : (Node.stmt s).ReadFrom text)
    (h' : (Node.stmt s').ReadFrom text') (hjson : s.json = s'.json) : s.located = s'.located :=
  s.told s' h h' hjson

theorem Param.relabel_of_json {p p' : Param} (h : (Node.param p).ReadFrom text)
    (h' : (Node.param p').ReadFrom text') (hjson : p.json = p'.json) :
    p.relabel Token.withoutSpan = p'.relabel Token.withoutSpan := by
  simp only [json, Json.object.injEq, List.cons.injEq, Prod.mk.injEq, and_true, true_and]
    at hjson
  obtain ⟨hname, htype⟩ := hjson
  have ht : p.name.StandsIn text := h.token List.mem_cons_self
  have ht' : p'.name.StandsIn text' := h'.token List.mem_cons_self
  have hsametype : p.type.relabel Token.withoutSpan = p'.type.relabel Token.withoutSpan :=
    TypeRef.relabel_of_json (TypeRef.readFrom_returned (h.child List.mem_cons_self))
      (TypeRef.readFrom_returned (h'.child List.mem_cons_self)) htype
  rw [relabel, relabel, ht.withoutSpan_of_json ht' hname, hsametype]

theorem Func.located_of_json {f f' : Func} (h : (Node.func f).ReadFrom text)
    (h' : (Node.func f').ReadFrom text') (hjson : f.json = f'.json) : f.located = f'.located := by
  simp only [json, Json.object.injEq, List.cons.injEq, Prod.mk.injEq, and_true, true_and,
    Json.array.injEq, Stmt.jsons_eq_map] at hjson
  obtain ⟨hbody, hname, hparams, hspan, hreturns⟩ := hjson
  have ht : f.name.StandsIn text := h.token List.mem_cons_self
  have ht' : f'.name.StandsIn text' := h'.token List.mem_cons_self
  have hsameparams : f.params.map (Param.relabel Token.withoutSpan) =
      f'.params.map (Param.relabel Token.withoutSpan) := by
    have hread : ∀ p ∈ f.params, (Node.param p).ReadFrom text :=
      fun p hp => h.child (by simp [Node.children, hp])
    have hread' : ∀ p ∈ f'.params, (Node.param p).ReadFrom text' :=
      fun p hp => h'.child (by simp [Node.children, hp])
    exact map_eq_map_of_map_eq
      (fun p hp p' hp' => Param.relabel_of_json (hread p hp) (hread' p' hp')) hparams
  have hsamereturns : f.returns.relabel Token.withoutSpan = f'.returns.relabel Token.withoutSpan :=
    TypeRef.relabel_of_json (h.child (by simp [Node.children]))
      (h'.child (by simp [Node.children])) hreturns
  have hsamebody : f.body.map Stmt.located = f'.body.map Stmt.located :=
    Stmt.map_located_of_json (fun s _ => s.told)
      (fun s hs => h.child (by simp [Node.children, hs]))
      (fun s hs => h'.child (by simp [Node.children, hs])) hbody
  rw [located, located, ht.eq_of_json ht' hname hspan, hsameparams, hsamereturns, hsamebody]

theorem Item.located_of_json {i i' : Item} (h : (Node.item i).ReadFrom text)
    (h' : (Node.item i').ReadFrom text') (hjson : i.json = i'.json) : i.located = i'.located := by
  cases i with
  | declare d =>
    cases i' with
    | declare d' =>
      simp only [json, Json.object.injEq, List.cons.injEq, Prod.mk.injEq, and_true, true_and]
        at hjson
      have hd : (Node.decl d).ReadFrom text := h.child List.mem_cons_self
      have hd' : (Node.decl d').ReadFrom text' := h'.child List.mem_cons_self
      rw [located, located, Decl.located_of_json hd hd' hjson]
    | _ => simp [json, Func.json] at hjson
  | stmt s =>
    cases i' with
    | stmt s' =>
      simp only [json, Json.object.injEq, List.cons.injEq, Prod.mk.injEq, and_true, true_and]
        at hjson
      have hs : (Node.stmt s).ReadFrom text := h.child List.mem_cons_self
      have hs' : (Node.stmt s').ReadFrom text' := h'.child List.mem_cons_self
      rw [located, located, Stmt.located_of_json hs hs' hjson]
    | _ => simp [json, Func.json] at hjson
  | func f =>
    cases i' with
    | func f' =>
      have hf : (Node.func f).ReadFrom text := h.child List.mem_cons_self
      have hf' : (Node.func f').ReadFrom text' := h'.child List.mem_cons_self
      rw [located, located, Func.located_of_json hf hf' hjson]
    | _ => simp [json, Func.json] at hjson

end Pairs

namespace Program

/-- The JSON of a program tells its tree, up to the spans that no position in it gives. -/
theorem located_of_json_eq {source source' : String} {p p' : Program} (h : ofText source = .ok p)
    (h' : ofText source' = .ok p') (hjson : p.json = p'.json) : p.located = p'.located := by
  have hread : ∀ i ∈ p.items, (Node.item i).ReadFrom source.toList :=
    fun i hi => (readFrom_of_ofText h).child (List.mem_map_of_mem hi)
  have hread' : ∀ i ∈ p'.items, (Node.item i).ReadFrom source'.toList :=
    fun i hi => (readFrom_of_ofText h').child (List.mem_map_of_mem hi)
  simp only [json, Json.object.injEq, List.cons.injEq, Prod.mk.injEq, and_true, true_and,
    Json.array.injEq] at hjson
  have hitems : p.items.map Item.located = p'.items.map Item.located :=
    map_eq_map_of_map_eq
      (fun i hi i' hi' => Item.located_of_json (hread i hi) (hread' i' hi')) hjson
  rw [located, located, hitems]

theorem located_of_json_eq_declaration :
    let source := "int x;"
    let source' := "int\n x ;"
    let int (span : Span) : Token := ⟨.keyword (.scalar .int), "int", none, span⟩
    let x (span : Span) : Token := ⟨.name, "x", none, span⟩
    let declaration (word name : Token) : Program :=
      ⟨[.declare ⟨⟨.scalar .int, some word, 0⟩, [], [name], none⟩]⟩
    let p := declaration (int ⟨1, 1, 3⟩) (x ⟨1, 5, 5⟩)
    let p' := declaration (int ⟨1, 1, 3⟩) (x ⟨2, 2, 2⟩)
    ofText source = .ok p ∧ ofText source' = .ok p' ∧ p.json = p'.json ∧
      p.located = p'.located := by
  intro source source' int x declaration p p'
  have htokens : tokenize source = .ok [int ⟨1, 1, 3⟩, x ⟨1, 5, 5⟩,
      ⟨.symbol .semicolon, ";", none, ⟨1, 6, 6⟩⟩, .endOfInput (.point 1 7)] := by decide
  have htokens' : tokenize source' = .ok [int ⟨1, 1, 3⟩, ⟨.newline, "\n", none, ⟨1, 4, 4⟩⟩,
      x ⟨2, 2, 2⟩, ⟨.symbol .semicolon, ";", none, ⟨2, 4, 4⟩⟩, .endOfInput (.point 2 5)] := by
    decide
  have h : ofText source = .ok p := ofText_eq_ok_iff.mpr ⟨_, htokens, rfl⟩
  have h' : ofText source' = .ok p' := ofText_eq_ok_iff.mpr ⟨_, htokens', rfl⟩
  have hjson : p.json = p'.json := rfl
  exact ⟨h, h', hjson, located_of_json_eq h h' hjson⟩

end Program
end Jam
