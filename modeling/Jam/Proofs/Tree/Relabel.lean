import Jam.Proofs.Tree.Unparse
import Jam.Proofs.Tree.WellFormed

/-!
Another token in each place of a tree. The tree keeps its shape, so it is written in the same way,
and it stays well-formed as long as no token changes its kind or its value. Without their spans,
trees say nothing of where they stand in a text.
-/
namespace Jam

mutual

def Expr.relabel (f : Token → Token) : Expr → Expr
  | .literal t value => .literal (f t) value
  | .name t => .name (f t)
  | .element t indices => .element (f t) (Expr.relabelAll f indices)
  | .group inner => .group (inner.relabel f)
  | .call word callee args => .call (f word) (f callee) (Expr.relabelAll f args)
  | .binary left op right => .binary (left.relabel f) (f op) (right.relabel f)

def Expr.relabelAll (f : Token → Token) : List Expr → List Expr
  | [] => []
  | e :: rest => e.relabel f :: Expr.relabelAll f rest

end

def Call.relabel (f : Token → Token) (c : Call) : Call :=
  ⟨f c.keyword, f c.callee, c.args.map (Expr.relabel f)⟩

def TypeRef.relabel (f : Token → Token) (t : TypeRef) : TypeRef := { t with word := t.word.map f }

mutual

def Init.relabel (f : Token → Token) : Init → Init
  | .value e => .value (e.relabel f)
  | .braces items => .braces (Init.relabelAll f items)

def Init.relabelAll (f : Token → Token) : List Init → List Init
  | [] => []
  | i :: rest => i.relabel f :: Init.relabelAll f rest

end

def Decl.relabel (f : Token → Token) (d : Decl) : Decl :=
  ⟨d.type.relabel f, d.dims.map (Expr.relabel f), d.names.map f, d.init.map (Init.relabel f)⟩

def Target.relabel (f : Token → Token) (t : Target) : Target :=
  ⟨f t.name, t.indices.map (Expr.relabel f)⟩

def Assign.relabel (f : Token → Token) (a : Assign) : Assign :=
  ⟨a.value.relabel f, a.target.relabel f⟩

mutual

def Stmt.relabel (f : Token → Token) : Stmt → Stmt
  | .declare d => .declare (d.relabel f)
  | .ret value => .ret (value.relabel f)
  | .assign a => .assign (a.relabel f)
  | .call c => .call (c.relabel f)
  | .branch condition body tail =>
    .branch (condition.relabel f) (Stmt.relabelAll f body) (tail.relabel f)
  | .rangeLoop var start stop body =>
    .rangeLoop (f var) (start.relabel f) (stop.relabel f) (Stmt.relabelAll f body)
  | .stepLoop init condition step body =>
    .stepLoop (init.relabel f) (condition.relabel f) (step.relabel f) (Stmt.relabelAll f body)
  | .whileLoop condition body => .whileLoop (condition.relabel f) (Stmt.relabelAll f body)

def Stmt.relabelAll (f : Token → Token) : List Stmt → List Stmt
  | [] => []
  | s :: rest => s.relabel f :: Stmt.relabelAll f rest

def Tail.relabel (f : Token → Token) : Tail → Tail
  | .nothing => .nothing
  | .otherwise body => .otherwise (Stmt.relabelAll f body)
  | .orIf condition body tail =>
    .orIf (condition.relabel f) (Stmt.relabelAll f body) (tail.relabel f)

end

def Param.relabel (f : Token → Token) (p : Param) : Param := ⟨f p.name, p.type.relabel f⟩

def Func.relabel (f : Token → Token) (fn : Func) : Func :=
  ⟨f fn.name, fn.params.map (Param.relabel f), fn.returns.relabel f,
    fn.body.map (Stmt.relabel f)⟩

def Item.relabel (f : Token → Token) : Item → Item
  | .declare d => .declare (d.relabel f)
  | .stmt s => .stmt (s.relabel f)
  | .func fn => .func (fn.relabel f)

def Program.relabel (f : Token → Token) (p : Program) : Program := ⟨p.items.map (Item.relabel f)⟩

/-- The token, wherever it stands. -/
def Token.withoutSpan (t : Token) : Token := { t with span := .origin }

/-- The tree, wherever its tokens stand. -/
def Program.withoutSpans (p : Program) : Program := p.relabel Token.withoutSpan

def Slot.relabel (f : Token → Token) : Slot → Slot
  | kept t => kept (f t)
  | s => s

theorem Expr.relabelAll_eq_map (f : Token → Token) (es : List Expr) :
    Expr.relabelAll f es = es.map (Expr.relabel f) := by
  induction es with
  | nil => rfl
  | cons e es ih => rw [Expr.relabelAll, List.map_cons, ih]

theorem Init.relabelAll_eq_map (f : Token → Token) (is : List Init) :
    Init.relabelAll f is = is.map (Init.relabel f) := by
  induction is with
  | nil => rfl
  | cons i is ih => rw [Init.relabelAll, List.map_cons, ih]

theorem Stmt.relabelAll_eq_map (f : Token → Token) (ss : List Stmt) :
    Stmt.relabelAll f ss = ss.map (Stmt.relabel f) := by
  induction ss with
  | nil => rfl
  | cons s ss ih => rw [Stmt.relabelAll, List.map_cons, ih]

theorem Tail.relabel_ofArms (f : Token → Token) (arms : List (Expr × List Stmt))
    (last : Option (List Stmt)) :
    (Tail.ofArms arms last).relabel f =
      .ofArms (arms.map fun arm => (arm.1.relabel f, arm.2.map (Stmt.relabel f)))
        (last.map (List.map (Stmt.relabel f))) := by
  induction arms with
  | nil =>
    cases last with
    | none => rfl
    | some body => exact congrArg Tail.otherwise (Stmt.relabelAll_eq_map f body)
  | cons arm arms ih =>
    rw [Tail.ofArms] at ih
    rw [Tail.ofArms, List.foldr_cons, Tail.relabel, ih, Stmt.relabelAll_eq_map]
    rfl

section

variable (f : Token → Token)

/-- Changing what is written is changing the row. -/
theorem map_relabel_flatMap {α : Type} {as : List α} {g : α → List Slot} {h : α → α}
    (hg : ∀ a ∈ as, g (h a) = (g a).map (Slot.relabel f)) :
    (as.map h).flatMap g = (as.flatMap g).map (Slot.relabel f) := by
  rw [List.flatMap_map, List.map_flatMap]
  exact List.flatMap_congr hg

theorem map_relabel_bracketed (row : List Slot) :
    (Slot.bracketed row).map (Slot.relabel f) = Slot.bracketed (row.map (Slot.relabel f)) := by
  simp [Slot.bracketed, Slot.relabel]

theorem map_relabel_grouped (row : List Slot) :
    (Slot.grouped row).map (Slot.relabel f) = Slot.grouped (row.map (Slot.relabel f)) := by
  simp [Slot.grouped, Slot.relabel]

theorem map_relabel_braced (row : List Slot) :
    (Slot.braced row).map (Slot.relabel f) = Slot.braced (row.map (Slot.relabel f)) := by
  simp [Slot.braced, Slot.relabel]

theorem map_relabel_commas {α : Type} {as : List α} {g : α → List Slot} {h : α → α}
    (hg : ∀ a ∈ as, g (h a) = (g a).map (Slot.relabel f)) :
    Slot.commas ((as.map h).map g) = (Slot.commas (as.map g)).map (Slot.relabel f) := by
  cases as with
  | nil => rfl
  | cons a as =>
    rw [List.forall_mem_cons] at hg
    have hothers : (as.map h).flatMap (fun a => .symbol .comma :: g a) =
        (as.flatMap fun a => .symbol .comma :: g a).map (Slot.relabel f) :=
      map_relabel_flatMap f fun a ha => congrArg (List.cons _) (hg.2 a ha)
    rw [List.flatMap_map] at hothers
    simp only [List.map_cons, Slot.commas, List.map_append, hg.1, List.flatMap_map, hothers]

theorem Expr.unparse_relabel (e : Expr) :
    (e.relabel f).unparse = e.unparse.map (Slot.relabel f) := by
  induction e using Expr.induction with
  | literal t value => rfl
  | name t => rfl
  | element t indices ih =>
    rw [Expr.relabel, Expr.relabelAll_eq_map, Expr.unparse_element, Expr.unparse_element,
      List.map_cons]
    refine congrArg (List.cons _) (map_relabel_flatMap f fun e he => ?_)
    rw [ih e he, map_relabel_bracketed]
  | group inner ih => rw [Expr.relabel, Expr.unparse, Expr.unparse, ih, map_relabel_grouped]
  | call word callee args ih =>
    rw [Expr.relabel, Expr.relabelAll_eq_map, Expr.unparse_call, Expr.unparse_call,
      map_relabel_commas f ih]
    simp only [List.map_cons, map_relabel_grouped]
    rfl
  | binary left op right ihleft ihright =>
    rw [Expr.relabel, Expr.unparse, Expr.unparse, ihleft, ihright, List.map_append, List.map_cons]
    rfl

theorem Call.unparse_relabel (c : Call) :
    (c.relabel f).unparse = c.unparse.map (Slot.relabel f) := by
  have h := Expr.unparse_relabel f c.expr
  rwa [Call.expr, Expr.relabel, Expr.relabelAll_eq_map] at h

theorem Init.unparse_relabel (i : Init) :
    (i.relabel f).unparse = i.unparse.map (Slot.relabel f) := by
  induction i using Init.induction with
  | value e => exact Expr.unparse_relabel f e
  | braces items ih =>
    rw [Init.relabel, Init.relabelAll_eq_map, Init.unparse_braces, Init.unparse_braces,
      map_relabel_commas f ih, map_relabel_braced]

theorem map_relabel_arrayWord (n : Nat) :
    (Slot.arrayWord n).map (Slot.relabel f) = Slot.arrayWord n := by
  cases n with
  | zero => rfl
  | succ n => rfl

theorem map_relabel_word (word : Option Token) :
    (word.map f).toList.map Slot.kept = (word.toList.map Slot.kept).map (Slot.relabel f) := by
  cases word with
  | none => rfl
  | some word => rfl

theorem TypeRef.unparse_relabel (t : TypeRef) :
    (t.relabel f).unparse = t.unparse.map (Slot.relabel f) := by
  simp only [TypeRef.unparse, TypeRef.relabel, List.map_append, map_relabel_arrayWord,
    map_relabel_word, List.map_flatten, List.map_replicate, map_relabel_bracketed, List.map_nil]

theorem Decl.unparse_relabel (d : Decl) :
    (d.relabel f).unparse = d.unparse.map (Slot.relabel f) := by
  obtain ⟨type, dims, names, init⟩ := d
  have hdims : (dims.map (Expr.relabel f)).flatMap (fun e => Slot.bracketed e.unparse) =
      (dims.flatMap fun e => Slot.bracketed e.unparse).map (Slot.relabel f) := by
    refine map_relabel_flatMap f fun e _ => ?_
    rw [Expr.unparse_relabel, map_relabel_bracketed]
  have hinit : ((init.map (Init.relabel f)).elim [] fun i => .symbol .assign :: i.unparse) =
      (init.elim [] fun i => .symbol .assign :: i.unparse).map (Slot.relabel f) := by
    cases init with
    | none => rfl
    | some i => exact congrArg (List.cons _) (Init.unparse_relabel f i)
  have hnames : ∀ row, unparseNames (row.map (Slot.relabel f)) (names.map f) =
      (unparseNames row names).map (Slot.relabel f) := by
    intro row
    cases names with
    | nil => rfl
    | cons first others =>
      simp only [List.map_cons, unparseNames, List.map_append, List.flatMap_map, List.map_flatMap]
      rfl
  simp only [Decl.unparse, Decl.relabel, TypeRef.relabel, List.map_append, map_relabel_arrayWord,
    map_relabel_word, hdims, hinit, hnames]
  rfl

theorem Target.unparse_relabel (t : Target) :
    (t.relabel f).unparse = t.unparse.map (Slot.relabel f) := by
  rw [Target.unparse, Target.unparse, List.map_cons]
  refine congrArg (List.cons _) (map_relabel_flatMap f fun e _ => ?_)
  rw [Expr.unparse_relabel, map_relabel_bracketed]

theorem Assign.unparse_relabel (a : Assign) :
    (a.relabel f).unparse = a.unparse.map (Slot.relabel f) := by
  simp only [Assign.unparse, Assign.relabel, Expr.unparse_relabel, Target.unparse_relabel,
    List.map_append, List.map_cons]
  rfl

theorem Stmt.unparses_relabel {body : List Stmt}
    (h : ∀ s ∈ body, (s.relabel f).unparse = s.unparse.map (Slot.relabel f)) :
    Stmt.unparses (Stmt.relabelAll f body) = (Stmt.unparses body).map (Slot.relabel f) := by
  rw [Stmt.relabelAll_eq_map, Stmt.unparses_eq_flatMap, Stmt.unparses_eq_flatMap]
  exact map_relabel_flatMap f h

theorem unparseArm_relabel {condition : Expr} {body : List Stmt}
    (h : ∀ s ∈ body, (s.relabel f).unparse = s.unparse.map (Slot.relabel f)) :
    unparseArm (condition.relabel f).unparse (Stmt.unparses (Stmt.relabelAll f body)) =
      (unparseArm condition.unparse (Stmt.unparses body)).map (Slot.relabel f) := by
  simp only [unparseArm, Expr.unparse_relabel, Stmt.unparses_relabel f h, List.map_append,
    map_relabel_grouped, map_relabel_braced]

theorem Tail.unparse_relabel {arms : List (Expr × List Stmt)} {last : Option (List Stmt)}
    (harms : ∀ arm ∈ arms, ∀ s ∈ arm.2, (s.relabel f).unparse = s.unparse.map (Slot.relabel f))
    (hlast : ∀ body ∈ last, ∀ s ∈ body,
      (s.relabel f).unparse = s.unparse.map (Slot.relabel f)) :
    ((Tail.ofArms arms last).relabel f).unparse =
      (Tail.ofArms arms last).unparse.map (Slot.relabel f) := by
  have hothers : (arms.map fun arm => (arm.1.relabel f, arm.2.map (Stmt.relabel f))).flatMap
      (fun arm => .keyword .or_ :: .keyword .if_ ::
        unparseArm arm.1.unparse (Stmt.unparses arm.2)) =
      (arms.flatMap fun arm => .keyword .or_ :: .keyword .if_ ::
        unparseArm arm.1.unparse (Stmt.unparses arm.2)).map (Slot.relabel f) := by
    refine map_relabel_flatMap f fun arm harm => ?_
    have h : unparseArm (arm.1.relabel f).unparse (Stmt.unparses (Stmt.relabelAll f arm.2)) =
        (unparseArm arm.1.unparse (Stmt.unparses arm.2)).map (Slot.relabel f) :=
      unparseArm_relabel f (harms arm harm)
    rw [Stmt.relabelAll_eq_map] at h
    rw [h]
    rfl
  have hended : ((last.map (List.map (Stmt.relabel f))).elim []
      fun body => .keyword .else_ :: Slot.braced (Stmt.unparses body)) =
      (last.elim [] fun body =>
        .keyword .else_ :: Slot.braced (Stmt.unparses body)).map (Slot.relabel f) := by
    cases last with
    | none => rfl
    | some body =>
      rw [Option.map_some, Option.elim_some, Option.elim_some, ← Stmt.relabelAll_eq_map,
        Stmt.unparses_relabel f (hlast body rfl), List.map_cons, map_relabel_braced]
      rfl
  rw [Tail.relabel_ofArms, Tail.unparse_ofArms, Tail.unparse_ofArms, List.map_append, hothers,
    hended]

theorem Stmt.unparse_relabel (s : Stmt) :
    (s.relabel f).unparse = s.unparse.map (Slot.relabel f) := by
  induction s using Stmt.induction with
  | declare d => exact Decl.unparse_relabel f d
  | ret value =>
    simp only [Stmt.relabel, Stmt.unparse, Expr.unparse_relabel, List.map_cons, List.map_append]
    rfl
  | assign a =>
    simp only [Stmt.relabel, Stmt.unparse, Assign.unparse_relabel, List.map_append]
    rfl
  | call c =>
    simp only [Stmt.relabel, Stmt.unparse, Call.unparse_relabel, List.map_append]
    rfl
  | branch condition body tail ihbody iharms ihlast =>
    have htail := Tail.unparse_relabel f iharms ihlast
    rw [tail.ofArms_arms_last] at htail
    simp only [Stmt.relabel, Stmt.unparse, unparseArm_relabel f ihbody, htail, List.map_cons,
      List.map_append]
    rfl
  | rangeLoop var start stop body ih =>
    simp only [Stmt.relabel, Stmt.unparse, Expr.unparse_relabel, Stmt.unparses_relabel f ih,
      List.map_cons, List.map_append, map_relabel_braced]
    rfl
  | stepLoop init condition step body ih =>
    simp only [Stmt.relabel, Stmt.unparse, Decl.unparse_relabel, Expr.unparse_relabel,
      Assign.unparse_relabel, Stmt.unparses_relabel f ih, List.map_cons, List.map_append,
      map_relabel_braced]
    rfl
  | whileLoop condition body ih =>
    simp only [Stmt.relabel, Stmt.unparse, unparseArm_relabel f ih, List.map_cons]
    rfl

theorem Param.unparse_relabel (p : Param) :
    (p.relabel f).unparse = p.unparse.map (Slot.relabel f) := by
  simp only [Param.unparse, Param.relabel, TypeRef.unparse_relabel, List.map_append]
  rfl

theorem Func.unparse_relabel (fn : Func) :
    (fn.relabel f).unparse = fn.unparse.map (Slot.relabel f) := by
  have hparams : Slot.commas ((fn.params.map (Param.relabel f)).map Param.unparse) =
      (Slot.commas (fn.params.map Param.unparse)).map (Slot.relabel f) :=
    map_relabel_commas f fun p _ => Param.unparse_relabel f p
  have hbody : Stmt.unparses (fn.body.map (Stmt.relabel f)) =
      (Stmt.unparses fn.body).map (Slot.relabel f) := by
    rw [← Stmt.relabelAll_eq_map]
    exact Stmt.unparses_relabel f fun s _ => Stmt.unparse_relabel f s
  simp only [Func.unparse, Func.relabel, TypeRef.unparse_relabel, hparams, hbody, List.map_cons,
    List.map_append, map_relabel_grouped, map_relabel_braced]
  rfl

theorem Item.unparse_relabel (i : Item) :
    (i.relabel f).unparse = i.unparse.map (Slot.relabel f) := by
  cases i with
  | declare d => exact Decl.unparse_relabel f d
  | stmt s => exact Stmt.unparse_relabel f s
  | func fn => exact Func.unparse_relabel f fn

/-- A relabelled tree is written as before, with the new tokens. -/
theorem Program.unparse_relabel (p : Program) :
    (p.relabel f).unparse = p.unparse.map (Slot.relabel f) :=
  map_relabel_flatMap f fun i _ => Item.unparse_relabel f i

end

theorem forall_mem_map_of {α β : Type} {P : α → Prop} {Q : β → Prop} {as : List α} {g : α → β}
    (h : ∀ a ∈ as, P a) (hg : ∀ a ∈ as, P a → Q (g a)) : ∀ b ∈ as.map g, Q b := by
  intro b hb
  obtain ⟨a, ha, rfl⟩ := List.mem_map.mp hb
  exact hg a ha (h a ha)

section

variable {f : Token → Token} (hf : ∀ t, (f t).kind = t.kind ∧ (f t).literal = t.literal)

theorem Expr.isOperand_relabel (e : Expr) : (e.relabel f).IsOperand ↔ e.IsOperand := by
  cases e <;> rfl

include hf

theorem Expr.wellFormed_relabel {e : Expr} (he : e.WellFormed) : (e.relabel f).WellFormed := by
  induction e using Expr.induction with
  | literal t value =>
    obtain ⟨hkind, hvalue⟩ := he
    exact ⟨(hf t).1.trans hkind, (hf t).2.trans hvalue⟩
  | name t => exact (hf t).1.trans he
  | element t indices ih =>
    obtain ⟨ht, hne, hindices⟩ := he
    rw [Expr.allWellFormed_iff] at hindices
    rw [Expr.relabel, Expr.relabelAll_eq_map]
    refine ⟨(hf t).1.trans ht, by simpa using hne, Expr.allWellFormed_iff.mpr ?_⟩
    exact forall_mem_map_of hindices ih
  | group inner ih => exact ih he
  | call word callee args ih =>
    obtain ⟨hword, hcallee, hargs⟩ := he
    rw [Expr.allWellFormed_iff] at hargs
    rw [Expr.relabel, Expr.relabelAll_eq_map]
    refine ⟨(hf word).1.trans hword, (hf callee).1.trans hcallee, Expr.allWellFormed_iff.mpr ?_⟩
    exact forall_mem_map_of hargs ih
  | binary left op right ihleft ihright =>
    obtain ⟨hop, ⟨hl, hleft⟩, hr, hright⟩ := he
    refine ⟨(hf op).1 ▸ hop, ⟨?_, ihleft hleft⟩, ?_, ihright hright⟩
    · exact (Expr.isOperand_relabel left).mpr hl
    · exact (Expr.isOperand_relabel right).mpr hr

theorem Expr.isCondition_relabel {e : Expr} (he : e.IsCondition) :
    (e.relabel f).IsCondition := by
  cases e with
  | binary left op right =>
    obtain ⟨hop, hleft, hright⟩ := he
    exact ⟨(hf op).1 ▸ hop, Expr.wellFormed_relabel hf hleft, Expr.wellFormed_relabel hf hright⟩
  | _ => exact he.elim

theorem Call.wellFormed_relabel {c : Call} (hc : c.WellFormed) : (c.relabel f).WellFormed := by
  have h := Expr.wellFormed_relabel hf hc
  rwa [Call.expr, Expr.relabel, Expr.relabelAll_eq_map] at h

theorem TypeRef.isOfValue_relabel {t : TypeRef} (ht : t.IsOfValue) :
    (t.relabel f).IsOfValue := by
  obtain ⟨s, word, hkind, hword, hs⟩ := ht
  refine ⟨s, f word, hkind, ?_, (hf word).1.trans hs⟩
  rw [TypeRef.relabel, hword]
  rfl

theorem TypeRef.isReturned_relabel {t : TypeRef} (ht : t.IsReturned) :
    (t.relabel f).IsReturned := by
  rcases ht with ⟨hkind, hrank, hword⟩ | hvalue
  · refine Or.inl ⟨hkind, hrank, ?_⟩
    intro word hmem
    obtain ⟨t, ht, rfl⟩ := Option.map_eq_some_iff.mp hmem
    exact (hf t).1.trans (hword t ht)
  · exact Or.inr (TypeRef.isOfValue_relabel hf hvalue)

theorem Init.hasDepth_relabel {dims : Nat} {i : Init} (hi : i.HasDepth dims) :
    (i.relabel f).HasDepth dims := by
  induction dims generalizing i with
  | zero =>
    cases i with
    | value e => exact Expr.wellFormed_relabel hf hi
    | braces items => exact hi.elim
  | succ dims ih =>
    cases i with
    | value e => exact hi.elim
    | braces items =>
      rw [Init.relabel, Init.relabelAll_eq_map]
      refine ⟨by simpa using hi.1, ?_⟩
      exact forall_mem_map_of hi.2 fun i _ => ih

theorem Decl.wellFormed_relabel {d : Decl} (hd : d.WellFormed) : (d.relabel f).WellFormed := by
  refine ⟨TypeRef.isOfValue_relabel hf hd.type, ?_, ?_, ⟨?_, ?_⟩, ?_⟩
  · exact hd.rank.trans (List.length_map (Expr.relabel f)).symm
  · exact forall_mem_map_of hd.dims fun e _ => Expr.wellFormed_relabel hf
  · simpa [Decl.relabel] using hd.names.1
  · exact forall_mem_map_of hd.names.2 fun t _ => (hf t).1.trans
  · intro i hi
    obtain ⟨j, hj, rfl⟩ := Option.map_eq_some_iff.mp hi
    have h := Init.hasDepth_relabel hf (hd.init j hj)
    rwa [Decl.relabel, List.length_map]

theorem Target.wellFormed_relabel {t : Target} (ht : t.WellFormed) :
    (t.relabel f).WellFormed :=
  ⟨(hf t.name).1.trans ht.name, forall_mem_map_of ht.indices fun _ _ => Expr.wellFormed_relabel hf⟩

theorem Assign.wellFormed_relabel {a : Assign} (ha : a.WellFormed) :
    (a.relabel f).WellFormed :=
  ⟨Expr.wellFormed_relabel hf ha.value, Target.wellFormed_relabel hf ha.target⟩

omit hf in
theorem Stmt.allWellFormed_relabelAll {body : List Stmt} (hbody : Stmt.AllWellFormed body)
    (h : ∀ s ∈ body, s.WellFormed → (s.relabel f).WellFormed) :
    Stmt.AllWellFormed (Stmt.relabelAll f body) := by
  rw [Stmt.allWellFormed_iff] at hbody ⊢
  rw [Stmt.relabelAll_eq_map]
  exact forall_mem_map_of hbody h

theorem Stmt.wellFormed_relabel {s : Stmt} (hs : s.WellFormed) : (s.relabel f).WellFormed := by
  induction s using Stmt.induction with
  | declare d => exact Decl.wellFormed_relabel hf hs
  | ret value => exact Expr.wellFormed_relabel hf hs
  | assign a => exact Assign.wellFormed_relabel hf hs
  | call c => exact Call.wellFormed_relabel hf hs
  | branch condition body tail ihbody iharms ihlast =>
    obtain ⟨hcondition, hbody, htail⟩ := hs
    refine ⟨Expr.isCondition_relabel hf hcondition, Stmt.allWellFormed_relabelAll hbody ihbody, ?_⟩
    rw [← tail.ofArms_arms_last] at htail ⊢
    obtain ⟨hothers, hotherwise⟩ := Tail.wellFormed_ofArms.mp htail
    rw [Tail.relabel_ofArms]
    refine Tail.wellFormed_ofArms.mpr ⟨?_, ?_⟩
    · refine forall_mem_map_of hothers fun arm harm h => ⟨Expr.isCondition_relabel hf h.1, ?_⟩
      exact forall_mem_map_of h.2 (iharms arm harm)
    · intro body hmem
      obtain ⟨block, hblock, rfl⟩ := Option.map_eq_some_iff.mp hmem
      exact forall_mem_map_of (hotherwise block hblock) (ihlast block hblock)
  | rangeLoop var start stop body ih =>
    obtain ⟨hvar, hstart, hstop, hbody⟩ := hs
    exact ⟨(hf var).1.trans hvar, Expr.wellFormed_relabel hf hstart,
      Expr.wellFormed_relabel hf hstop, Stmt.allWellFormed_relabelAll hbody ih⟩
  | stepLoop init condition step body ih =>
    obtain ⟨hinit, hcondition, hstep, hbody⟩ := hs
    exact ⟨Decl.wellFormed_relabel hf hinit, Expr.isCondition_relabel hf hcondition,
      Assign.wellFormed_relabel hf hstep, Stmt.allWellFormed_relabelAll hbody ih⟩
  | whileLoop condition body ih =>
    obtain ⟨hcondition, hbody⟩ := hs
    exact ⟨Expr.isCondition_relabel hf hcondition, Stmt.allWellFormed_relabelAll hbody ih⟩

theorem Param.wellFormed_relabel {p : Param} (hp : p.WellFormed) : (p.relabel f).WellFormed :=
  ⟨(hf p.name).1.trans hp.name, TypeRef.isOfValue_relabel hf hp.type⟩

theorem Func.wellFormed_relabel {fn : Func} (h : fn.WellFormed) : (fn.relabel f).WellFormed :=
  ⟨(hf fn.name).1.trans h.name,
    forall_mem_map_of h.params fun _ _ => Param.wellFormed_relabel hf,
    TypeRef.isReturned_relabel hf h.returns,
    forall_mem_map_of h.body fun _ _ => Stmt.wellFormed_relabel hf⟩

theorem Item.wellFormed_relabel {i : Item} (hi : i.WellFormed) : (i.relabel f).WellFormed := by
  cases i with
  | declare d => exact Decl.wellFormed_relabel hf hi
  | stmt s =>
    refine ⟨?_, Stmt.wellFormed_relabel hf hi.2⟩
    have houter := hi.1
    cases s <;> exact houter
  | func fn => exact Func.wellFormed_relabel hf hi

/-- A tree stays well-formed if no token changes its kind or its value. -/
theorem Program.wellFormed_relabel {p : Program} (hp : p.WellFormed) :
    (p.relabel f).WellFormed :=
  forall_mem_map_of hp fun _ _ => Item.wellFormed_relabel hf

end

end Jam
