import Jam.Proofs.Grammar.Viable
import Mathlib.Data.Set.List

/-!
Statements outside all blocks and statements of a function. But for `return`, which has its place
in blocks only, the same tokens are statements in both places, and they are the same ones: the
tokens between the braces of a function are its body exactly when they are a program without
functions.
-/
namespace Jam

open Grammar

/-- The item that a statement is outside all blocks. -/
def Stmt.item : Stmt → Item
  | .declare d => .declare d
  | s => .stmt s

/-- The statement that an item is within a block, unless it is a function. -/
def Item.stmt? : Item → Option Stmt
  | .declare d => some (.declare d)
  | .stmt s => some s
  | .func _ => none

/-- The tokens of a function without parameters and return type, up to its body and behind it. -/
structure Token.Frame where
  word : Token
  name : Token
  left : Token
  right : Token
  opening : Token
  closing : Token
  word_kind : word.kind = .keyword .func
  name_kind : name.kind = .name
  left_kind : left.kind = .symbol .leftParen
  right_kind : right.kind = .symbol .rightParen
  opening_kind : opening.kind = .symbol .leftBrace
  closing_kind : closing.kind = .symbol .rightBrace

/-- The tokens of a function with these tokens as its body. -/
def Token.Frame.around (frame : Token.Frame) (body : List Token) : List Token :=
  frame.word :: frame.name :: frame.left :: frame.right :: frame.opening ::
    (body ++ [frame.closing])

/-- The function with the name of a frame and some statements as its body. -/
def Token.Frame.func (frame : Token.Frame) (body : List Stmt) : Func :=
  ⟨frame.name, [], .implicitVoid, body⟩

section Items

variable {ss : List Stmt} {i : Item}

theorem Stmt.stmt?_item (s : Stmt) : s.item.stmt? = some s := by
  cases s <;> rfl

theorem Stmt.item_ne_func (s : Stmt) (f : Func) : s.item ≠ .func f := by
  cases s <;> simp [Stmt.item]

theorem Stmt.unparse_item (s : Stmt) : s.item.unparse = s.unparse := by
  cases s <;> rfl

/-- A statement may stand outside all blocks unless it returns. -/
theorem Stmt.wellFormed_item_iff (s : Stmt) :
    s.item.WellFormed ↔ s.WellFormed ∧ ∀ value, s ≠ .ret value := by
  cases s <;> simp [Stmt.item, Item.WellFormed, Stmt.IsOuter, Stmt.WellFormed]

theorem Item.eq_item_of_wellFormed (hi : i.WellFormed) (hfunc : ∀ f, i ≠ .func f) :
    ∃ s : Stmt, i = s.item := by
  cases i with
  | declare d => exact ⟨.declare d, rfl⟩
  | stmt s =>
    obtain ⟨houter, -⟩ := hi
    refine ⟨s, ?_⟩
    cases s with
    | declare d => exact houter.elim
    | _ => rfl
  | func f => exact absurd rfl (hfunc f)

/-- A program without functions is a row of statements. -/
theorem Program.exists_items_eq {p : Program} (hp : p.WellFormed)
    (hfunc : ∀ f, .func f ∉ p.items) : ∃ ss : List Stmt, p = ⟨ss.map Stmt.item⟩ := by
  have hitems : p.items ∈ Set.range (List.map Stmt.item) := by
    rw [Set.range_list_map]
    intro i hi
    obtain ⟨s, hs⟩ := Item.eq_item_of_wellFormed (hp i hi) fun f hf => hfunc f (hf ▸ hi)
    exact ⟨s, hs.symm⟩
  obtain ⟨ss, hss⟩ := hitems
  exact ⟨ss, congrArg Program.mk hss.symm⟩

theorem Program.unparse_items (ss : List Stmt) :
    (Program.mk (ss.map Stmt.item)).unparse = Stmt.unparses ss := by
  rw [Program.unparse, List.flatMap_map, Stmt.unparses_eq_flatMap]
  exact List.flatMap_congr fun s _ => s.unparse_item

end Items

namespace Token.Frame

variable {frame : Frame} {body : List Token} {ss : List Stmt} {f : Func}

theorem beforeEnd_around (hbody : ∀ t ∈ body, t.kind ≠ .endOfInput) :
    beforeEnd (frame.around body) = frame.around body := by
  apply beforeEnd_eq_self
  simpa [around, frame.word_kind, frame.name_kind, frame.left_kind, frame.right_kind,
    frame.opening_kind, frame.closing_kind, or_imp, forall_and] using hbody

/-- What stands between the braces of a frame is written as a block. -/
theorem fits_braced (h : Fits (Slot.braced (Stmt.unparses ss))
    (frame.opening :: (body ++ [frame.closing]))) : Fits (Stmt.unparses ss) body := by
  obtain ⟨us, vs, hsplit, hbody, hend⟩ := Fits.append_iff.mp (Fits.cons_cons_iff.mp h).2
  obtain ⟨t, ws, rfl, -, hnil⟩ := Fits.cons_iff.mp hend
  obtain rfl := Fits.nil_iff.mp hnil
  obtain ⟨rfl, -⟩ := List.append_inj' hsplit rfl
  exact hbody

/-- A name right behind `func` is the name of the function, which has no return type then. -/
theorem returns_eq {returns : TypeRef} {name : Token} {row : List Slot} {ts : List Token}
    (hreturns : returns.IsReturned)
    (h : Fits (returns.unparse ++ .kept name :: row) (frame.name :: ts)) :
    returns = .implicitVoid ∧ name = frame.name ∧ Fits row ts := by
  have hkind := frame.name_kind
  rcases hreturns with ⟨hvoid, hrank, hword⟩ | hvalue
  · obtain ⟨kind, word, rank⟩ := returns
    subst hvoid hrank
    cases word with
    | none =>
      obtain ⟨hname, hrow⟩ := Fits.cons_cons_iff.mp h
      exact ⟨rfl, Eq.symm hname, hrow⟩
    | some word =>
      obtain rfl : frame.name = word := (Fits.cons_cons_iff.mp h).1
      rw [hword frame.name rfl] at hkind
      cases hkind
  · -- A type begins with a word for types, and the name is none.
    have hstarts := startsIn_cons.mp (h.startsIn_append fun u => TypeRef.startsIn hvalue)
    rw [hkind] at hstarts
    cases hstarts

/-- Parentheses with nothing between them are those of a function without parameters. -/
theorem params_eq {params : List Param} {row : List Slot} {ts : List Token}
    (hparams : ∀ p ∈ params, p.WellFormed)
    (h : Fits (Slot.grouped (Slot.commas (params.map Param.unparse)) ++ row)
      (frame.left :: frame.right :: ts)) : params = [] ∧ Fits row ts := by
  rw [Slot.grouped_append] at h
  have hlist := (Fits.cons_cons_iff.mp h).2
  cases params with
  | nil => exact ⟨rfl, (Fits.cons_cons_iff.mp hlist).2⟩
  | cons p params =>
    -- The first parameter would begin with its type, where the list is closed instead.
    have hp := (hparams p List.mem_cons_self).type
    rw [List.map_cons, Slot.commas, Param.unparse] at hlist
    simp only [List.append_assoc] at hlist
    have hstarts := startsIn_cons.mp (hlist.startsIn_append fun u => TypeRef.startsIn hp)
    rw [frame.right_kind] at hstarts
    cases hstarts

/-- A function that is written as a frame around some tokens has just them as its body. -/
theorem eq_func_of_fits (hf : f.WellFormed) (h : Fits f.unparse (frame.around body)) :
    f = frame.func f.body ∧ Fits (Stmt.unparses f.body) body := by
  have hrow := (Fits.cons_cons_iff.mp h).2
  obtain ⟨hreturns, hname, hrow⟩ := returns_eq hf.returns hrow
  obtain ⟨hparams, hrow⟩ := params_eq hf.params hrow
  refine ⟨?_, fits_braced hrow⟩
  obtain ⟨name, params, returns, body⟩ := f
  subst hreturns hname hparams
  rfl

theorem wellFormed_func (h : ∀ s ∈ ss, s.WellFormed) : (frame.func ss).WellFormed where
  name := frame.name_kind
  params := by simp [func]
  returns := Or.inl ⟨rfl, rfl, by simp [func, TypeRef.implicitVoid]⟩
  body := h

theorem fits_func (h : Fits (Stmt.unparses ss) body) :
    Fits (frame.func ss).unparse (frame.around body) := by
  have hbraced : Fits (Slot.braced (Stmt.unparses ss))
      (frame.opening :: (body ++ [frame.closing])) :=
    .enclosed frame.opening_kind h frame.closing_kind
  have hparams : Fits (Slot.grouped [] ++ Slot.braced (Stmt.unparses ss))
      (frame.left :: ([] ++ frame.right :: frame.opening :: (body ++ [frame.closing]))) :=
    .grouped_append frame.left_kind .nil frame.right_kind hbraced
  exact .keyword frame.word_kind (.kept frame.name hparams)

end Token.Frame

namespace Program

variable {frame : Token.Frame} {body : List Token} {ss : List Stmt} {f : Func}

theorem wellFormed_items_iff :
    (Program.mk (ss.map Stmt.item)).WellFormed ↔
      (∀ s ∈ ss, s.WellFormed) ∧ ∀ value, .ret value ∉ ss := by
  have hitems : (Program.mk (ss.map Stmt.item)).WellFormed ↔
      ∀ s ∈ ss, s.WellFormed ∧ ∀ value, s ≠ .ret value := by
    simp only [WellFormed, List.forall_mem_map, Stmt.wellFormed_item_iff]
  rw [hitems, forall₂_and]
  refine and_congr_right fun _ => ⟨fun h value hmem => h _ hmem value rfl, ?_⟩
  rintro h s hs value rfl
  exact h value hs

theorem ofTokens_around_eq_ok_iff (hbody : ∀ t ∈ body, t.kind ≠ .endOfInput) :
    ofTokens (frame.around body) = .ok ⟨[.func f]⟩ ↔
      f.WellFormed ∧ Fits f.unparse (frame.around body) := by
  rw [ofTokens_eq_ok_iff, Token.Frame.beforeEnd_around hbody]
  simp [WellFormed, Item.WellFormed, unparse, Item.unparse]

/-- Tokens are statements outside all blocks just when they are the same statements between the
braces of a function and none of them returns. -/
theorem ofTokens_items_iff (hbody : ∀ t ∈ body, t.kind ≠ .endOfInput) :
    ofTokens body = .ok ⟨ss.map Stmt.item⟩ ↔
      ofTokens (frame.around body) = .ok ⟨[.func (frame.func ss)]⟩ ∧
        ∀ value, .ret value ∉ ss := by
  rw [ofTokens_eq_ok_iff, Token.beforeEnd_eq_self hbody, wellFormed_items_iff, unparse_items,
    ofTokens_around_eq_ok_iff hbody]
  constructor
  · rintro ⟨⟨hss, hret⟩, hfits⟩
    exact ⟨⟨Token.Frame.wellFormed_func hss, Token.Frame.fits_func hfits⟩, hret⟩
  · rintro ⟨⟨hf, hfits⟩, hret⟩
    exact ⟨⟨hf.body, hret⟩, (Token.Frame.eq_func_of_fits hf hfits).2⟩

theorem eq_func_of_ofTokens_around (hbody : ∀ t ∈ body, t.kind ≠ .endOfInput)
    (h : ofTokens (frame.around body) = .ok ⟨[.func f]⟩) : f = frame.func f.body := by
  obtain ⟨hf, hfits⟩ := (ofTokens_around_eq_ok_iff hbody).mp h
  exact (Token.Frame.eq_func_of_fits hf hfits).1

theorem exists_around_of_ofTokens (frame : Token.Frame) {p : Program}
    (hbody : ∀ t ∈ body, t.kind ≠ .endOfInput) (hp : ofTokens body = .ok p)
    (hfunc : ∀ g, .func g ∉ p.items) :
    ∃ ss : List Stmt, p = ⟨ss.map Stmt.item⟩ ∧
      ofTokens (frame.around body) = .ok ⟨[.func (frame.func ss)]⟩ ∧ ∀ value, .ret value ∉ ss := by
  obtain ⟨ss, rfl⟩ := exists_items_eq (ofTokens_eq_ok_iff.mp hp).1 hfunc
  exact ⟨ss, rfl, (ofTokens_items_iff hbody).mp hp⟩

/-- Tokens are a program without functions exactly when between the braces of a function they are
a body that does not return at its outermost level. The body then has the items of the program, in
their order. -/
theorem ofTokens_body (frame : Token.Frame) {body : List Token}
    (hbody : ∀ t ∈ body, t.kind ≠ .endOfInput) :
    ((∃ p, ofTokens body = .ok p ∧ ∀ f, .func f ∉ p.items) ↔
      ∃ f, ofTokens (frame.around body) = .ok ⟨[.func f]⟩ ∧ f.name = frame.name ∧
        ∀ value, .ret value ∉ f.body) ∧
    ∀ p f, ofTokens body = .ok p → (∀ g, .func g ∉ p.items) →
      ofTokens (frame.around body) = .ok ⟨[.func f]⟩ →
      f.body.map some = p.items.map Item.stmt? ∧ f = frame.func f.body := by
  refine ⟨⟨?_, ?_⟩, ?_⟩
  · rintro ⟨p, hp, hfunc⟩
    obtain ⟨ss, -, haround, hret⟩ := exists_around_of_ofTokens frame hbody hp hfunc
    exact ⟨frame.func ss, haround, rfl, hret⟩
  · rintro ⟨f, haround, -, hret⟩
    have hf := eq_func_of_ofTokens_around hbody haround
    rw [hf] at haround
    refine ⟨_, (ofTokens_items_iff hbody).mpr ⟨haround, hret⟩, ?_⟩
    intro g hg
    obtain ⟨s, -, hs⟩ := List.mem_map.mp hg
    exact s.item_ne_func g hs
  · intro p f hp hfunc hf
    obtain ⟨ss, rfl, haround, -⟩ := exists_around_of_ofTokens frame hbody hp hfunc
    obtain rfl : frame.func ss = f := by
      simpa [haround] using hf
    refine ⟨?_, rfl⟩
    rw [List.map_map]
    exact List.map_congr_left fun s _ => (s.stmt?_item).symm

/-- A declaration and an assignment, alone and as the body of a function. -/
theorem ofTokens_body_declaration :
    let frame : Token.Frame := ⟨⟨.keyword .func, "func", none, ⟨1, 1, 4⟩⟩,
      ⟨.name, "f", none, ⟨1, 6, 6⟩⟩, ⟨.symbol .leftParen, "(", none, ⟨1, 7, 7⟩⟩,
      ⟨.symbol .rightParen, ")", none, ⟨1, 8, 8⟩⟩,
      ⟨.symbol .leftBrace, "\x7b", none, ⟨1, 10, 10⟩⟩,
      ⟨.symbol .rightBrace, "\x7d", none, ⟨1, 26, 26⟩⟩, rfl, rfl, rfl, rfl, rfl, rfl⟩
    let body : List Token := [⟨.keyword (.scalar .int), "int", none, ⟨1, 12, 14⟩⟩,
      ⟨.name, "x", none, ⟨1, 16, 16⟩⟩, ⟨.symbol .semicolon, ";", none, ⟨1, 17, 17⟩⟩,
      ⟨.name, "x", none, ⟨1, 19, 19⟩⟩, ⟨.symbol .assign, "=", none, ⟨1, 21, 21⟩⟩,
      ⟨.name, "y", none, ⟨1, 23, 23⟩⟩, ⟨.symbol .semicolon, ";", none, ⟨1, 24, 24⟩⟩]
    (∀ t ∈ body, t.kind ≠ .endOfInput) ∧
      ∃ p f, ofTokens body = .ok p ∧ (∀ g, .func g ∉ p.items) ∧
        ofTokens (frame.around body) = .ok ⟨[.func f]⟩ ∧ f.name = frame.name ∧
        f.body.map some = p.items.map Item.stmt? := by
  intro frame body
  have hbody : ∀ t ∈ body, t.kind ≠ .endOfInput := by decide
  have hp : ∃ p, ofTokens body = .ok p ∧ ∀ g, .func g ∉ p.items := ⟨_, rfl, by simp⟩
  obtain ⟨hiff, hitems⟩ := ofTokens_body frame hbody
  obtain ⟨f, hf, hname, -⟩ := hiff.mp hp
  obtain ⟨p, hp, hfunc⟩ := hp
  exact ⟨hbody, p, f, hp, hfunc, hf, hname, (hitems p f hp hfunc hf).1⟩

end Program
end Jam
