import Jam.Proofs.Json.Within
import Jam.Proofs.Token.Standing
import Jam.Proofs.Tree.Invariant
import Jam.Tree.Json

/-!
The positions in the JSON of a program. An object with a position tells the word that stands in
the text at that position: a function, a name and an element of an array tell their name, a number
tells its value, and a call stands at its keyword. The JSON of a node is made of objects of its own
and of the JSON of its children, so it is enough to look at one node at a time.
-/
namespace Jam

open Text Json

/-- The fields of an object tell a word of the text. -/
inductive Describes (fields : List (String × Json)) : List Char → Prop
  | function {name : String} (hkind : fields.lookup "kind" = some (.string "funcDef"))
      (hname : fields.lookup "name" = some (.string name)) : Describes fields name.toList
  | name {name : String} (htype : fields.lookup "type" = some (.string "ident"))
      (hname : fields.lookup "name" = some (.string name)) : Describes fields name.toList
  | element {name : String} (htype : fields.lookup "type" = some (.string "index"))
      (hname : fields.lookup "name" = some (.string name)) : Describes fields name.toList
  | literal {run : List Char} (htype : fields.lookup "type" = some (.string "literal"))
      (hne : run ≠ []) (hdigits : ∀ x ∈ run, x.isDigit = true)
      (hvalue : fields.lookup "value" = some (.number (Nat.ofDigitChars 10 run 0))) :
      Describes fields run
  | call (htype : fields.lookup "type" = some (.string "call")) : Describes fields "call".toList

/-- The position of an object, if it has one, is a span that holds the word the object tells. -/
def Addresses (text : List Char) (fields : List (String × Json)) : Prop :=
  ∀ pos, fields.lookup "pos" = some pos →
    ∃ (s : Span) (word : List Char), pos = s.json ∧ s.Holds text word ∧ Describes fields word

/-- All positions in the JSON of a node address the words that their objects tell. The JSON of a
tail is that of its last block and that of each of its arms. -/
def Node.Addressed (text : List Char) : Node → Prop
  | program p => p.json.AllObjects (Addresses text)
  | item i => i.json.AllObjects (Addresses text)
  | func f => f.json.AllObjects (Addresses text)
  | param p => p.json.AllObjects (Addresses text)
  | stmt s => s.json.AllObjects (Addresses text)
  | tail t =>
    t.lastJson.AllObjects (Addresses text) ∧ ∀ v ∈ t.armJsons, v.AllObjects (Addresses text)
  | assign a => a.json.AllObjects (Addresses text)
  | target t => t.json.AllObjects (Addresses text)
  | decl d => d.json.AllObjects (Addresses text)
  | init i => i.json.AllObjects (Addresses text)
  | returned t => t.json.AllObjects (Addresses text)
  | type t => t.json.AllObjects (Addresses text)
  | condition e => e.json.AllObjects (Addresses text)
  | value e => e.json.AllObjects (Addresses text)

theorem Expr.jsons_eq_map (es : List Expr) : Expr.jsons es = es.map Expr.json := by
  induction es with
  | nil => rfl
  | cons e es ih => rw [Expr.jsons, List.map_cons, ih]

theorem Init.jsons_eq_map (is : List Init) : Init.jsons is = is.map Init.json := by
  induction is with
  | nil => rfl
  | cons i is ih => rw [Init.jsons, List.map_cons, ih]

theorem Stmt.jsons_eq_map (ss : List Stmt) : Stmt.jsons ss = ss.map Stmt.json := by
  induction ss with
  | nil => rfl
  | cons s ss ih => rw [Stmt.jsons, List.map_cons, ih]

section Objects

variable {text : List Char} {fields : List (String × Json)} {t : Token}

@[simp]
theorem addresses_of_no_position (h : fields.lookup "pos" = none) : Addresses text fields := by
  intro pos hpos
  rw [h] at hpos
  cases hpos

/-- An object that stands at a token tells the lexeme of that token. -/
theorem Token.StandsIn.addresses (ht : t.StandsIn text)
    (hpos : fields.lookup "pos" = some t.span.json) (hword : Describes fields t.lexeme.toList) :
    Addresses text fields := by
  intro pos h
  rw [hpos] at h
  cases h
  exact ⟨t.span, t.lexeme.toList, rfl, ht.held, hword⟩

@[simp]
theorem Token.allObjects_json {P : List (String × Json) → Prop} : AllObjects P t.json := by
  simp [Token.json]

@[simp]
theorem Span.allObjects_json {P : List (String × Json) → Prop} {s : Span} :
    AllObjects P s.json := by
  simp [Span.json]

@[simp]
theorem TypeRef.addressed_json {type : TypeRef} : AllObjects (Addresses text) type.json := by
  cases hword : type.word <;> simp [TypeRef.json, hword]

end Objects

/-- The JSON of an expression addresses words if that of the expressions inside it does. -/
theorem Expr.addressed_json {text : List Char} {e : Expr} (he : (Node.value e).Obeys)
    (hstands : ∀ t ∈ e.tokens, t.StandsIn text)
    (hchildren : ∀ inner ∈ e.children, inner.json.AllObjects (Addresses text)) :
    e.json.AllObjects (Addresses text) := by
  cases e with
  | literal t value =>
    obtain ⟨hkind, hliteral⟩ := he
    have ht := hstands t List.mem_cons_self
    have hspelled := ht.spelled
    rw [hkind, hliteral] at hspelled
    obtain ⟨hne, hdigits, hvalue⟩ := hspelled.digits
    have hword : Describes [("pos", t.span.json), ("type", .string "literal"),
        ("value", .number value)] t.lexeme.toList := by
      apply Describes.literal rfl hne hdigits
      rw [← hvalue]
      rfl
    simpa [json] using ht.addresses rfl hword
  | name t =>
    have ht := hstands t List.mem_cons_self
    simpa [json] using ht.addresses rfl (.name rfl rfl)
  | element t indices =>
    have ht := hstands t List.mem_cons_self
    rw [json, allObjects_object]
    constructor
    · exact ht.addresses rfl (.element rfl rfl)
    · simpa [Expr.jsons_eq_map, children] using hchildren
  | group inner => simpa [json, children] using hchildren
  | call word callee args =>
    have ht := hstands word List.mem_cons_self
    have hspelled := ht.spelled
    rw [he.1] at hspelled
    have hword : word.lexeme.toList = "call".toList := hspelled.eq_of_keyword
    rw [json, allObjects_object]
    constructor
    · apply ht.addresses rfl
      rw [hword]
      exact .call rfl
    · simpa [Expr.jsons_eq_map, children] using hchildren
  | binary left op right => simpa [json, children] using hchildren

namespace Node

variable {text : List Char} {n : Node}

/-- The JSON of a node addresses words if that of its children does: the objects that it adds have
no position, or stand at a token of the node. -/
theorem addressed_of_children (hn : n.Obeys) (hstands : ∀ t ∈ n.tokens, t.StandsIn text)
    (hchildren : ∀ m ∈ n.children, m.Addressed text) : n.Addressed text := by
  cases n with
  | program p => simpa [Addressed, children, Program.json] using hchildren
  | item i => cases i <;> simpa [Addressed, children, Item.json] using hchildren
  | func f =>
    simp only [children, List.forall_mem_cons, List.forall_mem_append, List.forall_mem_map]
      at hchildren
    obtain ⟨-, hparams, hbody⟩ := hchildren
    have ht := hstands f.name List.mem_cons_self
    rw [Addressed, Func.json, allObjects_object]
    constructor
    · exact ht.addresses rfl (.function rfl rfl)
    · simpa [Stmt.jsons_eq_map] using ⟨hbody, hparams⟩
  | param p => simp [Addressed, Param.json]
  | stmt s =>
    cases s with
    | declare d => simpa [Addressed, children, Stmt.json] using hchildren
    | ret e => simpa [Addressed, children, Stmt.json] using hchildren
    | assign a => simpa [Addressed, children, Stmt.json] using hchildren
    | call c => simpa [Addressed, children, Stmt.json] using hchildren
    | branch e body t =>
      simp only [children, List.forall_mem_cons, List.forall_mem_append, List.forall_mem_map]
        at hchildren
      obtain ⟨he, hbody, ⟨hlast, harms⟩, -⟩ := hchildren
      simpa [Addressed, Stmt.json, armJson, Stmt.jsons_eq_map] using
        ⟨hlast, ⟨hbody, he⟩, harms⟩
    | rangeLoop _ start stop body =>
      simp only [children, List.forall_mem_cons, List.forall_mem_map] at hchildren
      obtain ⟨hstart, hstop, hbody⟩ := hchildren
      simpa [Addressed, Stmt.json, Stmt.jsons_eq_map] using ⟨hbody, hstart, hstop⟩
    | stepLoop d e a body =>
      simp only [children, List.forall_mem_cons, List.forall_mem_map] at hchildren
      obtain ⟨hinit, he, hstep, hbody⟩ := hchildren
      simpa [Addressed, Stmt.json, Stmt.jsons_eq_map] using ⟨hbody, he, hinit, hstep⟩
    | whileLoop e body =>
      simp only [children, List.forall_mem_cons, List.forall_mem_map] at hchildren
      obtain ⟨he, hbody⟩ := hchildren
      simpa [Addressed, Stmt.json, Stmt.jsons_eq_map] using ⟨hbody, he⟩
  | tail t =>
    cases t with
    | nothing => simp [Addressed, Tail.lastJson, Tail.armJsons]
    | otherwise body =>
      simpa [Addressed, children, Tail.lastJson, Tail.armJsons, Stmt.jsons_eq_map] using hchildren
    | orIf e body t =>
      simp only [children, List.forall_mem_cons, List.forall_mem_append, List.forall_mem_map]
        at hchildren
      obtain ⟨he, hbody, ⟨hlast, harms⟩, -⟩ := hchildren
      simpa [Addressed, Tail.lastJson, Tail.armJsons, armJson, Stmt.jsons_eq_map] using
        ⟨hlast, ⟨hbody, he⟩, harms⟩
  | assign a => simpa [Addressed, children, Assign.json] using hchildren
  | target t =>
    simpa [Addressed, children, Target.json, Expr.jsons_eq_map] using hchildren
  | decl d =>
    simp only [children, List.forall_mem_cons, List.forall_mem_append, List.forall_mem_map,
      Option.mem_toList] at hchildren
    obtain ⟨-, hdims, hinit⟩ := hchildren
    have hfirst : (d.init.elim Json.null (·.json)).AllObjects (Addresses text) := by
      cases hi : d.init with
      | none => simp
      | some i => exact hinit i hi
    simpa [Addressed, Decl.json, Expr.jsons_eq_map] using ⟨hdims, hfirst⟩
  | init i =>
    cases i <;> simpa [Addressed, children, Init.json, Init.jsons_eq_map] using hchildren
  | returned t => exact TypeRef.addressed_json
  | type t => exact TypeRef.addressed_json
  | condition e =>
    cases e with
    | binary => simpa [Addressed, children, Expr.json, Expr.children] using hchildren
    | _ => exact hn.elim
  | value e =>
    simp only [children, List.forall_mem_map] at hchildren
    exact Expr.addressed_json hn hstands hchildren

/-- What is asked of the nodes inside a node is asked of those inside its children, so the step
above goes through at every depth. -/
theorem addressed_of_within (hobeys : ∀ m, Within n m → m.Obeys)
    (hstands : ∀ m, Within n m → ∀ t ∈ m.tokens, t.StandsIn text) : n.Addressed text := by
  induction n using Node.induction with
  | step n ih =>
    apply addressed_of_children (hobeys n .self) (hstands n .self)
    intro m hm
    exact ih m hm (fun k hk => hobeys k (hk.of_child hm)) fun k hk => hstands k (hk.of_child hm)

end Node

namespace Program

/-- Every position in the JSON of a program that a text spells addresses, in that text, the word
that its object tells. -/
theorem json_addresses_of_ofText {source : String} {p : Program} (h : ofText source = .ok p)
    {fields : List (String × Json)} {pos : Json}
    (hfields : Json.Within (.object fields) p.json) (hpos : fields.lookup "pos" = some pos) :
    ∃ (s : Span) (word : List Char),
      pos = s.json ∧ s.Holds source.toList word ∧ Describes fields word := by
  obtain ⟨ts, -, hp⟩ := ofText_eq_ok_iff.mp h
  have hwf : (Node.program p).WellFormed := (ofTokens_eq_ok_iff.mp hp).1
  have haddressed : (Node.program p).Addressed source.toList := by
    apply Node.addressed_of_within
    · intro n hn
      exact (hwf.within hn).obeys
    · intro n hn t ht
      exact standsIn_of_ofText h (hn.kept_mem_unparse ht)
  exact haddressed fields hfields pos hpos

theorem json_addresses_of_ofText_call :
    let source := "\n call é(07)\t;"
    let word : Token := ⟨.keyword .call, "call", none, ⟨2, 2, 5⟩⟩
    let callee : Token := ⟨.name, "é", none, ⟨2, 7, 7⟩⟩
    let number : Token := ⟨.number, "07", some 7, ⟨2, 9, 10⟩⟩
    let p : Program := ⟨[.stmt (.call ⟨word, callee, [.literal number 7]⟩)]⟩
    let fields : List (String × Json) := [("pos", .array [.number 2, .number 9, .number 10]),
      ("type", .string "literal"), ("value", .number 7)]
    ofText source = .ok p ∧ Json.Within (.object fields) p.json ∧
      fields.lookup "pos" = some (.array [.number 2, .number 9, .number 10]) ∧
      ∃ (s : Span) (word : List Char), .array [.number 2, .number 9, .number 10] = s.json ∧
        s.Holds source.toList word ∧ Describes fields word := by
  intro source word callee number p fields
  have htokens : tokenize source = .ok [⟨.newline, "\n", none, ⟨1, 1, 1⟩⟩, word, callee,
      ⟨.symbol .leftParen, "(", none, ⟨2, 8, 8⟩⟩, number,
      ⟨.symbol .rightParen, ")", none, ⟨2, 11, 11⟩⟩, ⟨.symbol .semicolon, ";", none, ⟨2, 13, 13⟩⟩,
      .endOfInput (.point 2 14)] := by decide
  have h : ofText source = .ok p := ofText_eq_ok_iff.mpr ⟨_, htokens, rfl⟩
  have hcall : Json.Within (.object fields) (Expr.call word callee [.literal number 7]).json :=
    .field List.mem_cons_self (.item List.mem_cons_self .self)
  have hfields : Json.Within (.object fields) p.json := by
    apply Json.Within.field List.mem_cons_self
    apply Json.Within.item List.mem_cons_self
    apply Json.Within.field (List.mem_cons_of_mem _ List.mem_cons_self)
    exact .field List.mem_cons_self hcall
  exact ⟨h, hfields, rfl, json_addresses_of_ofText h hfields rfl⟩

end Program
end Jam
