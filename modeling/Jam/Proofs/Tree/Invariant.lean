import Jam.Proofs.Grammar.Accepted
import Jam.Proofs.Tree.Node

/-!
What every node of a program satisfies. What is asked of a node is said of the node alone, with
the sort of its operands and the depth of its initializer. A well-formed tree satisfies it at every
depth, which follows by going from each node to its children, and trees that are read are
well-formed.
-/
namespace Jam

def Expr.IsComparison : Expr → Prop
  | .binary _ op _ => KindClass.relational op.kind = true
  | _ => False

/-- Braces to a given depth on every path, and none of them empty. -/
def Init.IsNested : Nat → Init → Prop
  | 0, .value _ => True
  | depth + 1, .braces items => items ≠ [] ∧ ∀ i ∈ items, Init.IsNested depth i
  | _, _ => False

namespace Node

/-- What is asked of a node alone. -/
def Obeys : Node → Prop
  | program _ => True
  | item (.declare _) => True
  | item (.stmt s) => s.IsOuter
  | item (.func _) => True
  | func f => f.name.kind = .name
  | param p => p.name.kind = .name
  | stmt (.rangeLoop var _ _ _) => var.kind = .name
  | stmt _ => True
  | tail _ => True
  | assign _ => True
  | target t => t.name.kind = .name
  | decl d =>
    (d.names ≠ [] ∧ ∀ t ∈ d.names, t.kind = .name) ∧ d.type.rank = d.dims.length ∧
      ∀ i ∈ d.init, Init.IsNested d.dims.length i
  | init (.value _) => True
  | init (.braces items) => items ≠ []
  | returned t => t.IsReturned
  | type t => t.IsOfValue
  | condition (.binary left op right) =>
    KindClass.relational op.kind = true ∧ ¬ left.IsComparison ∧ ¬ right.IsComparison
  | condition _ => False
  | value (.literal t n) => t.kind = .number ∧ t.literal = some n
  | value (.name t) => t.kind = .name
  | value (.element t indices) => t.kind = .name ∧ indices ≠ []
  | value (.group _) => True
  | value (.call word callee _) => word.kind = .keyword .call ∧ callee.kind = .name
  | value (.binary left op right) =>
    KindClass.arithmetic op.kind = true ∧ left.IsOperand ∧ right.IsOperand

/-- A node that can stand in its place in the tree of a program. -/
def WellFormed : Node → Prop
  | program p => p.WellFormed
  | item i => i.WellFormed
  | func f => f.WellFormed
  | param p => p.WellFormed
  | stmt s => s.WellFormed
  | tail t => t.WellFormed
  | assign a => a.WellFormed
  | target t => t.WellFormed
  | decl d => d.WellFormed
  | init i => ∃ depth, Init.HasDepth depth i
  | returned t => t.IsReturned
  | type t => t.IsOfValue
  | condition e => e.IsCondition
  | value e => e.WellFormed

end Node

/-- No operator is both arithmetic and relational. -/
theorem KindClass.not_relational_of_arithmetic {k : TokenKind} (h : arithmetic k = true) :
    ¬ relational k = true := by
  cases k with
  | symbol s =>
    cases s <;> simp_all [arithmetic, relational, Symbol.isArithmetic, Symbol.isRelational]
  | _ => cases h

theorem Expr.not_isComparison {e : Expr} (he : e.WellFormed) : ¬ e.IsComparison := by
  cases e with
  | binary left op right => exact KindClass.not_relational_of_arithmetic he.1
  | _ => exact id

theorem Expr.WellFormed.children {e : Expr} (he : e.WellFormed) :
    ∀ inner ∈ e.children, inner.WellFormed := by
  cases e with
  | literal t value => simp [Expr.children]
  | name t => simp [Expr.children]
  | element t indices => exact Expr.allWellFormed_iff.mp he.2.2
  | group inner => exact List.forall_mem_singleton.mpr he
  | call word callee args => exact Expr.allWellFormed_iff.mp he.2.2
  | binary left op right => simpa [Expr.children] using ⟨he.2.1.2, he.2.2.2⟩

theorem Expr.IsCondition.children {e : Expr} (he : e.IsCondition) :
    ∀ inner ∈ e.children, inner.WellFormed := by
  cases e with
  | binary left op right => simpa [Expr.children] using he.2
  | _ => exact he.elim

/-- Of a nested initializer only the values are asked to be well-formed. -/
theorem Init.HasDepth.isNested {depth : Nat} {i : Init} (h : Init.HasDepth depth i) :
    Init.IsNested depth i := by
  induction depth generalizing i with
  | zero =>
    cases i with
    | value e => trivial
    | braces items => exact h.elim
  | succ depth ih =>
    cases i with
    | value e => exact h.elim
    | braces items => exact ⟨h.1, fun item hitem => ih (h.2 item hitem)⟩

namespace Node

variable {root n m : Node}

/-- Well-formedness passes from a node to its children. -/
theorem WellFormed.children (hn : n.WellFormed) : ∀ m ∈ n.children, m.WellFormed := by
  cases n with
  | program p =>
    simp only [Node.children, List.forall_mem_map]
    exact hn
  | item i =>
    cases i with
    | declare d => exact List.forall_mem_singleton.mpr hn
    | stmt s => exact List.forall_mem_singleton.mpr hn.2
    | func f => exact List.forall_mem_singleton.mpr hn
  | func f =>
    simp only [Node.children, List.forall_mem_cons, List.forall_mem_append, List.forall_mem_map]
    exact ⟨hn.returns, hn.params, hn.body⟩
  | param p => exact List.forall_mem_singleton.mpr hn.type
  | stmt s =>
    cases s with
    | declare d => exact List.forall_mem_singleton.mpr hn
    | ret e => exact List.forall_mem_singleton.mpr hn
    | assign a => exact List.forall_mem_singleton.mpr hn
    | call c => exact List.forall_mem_singleton.mpr hn
    | branch e body t =>
      obtain ⟨hcondition, hbody, htail⟩ := hn
      rw [Stmt.allWellFormed_iff] at hbody
      simp only [Node.children, List.forall_mem_cons, List.forall_mem_append, List.forall_mem_map]
      exact ⟨hcondition, hbody, htail, by simp⟩
    | rangeLoop var start stop body =>
      obtain ⟨-, hstart, hstop, hbody⟩ := hn
      rw [Stmt.allWellFormed_iff] at hbody
      simp only [Node.children, List.forall_mem_cons, List.forall_mem_map]
      exact ⟨hstart, hstop, hbody⟩
    | stepLoop d e a body =>
      obtain ⟨hinit, hcondition, hstep, hbody⟩ := hn
      rw [Stmt.allWellFormed_iff] at hbody
      simp only [Node.children, List.forall_mem_cons, List.forall_mem_map]
      exact ⟨hinit, hcondition, hstep, hbody⟩
    | whileLoop e body =>
      obtain ⟨hcondition, hbody⟩ := hn
      rw [Stmt.allWellFormed_iff] at hbody
      simp only [Node.children, List.forall_mem_cons, List.forall_mem_map]
      exact ⟨hcondition, hbody⟩
  | tail t =>
    cases t with
    | nothing => simp [Node.children]
    | otherwise body =>
      simp only [Node.children, List.forall_mem_map]
      exact Stmt.allWellFormed_iff.mp hn
    | orIf e body t =>
      obtain ⟨hcondition, hbody, htail⟩ := hn
      rw [Stmt.allWellFormed_iff] at hbody
      simp only [Node.children, List.forall_mem_cons, List.forall_mem_append, List.forall_mem_map]
      exact ⟨hcondition, hbody, htail, by simp⟩
  | assign a =>
    simp only [Node.children, List.forall_mem_cons]
    exact ⟨hn.value, hn.target, by simp⟩
  | target t =>
    simp only [Node.children, List.forall_mem_map]
    exact hn.indices
  | decl d =>
    simp only [Node.children, List.forall_mem_cons, List.forall_mem_append, List.forall_mem_map,
      Option.mem_toList]
    exact ⟨hn.type, hn.dims, fun i hi => ⟨_, hn.init i hi⟩⟩
  | init i =>
    obtain ⟨depth, hdepth⟩ := hn
    cases depth with
    | zero =>
      cases i with
      | value e => exact List.forall_mem_singleton.mpr hdepth
      | braces items => exact hdepth.elim
    | succ depth =>
      cases i with
      | value e => exact hdepth.elim
      | braces items =>
        simp only [Node.children, List.forall_mem_map]
        exact fun i hi => ⟨depth, hdepth.2 i hi⟩
  | returned t => simp [Node.children]
  | type t => simp [Node.children]
  | condition e =>
    simp only [Node.children, List.forall_mem_map]
    exact Expr.IsCondition.children hn
  | value e =>
    simp only [Node.children, List.forall_mem_map]
    exact Expr.WellFormed.children hn

/-- So it holds at every depth. -/
theorem WellFormed.within (hn : n.WellFormed) (hm : Within n m) : m.WellFormed := by
  induction hm with
  | self => exact hn
  | child _ hm ih => exact ih.children _ hm

/-- What a well-formed node satisfies by itself. -/
theorem WellFormed.obeys (hn : n.WellFormed) : n.Obeys := by
  cases n with
  | item i =>
    cases i with
    | stmt s => exact hn.1
    | _ => trivial
  | func f => exact hn.name
  | param p => exact hn.name
  | stmt s =>
    cases s with
    | rangeLoop var start stop body => exact hn.1
    | _ => trivial
  | target t => exact hn.name
  | decl d => exact ⟨hn.names, hn.rank, fun i hi => (hn.init i hi).isNested⟩
  | init i =>
    obtain ⟨depth, hdepth⟩ := hn
    cases i with
    | value e => trivial
    | braces items =>
      cases depth with
      | zero => exact hdepth.elim
      | succ depth => exact hdepth.1
  | returned t => exact hn
  | type t => exact hn
  | condition e =>
    cases e with
    | binary left op right =>
      obtain ⟨hop, hleft, hright⟩ := hn
      exact ⟨hop, Expr.not_isComparison hleft, Expr.not_isComparison hright⟩
    | _ => exact hn.elim
  | value e =>
    cases e with
    | literal t value => exact hn
    | name t => exact hn
    | element t indices => exact ⟨hn.1, hn.2.1⟩
    | group inner => trivial
    | call word callee args => exact ⟨hn.1, hn.2.1⟩
    | binary left op right => exact ⟨hn.1, hn.2.1.1, hn.2.2.1⟩
  | _ => trivial

end Node

namespace Program

/-- Every node of a program that is read, at any depth, satisfies what is asked of it. -/
theorem obeys_of_ofTokens {ts : List Token} {p : Program} (h : ofTokens ts = .ok p) (n : Node)
    (hn : Node.Within (.program p) n) : n.Obeys := by
  have hp : (Node.program p).WellFormed := (ofTokens_eq_ok_iff.mp h).1
  exact (hp.within hn).obeys

theorem obeys_of_ofTokens_loop :
    let symbol (s : Symbol) : Token := ⟨.symbol s, s.spelling, none, .origin⟩
    let x : Token := ⟨.name, "x", none, .origin⟩
    let one : Token := ⟨.number, "1", some 1, .origin⟩
    let ts : List Token := [⟨.keyword .while_, "while", none, .origin⟩, symbol .leftParen, x,
      symbol .less, one, symbol .plus, x, symbol .rightParen, symbol .leftBrace,
      symbol .rightBrace]
    let sum : Expr := .binary (.literal one 1) (symbol .plus) (.name x)
    let loop : Stmt := .whileLoop (.binary (.name x) (symbol .less) sum) []
    let p : Program := ⟨[.stmt loop]⟩
    ofTokens ts = .ok p ∧ Node.Within (.program p) (.value sum) ∧ (Node.value sum).Obeys := by
  intro symbol x one ts sum loop p
  have h : ofTokens ts = .ok p := rfl
  have hloop : Node.Within (.program p) (.stmt loop) :=
    .child (.child .self List.mem_cons_self) List.mem_cons_self
  have hsum : Node.Within (.program p) (.value sum) :=
    .child (.child hloop List.mem_cons_self) (List.mem_cons_of_mem _ List.mem_cons_self)
  exact ⟨h, hsum, obeys_of_ofTokens h _ hsum⟩

end Program
end Jam
