import Jam.Proofs.Tree.Invariant

/-!
The tokens that a well-formed tree keeps. They are symbols, keywords, names and numbers with a
value, so neither a line break nor an end of input is among them.
-/
namespace Jam

open Slot

/-- A number has its value with it. -/
def Token.IsValued (t : Token) : Prop := t.kind = .number → t.literal ≠ none

/-- A symbol, a keyword, a name, or a number with its value. -/
def Token.IsWord (t : Token) : Prop :=
  t.kind ≠ .newline ∧ t.kind ≠ .endOfInput ∧ t.IsValued

theorem Token.isWord_of_name {t : Token} (h : t.kind = .name) : t.IsWord := by
  simp [IsWord, IsValued, h]

theorem Token.isWord_of_symbol {t : Token} {s : Symbol} (h : t.kind = .symbol s) : t.IsWord := by
  simp [IsWord, IsValued, h]

theorem Token.isWord_of_keyword {t : Token} {k : Keyword} (h : t.kind = .keyword k) :
    t.IsWord := by
  simp [IsWord, IsValued, h]

/-- The tokens of a class are words if it lacks the other kinds. -/
theorem Token.isWord_of_class {k : KindClass} {t : Token} (h : k t.kind = true)
    (hnewline : k .newline = false) (hend : k .endOfInput = false) (hnumber : k .number = false) :
    t.IsWord := by
  have hne : ∀ kind, k kind = false → t.kind ≠ kind := by
    intro kind hk heq
    rw [heq, hk] at h
    cases h
  exact ⟨hne _ hnewline, hne _ hend, fun ht => absurd ht (hne _ hnumber)⟩

/-- Every token that is kept in a row is a word. -/
def KeepsWords (row : List Slot) : Prop := ∀ t, kept t ∈ row → t.IsWord

theorem TypeRef.isWord_of_isReturned {type : TypeRef} (h : type.IsReturned) :
    ∀ t ∈ type.word, t.IsWord := by
  intro t ht
  rcases h with ⟨-, -, hword⟩ | ⟨s, word, -, hword, hkind⟩
  · exact Token.isWord_of_keyword (hword t ht)
  · rw [hword] at ht
    cases ht
    exact Token.isWord_of_keyword hkind

/-- The tokens that a node keeps itself are words. -/
theorem Node.Obeys.isWord {n : Node} (hn : n.Obeys) : ∀ t ∈ n.tokens, t.IsWord := by
  cases n with
  | func f => exact List.forall_mem_singleton.mpr (Token.isWord_of_name hn)
  | param p => exact List.forall_mem_singleton.mpr (Token.isWord_of_name hn)
  | stmt s =>
    cases s with
    | rangeLoop var start stop body =>
      exact List.forall_mem_singleton.mpr (Token.isWord_of_name hn)
    | _ => simp [tokens]
  | target t => exact List.forall_mem_singleton.mpr (Token.isWord_of_name hn)
  | decl d => exact fun t ht => Token.isWord_of_name (hn.1.2 t ht)
  | returned type =>
    intro t ht
    exact TypeRef.isWord_of_isReturned hn t (Option.mem_toList.mp ht)
  | type type =>
    intro t ht
    exact TypeRef.isWord_of_isReturned (Or.inr hn) t (Option.mem_toList.mp ht)
  | condition e =>
    cases e with
    | binary left op right =>
      exact List.forall_mem_singleton.mpr (Token.isWord_of_class hn.1 rfl rfl rfl)
    | _ => exact hn.elim
  | value e =>
    cases e with
    | literal t value =>
      have ht : t.IsWord := by simp [Token.IsWord, Token.IsValued, hn.1, hn.2]
      exact List.forall_mem_singleton.mpr ht
    | name t => exact List.forall_mem_singleton.mpr (Token.isWord_of_name hn)
    | element t indices => exact List.forall_mem_singleton.mpr (Token.isWord_of_name hn.1)
    | group inner => simp [tokens, Expr.tokens]
    | call word callee args =>
      simp only [tokens, Expr.tokens, List.forall_mem_cons]
      exact ⟨Token.isWord_of_keyword hn.1, Token.isWord_of_name hn.2, by simp⟩
    | binary left op right =>
      exact List.forall_mem_singleton.mpr (Token.isWord_of_class hn.1 rfl rfl rfl)
  | _ => simp [tokens]

theorem Program.keepsWords {p : Program} (hp : p.WellFormed) : KeepsWords p.unparse := by
  intro t ht
  have hwf : (Node.program p).WellFormed := hp
  obtain ⟨n, hn, ht⟩ := Node.exists_within_of_kept (n := .program p) ht
  exact (hwf.within hn).obeys.isWord t ht

/-- The tokens that fit a row are words if those that it keeps are. -/
theorem Fits.isWord {row : List Slot} {ts : List Token} (h : Fits row ts) (hrow : KeepsWords row) :
    ∀ t ∈ ts, t.IsWord := by
  induction h with
  | nil => simp
  | @cons s t row ts hs _ ih =>
    rw [List.forall_mem_cons]
    refine ⟨?_, ih fun u hu => hrow u (List.mem_cons_of_mem _ hu)⟩
    cases s with
    | kept u =>
      obtain rfl : t = u := hs
      exact hrow t List.mem_cons_self
    | symbol s => exact Token.isWord_of_symbol hs
    | keyword k => exact Token.isWord_of_keyword hs

end Jam
