import Jam.Proofs.Token.Determined
import Jam.Proofs.Tree.Invariant

/-!
The nodes that come from a text. They can stand in their place, and all their tokens stand in the
text. Both pass from a node to its children, so whatever is said of a whole program that was read
can be said of each of its parts.
-/
namespace Jam

namespace Node

/-- A well-formed node with tokens of a text. -/
structure ReadFrom (text : List Char) (n : Node) : Prop where
  wellFormed : n.WellFormed
  standing : ∀ t, .kept t ∈ n.unparse → t.StandsIn text

namespace ReadFrom

variable {text : List Char} {n m : Node}

theorem within (hn : n.ReadFrom text) (hm : Within n m) : m.ReadFrom text :=
  ⟨hn.wellFormed.within hm, fun t ht => hn.standing t (hm.kept_of_kept ht)⟩

theorem child (hn : n.ReadFrom text) (hm : m ∈ n.children) : m.ReadFrom text :=
  hn.within (.child .self hm)

theorem obeys (hn : n.ReadFrom text) : n.Obeys := hn.wellFormed.obeys

theorem token (hn : n.ReadFrom text) {t : Token} (ht : t ∈ n.tokens) : t.StandsIn text :=
  hn.standing t (kept_mem_unparse.mpr (Or.inl ht))

/-- The arms and the last block of a tail are inside it at various depths. -/
theorem tail {t : Tail} (h : (tail t).ReadFrom text) :
    (∀ arm ∈ t.arms, (condition arm.1).ReadFrom text ∧ ∀ s ∈ arm.2, (stmt s).ReadFrom text) ∧
      ∀ body ∈ t.last, ∀ s ∈ body, (stmt s).ReadFrom text := by
  cases t with
  | nothing => simp [Tail.arms, Tail.last]
  | otherwise body =>
    constructor
    · simp [Tail.arms]
    · rintro _ ⟨⟩ s hs
      exact h.child (by simp [children, hs])
  | orIf e body rest =>
    have hrest : (Node.tail rest).ReadFrom text := h.child (by simp [children])
    obtain ⟨harms, hlast⟩ := hrest.tail
    refine ⟨?_, hlast⟩
    rw [Tail.arms, List.forall_mem_cons]
    refine ⟨⟨h.child (by simp [children]), fun s hs => h.child (by simp [children, hs])⟩, harms⟩

end ReadFrom
end Node

/-- A program that a text spells comes from it. -/
theorem Program.readFrom_of_ofText {source : String} {p : Program} (h : ofText source = .ok p) :
    (Node.program p).ReadFrom source.toList := by
  obtain ⟨ts, -, hp⟩ := ofText_eq_ok_iff.mp h
  exact ⟨(ofTokens_eq_ok_iff.mp hp).1, fun t => standsIn_of_ofText h⟩

namespace TypeRef

variable {text : List Char} {type : TypeRef}

theorem readFrom_returned (h : (Node.type type).ReadFrom text) :
    (Node.returned type).ReadFrom text :=
  ⟨Or.inr h.wellFormed, h.standing⟩

/-- A type without a word returns nothing, and the word of a type is the name of its kind. -/
theorem word_cases (h : (Node.returned type).ReadFrom text) :
    type = .implicitVoid ∨ ∃ word, type.word = some word ∧ word.StandsIn text ∧
      word.lexeme = type.kind.spelling := by
  obtain ⟨kind, word, rank⟩ := type
  cases word with
  | none =>
    rcases h.wellFormed with ⟨rfl, rfl, -⟩ | ⟨s, word, -, hword, -⟩
    · exact Or.inl rfl
    · cases hword
  | some word =>
    have hstands : word.StandsIn text := h.token (by simp [Node.tokens])
    refine Or.inr ⟨word, rfl, hstands, ?_⟩
    rcases h.wellFormed with ⟨rfl, -, hkind⟩ | ⟨s, word', rfl, ⟨⟩, hkind⟩
    · exact hstands.lexeme_eq_of_keyword (hkind word rfl)
    · exact hstands.lexeme_eq_of_keyword hkind

end TypeRef

/-- Kinds of types are told apart by their names. -/
theorem TypeKind.spelling_injective {k l : TypeKind} (h : k.spelling = l.spelling) : k = l := by
  cases k with
  | scalar s =>
    cases l with
    | scalar t => exact congrArg scalar (Keyword.scalar.inj (Keyword.spelling_injective h))
    | void => cases s <;> exact absurd h (by decide)
  | void =>
    cases l with
    | scalar t => cases t <;> exact absurd h (by decide)
    | void => rfl

end Jam
