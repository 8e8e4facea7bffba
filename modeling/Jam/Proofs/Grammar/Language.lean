import Jam.Proofs.Grammar.Accepted
import Jam.Proofs.Grammar.Sentence.OfTree
import Jam.Proofs.Grammar.Sentence.ToTree

/-!
The language of the parser is that of the grammar. What the grammar derives is written as some
well-formed tree, and a well-formed tree is read back from what it is written as.
-/
namespace Jam

/-- No sentence has a line break or an end of input in it. -/
theorem Derives.not_newline {w : Phrase} (h : Derives .program w) :
    ∀ k ∈ w, k ≠ .newline ∧ k ≠ .endOfInput := by
  -- Some tokens of these kinds are read as a tree, and a tree keeps nothing else.
  let sample (k : TokenKind) : Token := ⟨k, "", some 0, .origin⟩
  have hvalued : ∀ t ∈ w.map sample, t.IsValued := by
    simp [sample, Token.IsValued]
  have hkinds : (w.map sample).map (·.kind) = w := by
    rw [List.map_map]
    exact List.map_id w
  obtain ⟨p, hp, hfits⟩ := h.spells _ hvalued hkinds
  intro k hk
  have hword := hfits.isWord (Program.keepsWords hp) _ (List.mem_map_of_mem hk)
  exact ⟨hword.1, hword.2.1⟩

namespace Program

theorem exists_ofTokens_of_derives {ts : List Token}
    (h : Derives .program ((Token.beforeEnd ts).map (·.kind)))
    (hvalued : ∀ t ∈ Token.beforeEnd ts, t.IsValued) : ∃ p, ofTokens ts = .ok p := by
  obtain ⟨p, hp, hfits⟩ := h.spells _ hvalued rfl
  exact ⟨p, ofTokens_eq_ok_iff.mpr ⟨hp, hfits⟩⟩

theorem derives_of_ofTokens {ts : List Token} {p : Program} (h : ofTokens ts = .ok p) :
    Derives .program ((Token.beforeEnd ts).map (·.kind)) ∧
      ∀ t ∈ Token.beforeEnd ts, t.IsValued := by
  obtain ⟨hp, hfits⟩ := ofTokens_eq_ok_iff.mp h
  have hkinds : Slot.phrase p.unparse = (Token.beforeEnd ts).map (·.kind) := hfits.kinds_eq
  refine ⟨hkinds ▸ Program.derives hp, ?_⟩
  intro t ht
  exact (hfits.isWord (Program.keepsWords hp) t ht).2.2

/-- A sequence of tokens is a program exactly when its kinds up to the end of input are a sentence
and each of its numbers has a value. -/
theorem exists_ofTokens_iff (ts : List Token) :
    (∃ p, ofTokens ts = .ok p) ↔
      Derives .program ((Token.beforeEnd ts).map (·.kind)) ∧
        ∀ t ∈ Token.beforeEnd ts, t.IsValued := by
  constructor
  · intro hok
    obtain ⟨p, h⟩ := hok
    exact derives_of_ofTokens h
  · intro hsentence
    obtain ⟨h, hvalued⟩ := hsentence
    exact exists_ofTokens_of_derives h hvalued

end Program
end Jam
