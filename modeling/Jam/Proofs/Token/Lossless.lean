import Jam.Proofs.Token.Scanned

/-!
Scanning loses nothing. A text is what the lexemes of its tokens and the blanks between them make
up, and each token has the line and the columns that are counted in the text before it. The end of
the input is the last token and stands behind the last character.
-/
namespace Jam

open Text

/-- Tokens written out, each behind its own gap. -/
def woven (pieces : List (List Char × Token)) : List Char :=
  pieces.flatMap fun (gap, t) => gap ++ t.lexeme.toList

/-- A text is made of blanks and of tokens that stand where their spans say. -/
structure Weaves (text : List Char) (pieces : List (List Char × Token)) (last : List Char) :
    Prop where
  text_eq : text = woven pieces ++ last
  gaps : ∀ gap t, (gap, t) ∈ pieces → ∀ x ∈ gap, isBlank x = true
  last : ∀ x ∈ last, isBlank x = true
  kinds : ∀ gap t, (gap, t) ∈ pieces → t.kind ≠ .endOfInput
  spans : ∀ (i : Nat) (gap : List Char) (t : Token), pieces[i]? = some (gap, t) →
    t.span = .ofWord (woven (pieces.take i) ++ gap) t.lexeme.toList

namespace Weaves

variable {text last : List Char} {pieces : List (List Char × Token)}

theorem woven_concat (pieces : List (List Char × Token)) (gap : List Char) (t : Token) :
    woven (pieces ++ [(gap, t)]) = woven pieces ++ (gap ++ t.lexeme.toList) := by
  simp [woven]

theorem nil : Weaves [] [] [] := by
  constructor <;> simp [woven]

theorem blank {x : Char} (h : Weaves text pieces last) (hx : isBlank x = true) :
    Weaves (text ++ [x]) pieces (last ++ [x]) where
  text_eq := by rw [h.text_eq, List.append_assoc]
  gaps := h.gaps
  last := by
    intro y hy
    rcases List.mem_append.mp hy with hy | hy
    · exact h.last y hy
    · rw [List.mem_singleton.mp hy]
      exact hx
  kinds := h.kinds
  spans := h.spans

/-- The blanks at the end of a text become the gap before the next token. -/
theorem token {t : Token} (h : Weaves text pieces last) (hkind : t.kind ≠ .endOfInput)
    (hspan : t.span = .ofWord text t.lexeme.toList) :
    Weaves (text ++ t.lexeme.toList) (pieces ++ [(last, t)]) [] where
  text_eq := by
    rw [woven_concat, h.text_eq]
    simp
  gaps := by
    intro gap u hmem
    rcases List.mem_append.mp hmem with hmem | hmem
    · exact h.gaps gap u hmem
    · obtain ⟨rfl, rfl⟩ := Prod.mk.inj (List.mem_singleton.mp hmem)
      exact h.last
  last := by simp
  kinds := by
    intro gap u hmem
    rcases List.mem_append.mp hmem with hmem | hmem
    · exact h.kinds gap u hmem
    · obtain ⟨rfl, rfl⟩ := Prod.mk.inj (List.mem_singleton.mp hmem)
      exact hkind
  spans := by
    intro i gap u hget
    rcases Nat.lt_trichotomy i pieces.length with hlt | rfl | hgt
    · rw [List.getElem?_append_left hlt] at hget
      rw [List.take_append_of_le_length (Nat.le_of_lt hlt)]
      exact h.spans i gap u hget
    · rw [List.getElem?_append_right (Nat.le_refl _), Nat.sub_self] at hget
      obtain ⟨rfl, rfl⟩ := Prod.mk.inj (Option.some.inj hget)
      rw [List.take_left, ← h.text_eq]
      exact hspan
    · rw [List.getElem?_eq_none (by simp; omega)] at hget
      cases hget

end Weaves

/-- What has been cut of a text is woven of the tokens found in it. -/
theorem Text.Cuts.exists_weaves {text read rest : List Char} {ts : List Token}
    (h : Cuts text read ts rest) :
    ∃ pieces last, ts = pieces.map Prod.snd ∧ Weaves read pieces last := by
  induction h with
  | start => exact ⟨[], [], rfl, .nil⟩
  | blank _ hx ih =>
    obtain ⟨pieces, last, hts, hweaves⟩ := ih
    exact ⟨pieces, _, hts, hweaves.blank hx⟩
  | @token read word rest ts kind literal _ _ _ hkind ih =>
    obtain ⟨pieces, last, rfl, hweaves⟩ := ih
    let t : Token := ⟨kind, String.ofList word, literal, .ofWord read word⟩
    have hlexeme : t.lexeme.toList = word := String.toList_ofList
    have hend : t.kind ≠ .endOfInput := by
      show kind ≠ .endOfInput
      cases hkind <;> simp
    have hnext := hweaves.token hend (by rw [hlexeme])
    rw [hlexeme] at hnext
    exact ⟨pieces ++ [(last, t)], [], by simp [t], hnext⟩

/-- Scanning loses nothing and counts every position. -/
theorem tokenize_lossless {source : String} {ts : List Token} (h : tokenize source = .ok ts) :
    ∃ pieces last, Weaves source.toList pieces last ∧
      ts = pieces.map Prod.snd ++ [.endOfInput
        (.point (lineAfter source.toList) (columnAfter source.toList))] := by
  obtain ⟨us, hcuts, rfl⟩ := cuts_of_tokenize h
  obtain ⟨pieces, last, rfl, hweaves⟩ := hcuts.exists_weaves
  exact ⟨pieces, last, hweaves, rfl⟩

theorem tokenize_lossless_lines :
    let ts : List Token := [⟨.name, "é", none, ⟨1, 2, 2⟩⟩, ⟨.newline, "\n", none, ⟨1, 4, 4⟩⟩,
      ⟨.number, "07", some 7, ⟨2, 1, 2⟩⟩, ⟨.symbol .increment, "++", none, ⟨2, 3, 4⟩⟩,
      .endOfInput (.point 2 6)]
    tokenize " é\r\n07++\t" = .ok ts ∧
      ∃ pieces last, Weaves " é\r\n07++\t".toList pieces last ∧
        ts = pieces.map Prod.snd ++ [.endOfInput
          (.point (lineAfter " é\r\n07++\t".toList) (columnAfter " é\r\n07++\t".toList))] := by
  intro ts
  have h : tokenize " é\r\n07++\t" = .ok ts := by decide
  exact ⟨h, tokenize_lossless h⟩

end Jam
