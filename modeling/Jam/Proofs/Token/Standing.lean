import Jam.Compile
import Jam.Proofs.Grammar.Accepted
import Jam.Proofs.Token.Scanned

/-!
Tokens in the text from which they were scanned. Each token within a line is a lexeme of its kind,
and the columns that its span names hold that lexeme. So do the tokens in the tree of the program
that the text spells, since a tree keeps tokens unchanged.
-/
namespace Jam

open Text

namespace Text.Spells

variable {word : List Char} {literal : Option Int}

theorem eq_of_keyword {k : Keyword} (h : Spells word (.keyword k) literal) :
    word = k.spelling.toList := by
  cases h
  rfl

theorem digits {value : Int} (h : Spells word .number (some value)) :
    word ≠ [] ∧ (∀ x ∈ word, x.isDigit = true) ∧ value = Nat.ofDigitChars 10 word 0 := by
  cases h with
  | number hne hdigits => exact ⟨hne, hdigits, rfl⟩

end Text.Spells

/-- A token is a lexeme of its kind, and its span holds that lexeme in a text. -/
structure Token.StandsIn (text : List Char) (t : Token) : Prop where
  spelled : Spells t.lexeme.toList t.kind t.literal
  held : t.span.Holds text t.lexeme.toList

/-- Every token that was cut from a text is a lexeme behind the part before it. -/
theorem Text.Cuts.exists_before {text read rest : List Char} {ts : List Token}
    (h : Cuts text read ts rest) : ∀ t ∈ ts, Spells t.lexeme.toList t.kind t.literal ∧
      ∃ before, before ++ t.lexeme.toList <+: text ∧ t.span = .ofWord before t.lexeme.toList := by
  induction h with
  | start => simp
  | blank _ _ ih => exact ih
  | @token read word rest ts kind literal h _ _ hkind ih =>
    intro t ht
    rcases List.mem_append.mp ht with ht | ht
    · exact ih t ht
    · rw [List.mem_singleton] at ht
      subst ht
      rw [String.toList_ofList]
      refine ⟨hkind, read, ?_, rfl⟩
      rw [h.text_eq, ← List.append_assoc]
      exact List.prefix_append (read ++ word) rest

theorem Text.Spells.kind_ne_endOfInput {word : List Char} {kind : TokenKind}
    {literal : Option Int} (h : Spells word kind literal) : kind ≠ .endOfInput := by
  cases h <;> simp

theorem Text.Cuts.kind_ne_endOfInput {text read rest : List Char} {ts : List Token}
    (h : Cuts text read ts rest) : ∀ t ∈ Token.withoutNewlines ts, t.kind ≠ .endOfInput :=
  fun t ht => (h.exists_before t (List.mem_of_mem_filter ht)).1.kind_ne_endOfInput

/-- Within a line, the span of a token holds it. -/
theorem Text.Cuts.standsIn {text read rest : List Char} {ts : List Token}
    (h : Cuts text read ts rest) {t : Token} (ht : t ∈ ts) (hline : t.kind ≠ .newline) :
    t.StandsIn text := by
  obtain ⟨hspelled, before, ⟨after, htext⟩, hspan⟩ := h.exists_before t ht
  have hheld := Span.holds_ofWord before (hspelled.not_mem_newline hline) after
  rw [← List.append_assoc, htext, ← hspan] at hheld
  exact ⟨hspelled, hheld⟩

theorem standsIn_of_tokenize {source : String} {ts : List Token} (h : tokenize source = .ok ts)
    {t : Token} (ht : t ∈ ts) (hline : t.kind ≠ .newline) (hend : t.kind ≠ .endOfInput) :
    t.StandsIn source.toList := by
  obtain ⟨us, hcuts, rfl⟩ := cuts_of_tokenize h
  rcases List.mem_append.mp ht with ht | ht
  · exact hcuts.standsIn ht hline
  · rw [List.mem_singleton.mp ht] at hend
    exact absurd rfl hend

namespace Program

/-- A text spells a program when its tokens do, line breaks left out. -/
theorem ofText_eq_ok_iff {source : String} {p : Program} :
    ofText source = .ok p ↔
      ∃ ts, tokenize source = .ok ts ∧ ofTokens (Token.withoutNewlines ts) = .ok p := by
  unfold ofText ofSourceTokens
  cases tokenize source with
  | error e => simp [Except.mapError, bind, Except.bind]
  | ok ts =>
    cases hp : ofTokens (Token.withoutNewlines ts) with
    | error e => simp [Except.mapError, bind, Except.bind, hp]
    | ok q => simp [Except.mapError, bind, Except.bind, hp]

/-- The tokens in a tree stand where their spans say. -/
theorem standsIn_of_ofText {source : String} {p : Program} (h : ofText source = .ok p) {t : Token}
    (ht : .kept t ∈ p.unparse) : t.StandsIn source.toList := by
  obtain ⟨ts, hts, hp⟩ := ofText_eq_ok_iff.mp h
  have hfits := (ofTokens_eq_ok_iff.mp hp).2
  obtain ⟨i, hi⟩ := List.mem_iff_getElem?.mp ht
  have hmem := List.mem_of_getElem? (hfits.getElem?_of_kept hi)
  have hend := List.mem_takeWhile_imp hmem
  have hline := List.mem_filter.mp ((List.takeWhile_sublist _).mem hmem)
  exact standsIn_of_tokenize hts hline.1 (by simpa using hline.2) (by simpa using hend)

end Program
end Jam
