import Jam.Proofs.Token.Standing
import Jam.Proofs.Tree.Relabel

/-!
What a token of a text is determined by. Its characters tell its kind and its value, so up to its
span it is known from its lexeme. The lexeme of a number, leading zeros included, is known from
its value and its span.
-/
namespace Jam

open Text

/-- The digits before the last one, and the last one. -/
theorem Text.ofDigitChars_concat (run : List Char) (x : Char) :
    Nat.ofDigitChars 10 (run ++ [x]) 0 = 10 * Nat.ofDigitChars 10 run 0 + (x.toNat - 48) := by
  simp [Nat.ofDigitChars, List.foldl_append]

/-- As many digits with the same value are the same digits. -/
theorem Text.eq_of_ofDigitChars_eq {run run' : List Char} (hdigits : ∀ x ∈ run, x.isDigit = true)
    (hdigits' : ∀ x ∈ run', x.isDigit = true) (hlength : run.length = run'.length)
    (hvalue : Nat.ofDigitChars 10 run 0 = Nat.ofDigitChars 10 run' 0) : run = run' := by
  induction run using List.reverseRecOn generalizing run' with
  | nil => exact (List.length_eq_zero_iff.mp hlength.symm).symm
  | append_singleton run x ih =>
    obtain rfl | ⟨run', y, rfl⟩ := List.eq_nil_or_concat' run'
    · simp at hlength
    · simp only [List.forall_mem_append, List.forall_mem_singleton] at hdigits hdigits'
      obtain ⟨hrun, hx⟩ := hdigits
      obtain ⟨hrun', hy⟩ := hdigits'
      rw [isDigit_iff] at hx hy
      rw [ofDigitChars_concat, ofDigitChars_concat] at hvalue
      have hlast : x.toNat = y.toNat := by omega
      rw [ih hrun hrun' (by simpa using hlength) (by omega), Char.toNat_inj.mp hlast]

namespace Text.Spells

variable {word : List Char} {kind kind' : TokenKind} {literal literal' : Option Int}

/-- The first character of a lexeme is of the class that its kind asks for. -/
theorem first (h : Spells word kind literal) :
    ∃ x rest, word = x :: rest ∧ match kind with
      | .symbol _ => isGap x = false ∧ x.isDigit = false ∧ isNameStart x = false
      | .newline => isGap x = true
      | .number => x.isDigit = true
      | .keyword _ => isNameStart x = true
      | .name => isNameStart x = true
      | .endOfInput => False := by
  obtain ⟨x, rest, rfl⟩ := List.exists_cons_of_ne_nil h.ne_nil
  refine ⟨x, rest, rfl, ?_⟩
  generalize hword : x :: rest = word at h
  cases h with
  | symbol s => exact Symbol.first_of_spelling hword.symm
  | newline =>
    obtain ⟨rfl, -⟩ := List.cons.inj hword
    rfl
  | number _ hdigits => exact hdigits x (hword ▸ List.mem_cons_self)
  | keyword k =>
    have hrun := k.isNameRun_spelling
    rw [← hword] at hrun
    exact isNameStart_of_isNameRun hrun
  | name hrun _ =>
    rw [← hword] at hrun
    exact isNameStart_of_isNameRun hrun

/-- Nothing is a lexeme of two kinds, or has two values. -/
theorem unique (h : Spells word kind literal) (h' : Spells word kind' literal') :
    kind = kind' ∧ literal = literal' := by
  obtain ⟨x, rest, hword, hx⟩ := h.first
  obtain ⟨y, rest', hword', hy⟩ := h'.first
  obtain ⟨rfl, -⟩ := List.cons.inj (hword.symm.trans hword')
  -- The classes of first characters are disjoint, so only kinds of one class are left.
  have hdigit := @isDigit_eq_false_of_isNameStart x
  have hname := @isGap_eq_false_of_isNameStart x
  have hgap := @isGap_eq_false_of_isDigit x
  generalize hsame : word = word' at h'
  cases h with
  | symbol s =>
    cases h' with
    | symbol t => exact ⟨congrArg _ (Symbol.spelling_injective (String.toList_inj.mp hsame)), rfl⟩
    | _ => simp_all
  | newline =>
    cases h' with
    | newline => exact ⟨rfl, rfl⟩
    | _ => simp_all
  | number =>
    cases h' with
    | number => exact ⟨rfl, by rw [hsame]⟩
    | _ => simp_all
  | keyword k =>
    cases h' with
    | keyword l => exact ⟨congrArg _ (Keyword.spelling_injective (String.toList_inj.mp hsame)), rfl⟩
    | name _ hnone => exact absurd hsame (hnone k)
    | _ => simp_all
  | name hrun hnone =>
    cases h' with
    | keyword l => exact absurd hsame.symm (hnone l)
    | name => exact ⟨rfl, rfl⟩
    | _ => simp_all

end Text.Spells

namespace Token.StandsIn

variable {text text' : List Char} {t u : Token}

/-- A lexeme tells a token up to its span. -/
theorem withoutSpan_eq (ht : t.StandsIn text) (hu : u.StandsIn text') (h : t.lexeme = u.lexeme) :
    t.withoutSpan = u.withoutSpan := by
  have hspelled := hu.spelled
  rw [← h] at hspelled
  obtain ⟨hkind, hliteral⟩ := ht.spelled.unique hspelled
  rw [withoutSpan, withoutSpan, h, hkind, hliteral]

/-- The lexeme of a keyword is its spelling. -/
theorem lexeme_eq_of_keyword {k : Keyword} (ht : t.StandsIn text) (hkind : t.kind = .keyword k) :
    t.lexeme = k.spelling := by
  have hspelled := ht.spelled
  rw [hkind] at hspelled
  exact String.toList_inj.mp hspelled.eq_of_keyword

theorem length_lexeme (ht : t.StandsIn text) :
    t.lexeme.toList.length = t.span.colEnd + 1 - t.span.colStart := by
  obtain ⟨n, before, after, -, hspan⟩ := ht.held
  rw [hspan]
  simp only
  omega

/-- A value and a span tell a number. -/
theorem eq_of_number (ht : t.StandsIn text) (hu : u.StandsIn text') {value : Int}
    (htkind : t.kind = .number) (htvalue : t.literal = some value) (hukind : u.kind = .number)
    (huvalue : u.literal = some value) (hspan : t.span = u.span) : t = u := by
  have htspelled := ht.spelled
  have huspelled := hu.spelled
  rw [htkind, htvalue] at htspelled
  rw [hukind, huvalue] at huspelled
  obtain ⟨-, htdigits, hvalue⟩ := htspelled.digits
  obtain ⟨-, hudigits, hvalue'⟩ := huspelled.digits
  have hlength : t.lexeme.toList.length = u.lexeme.toList.length := by
    rw [ht.length_lexeme, hu.length_lexeme, hspan]
  have hdigits : t.lexeme.toList = u.lexeme.toList :=
    eq_of_ofDigitChars_eq htdigits hudigits hlength (by omega)
  have hlexeme := String.toList_inj.mp hdigits
  obtain ⟨kind, lexeme, literal, span⟩ := t
  obtain ⟨kind', lexeme', literal', span'⟩ := u
  simp_all

end Token.StandsIn
end Jam
