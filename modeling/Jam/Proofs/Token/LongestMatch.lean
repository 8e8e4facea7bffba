import Jam.Proofs.Source.Position
import Jam.Proofs.Token.Lexeme

/-!
Cutting a text into tokens by longest match, said without the scanner. The lexemes are the fixed
spellings, the line feed, the runs of digits and the runs of name characters. A text is cut from
the left: blanks are skipped, and where a token begins the longest lexeme is taken. It is refused
at the first such place at which no token can be completed.
-/
namespace Jam

namespace Text

/-- The lexemes of each kind: the fixed spellings, the line feed, runs of digits, and runs of name
characters that are no keyword. A run of digits has its decimal value. -/
inductive Spells : List Char → TokenKind → Option Int → Prop
  | symbol (s : Symbol) : Spells s.spelling.toList (.symbol s) none
  | newline : Spells ['\n'] .newline none
  | number {run : List Char} (hne : run ≠ []) (hdigits : ∀ x ∈ run, x.isDigit = true) :
      Spells run .number (some (Nat.ofDigitChars 10 run 0))
  | keyword (k : Keyword) : Spells k.spelling.toList (.keyword k) none
  | name {run : List Char} (hrun : isNameRun run = true)
      (hword : ∀ k : Keyword, k.spelling.toList ≠ run) : Spells run .name none

def IsLexeme (word : List Char) : Prop := ∃ kind literal, Spells word kind literal

/-- The longest lexeme with which a text begins. -/
structure Longest (word text : List Char) : Prop where
  lexeme : IsLexeme word
  isPrefix : word <+: text
  longest : ∀ v, IsLexeme v → v <+: text → v.length ≤ word.length

/-- At the front of a text no token can be completed, and some characters are to blame. -/
inductive Faulty : List Char → LexicalFault → List Char → Prop
  | loneAmpersand {rest : List Char} (hrest : rest.head? ≠ some '&') :
      Faulty ('&' :: rest) .loneAmpersand ['&']
  | letterAfterNumber {run rest : List Char} {x : Char} (hrun : Longest run (run ++ x :: rest))
      (hdigits : ∀ y ∈ run, y.isDigit = true) (hx : isAlphabetic x = true) :
      Faulty (run ++ x :: rest) .letterAfterNumber run
  | numberOutOfRange {run rest : List Char} (hrun : Longest run (run ++ rest))
      (hdigits : ∀ y ∈ run, y.isDigit = true) (hrest : ∀ x ∈ rest.head?, isAlphabetic x = false)
      (hvalue : 0x7fffffffffffffff < Nat.ofDigitChars 10 run 0) :
      Faulty (run ++ rest) .numberOutOfRange run
  | unrecognizedCharacter {x : Char} {rest : List Char} (hblank : isBlank x = false)
      (hx : ∀ word, IsLexeme word → word.head? ≠ some x) :
      Faulty (x :: rest) .unrecognizedCharacter [x]

/-- A text is cut from the left: a part has been read, tokens were found in it, and the rest is
still to be read. -/
inductive Cuts (text : List Char) : List Char → List Token → List Char → Prop
  | start : Cuts text [] [] text
  | blank {read rest : List Char} {ts : List Token} {x : Char} (h : Cuts text read ts (x :: rest))
      (hx : isBlank x = true) : Cuts text (read ++ [x]) ts rest
  | token {read word rest : List Char} {ts : List Token} {kind : TokenKind} {literal : Option Int}
      (h : Cuts text read ts (word ++ rest)) (hword : Longest word (word ++ rest))
      (hsound : ∀ fault blamed, ¬ Faulty (word ++ rest) fault blamed)
      (hkind : Spells word kind literal) :
      Cuts text (read ++ word) (ts ++ [⟨kind, String.ofList word, literal, .ofWord read word⟩]) rest

/-- If any lexeme begins a text, a longest one does. -/
theorem exists_longest {word text : List Char} (hword : IsLexeme word) (hfront : word <+: text) :
    ∃ w, Longest w text := by
  by_contra hnone
  have hgrow : ∀ n, ∃ v, IsLexeme v ∧ v <+: text ∧ n ≤ v.length := by
    intro n
    induction n with
    | zero => exact ⟨word, hword, hfront, Nat.zero_le _⟩
    | succ n ih =>
      obtain ⟨v, hv, hvfront, hlength⟩ := ih
      by_contra hmax
      refine hnone ⟨v, hv, hvfront, ?_⟩
      intro u hu hufront
      by_contra hlonger
      exact hmax ⟨u, hu, hufront, by omega⟩
  obtain ⟨v, -, hvfront, hlength⟩ := hgrow (text.length + 1)
  have hbound := hvfront.length_le
  omega

theorem Cuts.text_eq {text read rest : List Char} {ts : List Token} (h : Cuts text read ts rest) :
    text = read ++ rest := by
  induction h with
  | start => rfl
  | blank _ _ ih => rw [ih, List.append_assoc, List.singleton_append]
  | token _ _ _ _ ih => rw [ih, List.append_assoc]

section Lexemes

variable {word run rest : List Char} {kind : TokenKind} {literal : Option Int} {x : Char}

theorem Spells.ne_nil (h : Spells word kind literal) : word ≠ [] := by
  cases h with
  | symbol s => rcases s.spelling_cases with ⟨x, hs⟩ | ⟨x, y, hs⟩ <;> simp [hs]
  | newline => simp
  | number hne _ => exact hne
  | keyword k =>
    intro hnil
    have hrun := k.isNameRun_spelling
    rw [hnil] at hrun
    cases hrun
  | name hrun _ =>
    rintro rfl
    cases hrun

theorem isLexeme_symbol (s : Symbol) : IsLexeme s.spelling.toList := ⟨_, _, .symbol s⟩

theorem isLexeme_digits (hne : run ≠ []) (hdigits : ∀ x ∈ run, x.isDigit = true) :
    IsLexeme run :=
  ⟨_, _, .number hne hdigits⟩

/-- A run of name characters is a lexeme, whether or not it is a keyword. -/
theorem isLexeme_nameRun (hrun : isNameRun run = true) : IsLexeme run := by
  by_cases hword : ∃ k : Keyword, k.spelling.toList = run
  · obtain ⟨k, rfl⟩ := hword
    exact ⟨_, _, .keyword k⟩
  · exact ⟨_, _, .name hrun fun k hk => hword ⟨k, hk⟩⟩

/-- The first character of a lexeme tells to which class it belongs. -/
theorem IsLexeme.cases_first (h : IsLexeme (x :: word)) :
    (isGap x = false ∧ x.isDigit = false ∧ isNameStart x = false ∧
        ∃ s : Symbol, s.spelling.toList = x :: word) ∨
      (x = '\n' ∧ word = []) ∨ (∀ y ∈ x :: word, y.isDigit = true) ∨
      isNameRun (x :: word) = true := by
  obtain ⟨kind, literal, h⟩ := h
  generalize htext : x :: word = text at h
  cases h with
  | symbol s =>
    obtain ⟨hgap, hdigit, hname⟩ := Symbol.first_of_spelling htext.symm
    exact Or.inl ⟨hgap, hdigit, hname, s, rfl⟩
  | newline =>
    obtain ⟨rfl, rfl⟩ := List.cons.inj htext
    exact Or.inr (Or.inl ⟨rfl, rfl⟩)
  | number _ hdigits => exact Or.inr (Or.inr (Or.inl hdigits))
  | keyword k => exact Or.inr (Or.inr (Or.inr k.isNameRun_spelling))
  | name hrun _ => exact Or.inr (Or.inr (Or.inr hrun))

theorem isNameStart_of_isNameRun (h : isNameRun (x :: word) = true) : isNameStart x = true :=
  (Bool.and_eq_true_iff.mp h).1

theorem all_isNamePart_of_isNameRun (h : isNameRun run = true) :
    ∀ x ∈ run, isNamePart x = true := by
  cases run with
  | nil => simp
  | cons x run =>
    obtain ⟨hx, hrun⟩ := Bool.and_eq_true_iff.mp h
    have hpart : isNamePart x = true := by
      unfold isNameStart at hx
      unfold isNamePart
      rcases Bool.or_eq_true_iff.mp hx with h | h <;> simp [h]
    rw [List.forall_mem_cons]
    exact ⟨hpart, List.all_eq_true.mp hrun⟩

/-- The characters of which lexemes are made: a line feed, and those of symbols, numbers and
names. -/
theorem Spells.mem_cases (h : Spells word kind literal) (hx : x ∈ word) :
    (kind = .newline ∧ x = '\n') ∨ (∃ s : Symbol, x ∈ s.spelling.toList) ∨ x.isDigit = true ∨
      isNamePart x = true := by
  cases h with
  | symbol s => exact Or.inr (Or.inl ⟨s, hx⟩)
  | newline => exact Or.inl ⟨rfl, List.mem_singleton.mp hx⟩
  | number _ hdigits => exact Or.inr (Or.inr (Or.inl (hdigits x hx)))
  | keyword k =>
    exact Or.inr (Or.inr (Or.inr (all_isNamePart_of_isNameRun k.isNameRun_spelling x hx)))
  | name hrun _ => exact Or.inr (Or.inr (Or.inr (all_isNamePart_of_isNameRun hrun x hx)))

/-- Of the lexemes, only the line feed has a gap in it. -/
theorem Spells.isGap_eq_false (h : Spells word kind literal) (hkind : kind ≠ .newline)
    (hx : x ∈ word) : isGap x = false := by
  rcases h.mem_cases hx with ⟨hline, -⟩ | ⟨s, hs⟩ | hdigit | hpart
  · exact absurd hline hkind
  · exact Symbol.isGap_eq_false_of_mem hs
  · exact isGap_eq_false_of_isDigit hdigit
  · refine Bool.eq_false_iff.mpr fun hgap => ?_
    rw [isNamePart_eq_false_of_isGap hgap] at hpart
    cases hpart

theorem Spells.not_mem_newline (h : Spells word kind literal) (hkind : kind ≠ .newline) :
    '\n' ∉ word :=
  fun hmem => absurd (h.isGap_eq_false hkind hmem) (by decide)

theorem Spells.not_mem_nul (h : Spells word kind literal) : '\x00' ∉ word := by
  intro hmem
  rcases h.mem_cases hmem with ⟨-, hx⟩ | ⟨s, hs⟩ | hdigit | hpart
  · cases hx
  · have hall : ∀ s ∈ Symbol.all, '\x00' ∉ s.spelling.toList := by decide
    exact hall s (Symbol.mem_all s) hs
  · exact absurd hdigit (by decide)
  · exact absurd hpart (by decide)

/-- The longest lexeme in a class that it cannot leave ends where the class stops. -/
theorem Longest.stops {p : Char → Bool} (h : Longest run (run ++ rest))
    (hgrow : ∀ x, p x = true → IsLexeme (run ++ [x])) : Cursor.Stops p rest := by
  intro x hx
  cases rest with
  | nil => cases hx
  | cons y rest =>
    obtain rfl : y = x := by simpa using hx
    by_contra hp
    have hlexeme := hgrow y (by simpa using hp)
    have hlength := h.longest (run ++ [y]) hlexeme ⟨rest, by simp⟩
    rw [List.length_append, List.length_singleton] at hlength
    omega

/-- A character with which no lexeme begins. -/
theorem not_start_of_no_lexeme (hblank : isBlank x = false)
    (hx : ∀ word, IsLexeme word → word.head? ≠ some x) :
    isGap x = false ∧ x.isDigit = false ∧ isNameStart x = false := by
  have hnewline : x ≠ '\n' := by
    rintro rfl
    exact hx _ ⟨_, _, .newline⟩ rfl
  refine ⟨by simp [isGap, hblank, hnewline], ?_, ?_⟩
  · by_contra hdigit
    refine hx [x] (isLexeme_digits (by simp) ?_) rfl
    simpa using hdigit
  · by_contra hname
    refine hx [x] (isLexeme_nameRun ?_) rfl
    simpa [isNameRun] using hname

/-- What stands at the front of a text: a blank, a longest lexeme, or a character that begins
nothing. -/
theorem front_cases (x : Char) (rest : List Char) :
    isBlank x = true ∨ (∃ word, Longest word (x :: rest)) ∨
      ∃ fault blamed, Faulty (x :: rest) fault blamed := by
  by_cases hblank : isBlank x = true
  · exact Or.inl hblank
  by_cases hlexeme : ∃ word, IsLexeme word ∧ word <+: x :: rest
  · obtain ⟨word, hword, hfront⟩ := hlexeme
    exact Or.inr (Or.inl (exists_longest hword hfront))
  have hnone : ∀ word, IsLexeme word → ¬ word <+: x :: rest :=
    fun word hword hfront => hlexeme ⟨word, hword, hfront⟩
  refine Or.inr (Or.inr ?_)
  by_cases hx : x = '&'
  · subst x
    refine ⟨_, _, .loneAmpersand ?_⟩
    intro hrest
    obtain ⟨left, rfl⟩ := List.head?_eq_some_iff.mp hrest
    exact hnone _ (isLexeme_symbol .ampersands) ⟨left, rfl⟩
  · refine ⟨_, _, .unrecognizedCharacter (by simpa using hblank) ?_⟩
    intro word hword hfirst
    obtain ⟨others, rfl⟩ := List.head?_eq_some_iff.mp hfirst
    -- Whatever lexeme begins with the character, the character alone is one.
    apply hnone [x] _ ⟨rest, rfl⟩
    rcases hword.cases_first with ⟨-, -, -, s, hs⟩ | ⟨rfl, -⟩ | hdigits | hrun
    · obtain ⟨t, ht⟩ := s.exists_first hs hx
      rw [← ht]
      exact isLexeme_symbol t
    · exact ⟨_, _, .newline⟩
    · apply isLexeme_digits (List.cons_ne_nil _ _)
      simpa using hdigits x List.mem_cons_self
    · apply isLexeme_nameRun
      simp [isNameRun, isNameStart_of_isNameRun hrun]

theorem Longest.stops_digits (h : Longest run (run ++ rest))
    (hdigits : ∀ x ∈ run, x.isDigit = true) : Cursor.Stops Char.isDigit rest := by
  apply h.stops
  intro x hx
  apply isLexeme_digits (by simp)
  intro y hy
  rcases List.mem_append.mp hy with hy | hy
  · exact hdigits y hy
  · rw [List.mem_singleton.mp hy]
    exact hx

theorem Longest.stops_nameRun (h : Longest run (run ++ rest)) (hrun : isNameRun run = true) :
    Cursor.Stops isNamePart rest := by
  apply h.stops
  intro x hx
  apply isLexeme_nameRun
  cases run with
  | nil => cases hrun
  | cons y run =>
    obtain ⟨hy, hall⟩ := Bool.and_eq_true_iff.mp hrun
    simp only [List.cons_append, isNameRun, List.all_append, List.all_cons, List.all_nil,
      Bool.and_true, Bool.and_eq_true]
    exact ⟨hy, hall, hx⟩

theorem Faulty.ne_nil {fault : LexicalFault} {blamed : List Char}
    (h : Faulty rest fault blamed) : rest ≠ [] := by
  cases h with
  | loneAmpersand _ => simp
  | letterAfterNumber _ _ _ => simp
  | numberOutOfRange hrun _ _ _ =>
    obtain ⟨kind, literal, hkind⟩ := hrun.lexeme
    simp [hkind.ne_nil]
  | unrecognizedCharacter _ _ => simp

/-- Every cut can be continued to the end of the text or to a fault. -/
theorem Cuts.exists_end {text read : List Char} {ts : List Token} (h : Cuts text read ts rest) :
    (∃ us, Cuts text text us []) ∨
      ∃ read us rest fault blamed, Cuts text read us rest ∧ Faulty rest fault blamed := by
  induction hlength : rest.length using Nat.strong_induction_on generalizing read rest ts with
  | h n ih =>
    cases rest with
    | nil =>
      have htext := h.text_eq
      rw [List.append_nil] at htext
      subst htext
      exact Or.inl ⟨ts, h⟩
    | cons x rest =>
      by_cases hsound : ∃ fault blamed, Faulty (x :: rest) fault blamed
      · obtain ⟨fault, blamed, hfault⟩ := hsound
        exact Or.inr ⟨read, ts, x :: rest, fault, blamed, h, hfault⟩
      rcases front_cases x rest with hblank | ⟨word, hword⟩ | hfault
      · exact ih rest.length (by rw [← hlength]; simp) (h.blank hblank) rfl
      · obtain ⟨kind, literal, hkind⟩ := hword.lexeme
        obtain ⟨left, hleft⟩ := hword.isPrefix
        rw [← hleft] at h hword hlength hsound
        have hpos : 0 < word.length := List.length_pos_iff.mpr hkind.ne_nil
        rw [List.length_append] at hlength
        exact ih left.length (by omega)
          (h.token hword (fun fault blamed hf => hsound ⟨fault, blamed, hf⟩) hkind) rfl
      · exact absurd hfault hsound

end Lexemes

end Text

end Jam
