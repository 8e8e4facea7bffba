import Jam.Token.Scan

/-!
How single tokens are scanned. A token that is spelled as its kind asks for is scanned as a whole,
provided that what stands behind it cannot be a part of it.
-/
namespace Jam

open Text

namespace Text

/-- A character that can stand first in a name, and others that can stand in one. -/
def isNameRun : List Char → Bool
  | [] => false
  | x :: xs => isNameStart x && xs.all isNamePart

/-- The blanks and the line feed. -/
def isGap (x : Char) : Bool := isBlank x || x = '\n'

theorem eq_of_isGap {x : Char} (h : isGap x = true) :
    x = ' ' ∨ x = '\t' ∨ x = '\r' ∨ x = '\n' := by
  simpa [isGap, isBlank, or_assoc] using h

theorem isNamePart_eq_false_of_isGap {x : Char} (h : isGap x = true) : isNamePart x = false := by
  rcases eq_of_isGap h with rfl | rfl | rfl | rfl <;> decide

theorem isDigit_eq_false_of_isGap {x : Char} (h : isGap x = true) : x.isDigit = false := by
  rcases eq_of_isGap h with rfl | rfl | rfl | rfl <;> decide

theorem isAlphabetic_eq_false_of_isGap {x : Char} (h : isGap x = true) :
    isAlphabetic x = false := by
  rcases eq_of_isGap h with rfl | rfl | rfl | rfl <;> decide

theorem isGap_eq_false_of_isNameStart {x : Char} (h : isNameStart x = true) : isGap x = false := by
  cases hgap : isGap x with
  | false => rfl
  | true =>
    rcases eq_of_isGap hgap with rfl | rfl | rfl | rfl <;> exact absurd h (by decide)

theorem isDigit_iff {x : Char} : x.isDigit = true ↔ 48 ≤ x.toNat ∧ x.toNat ≤ 57 := by
  unfold Char.isDigit Char.toNat
  simp only [Bool.and_eq_true, decide_eq_true_eq, ge_iff_le, UInt32.le_iff_toNat_le]
  rfl

theorem isDigit_eq_false_of_isNameStart {x : Char} (h : isNameStart x = true) :
    x.isDigit = false := by
  cases hdigit : x.isDigit with
  | false => rfl
  | true =>
    have hx := isDigit_iff.mp hdigit
    have hsmall : x.toNat < 0x80 := by omega
    rcases Bool.or_eq_true_iff.mp h with halpha | hunderscore
    · rw [isAlphabetic, if_pos hsmall] at halpha
      unfold Char.isAlpha Char.isUpper Char.isLower at halpha
      simp [UInt32.le_iff_toNat_le] at halpha
      omega
    · obtain rfl : x = '_' := by simpa using hunderscore
      exact absurd hdigit (by decide)

theorem isGap_eq_false_of_isDigit {x : Char} (h : x.isDigit = true) : isGap x = false := by
  cases hgap : isGap x with
  | false => rfl
  | true => exact absurd h (by rw [isDigit_eq_false_of_isGap hgap]; decide)

end Text

theorem Symbol.spelling_cases (s : Symbol) :
    (∃ x, s.spelling.toList = [x]) ∨ ∃ x y, s.spelling.toList = [x, y] := by
  cases s <;> first | exact Or.inl ⟨_, rfl⟩ | exact Or.inr ⟨_, _, rfl⟩

theorem Symbol.isGap_eq_false_of_mem {s : Symbol} {x : Char} (h : x ∈ s.spelling.toList) :
    isGap x = false := by
  have hall : ∀ s ∈ Symbol.all, (s.spelling.toList.all fun x => !isGap x) = true := by decide
  have hx := List.all_eq_true.mp (hall s (Symbol.mem_all s)) x h
  simpa using hx

theorem Symbol.first_of_spelling {s : Symbol} {x : Char} {xs : List Char}
    (h : s.spelling.toList = x :: xs) :
    isGap x = false ∧ x.isDigit = false ∧ isNameStart x = false := by
  have hall : ∀ s ∈ Symbol.all,
      (s.spelling.toList.head?.all fun x => !x.isDigit && !isNameStart x) = true := by decide
  have hx := hall s (Symbol.mem_all s)
  rw [h] at hx
  refine ⟨Symbol.isGap_eq_false_of_mem (h ▸ List.mem_cons_self), ?_⟩
  simpa using hx

/-- One symbol begins with an ampersand, and it has two of them. -/
theorem Symbol.spelling_of_prefix_ampersand {s : Symbol} {rest : List Char}
    (h : s.spelling.toList <+: '&' :: rest) : s.spelling.toList = ['&', '&'] := by
  have hall : ∀ s ∈ Symbol.all, s.spelling.toList.head? = some '&' →
      s.spelling.toList = ['&', '&'] := by decide
  apply hall s (Symbol.mem_all s)
  rcases s.spelling_cases with ⟨x, hs⟩ | ⟨x, y, hs⟩
  · rw [hs, List.cons_prefix_cons] at h
    rw [hs, h.1]
    rfl
  · rw [hs, List.cons_prefix_cons] at h
    rw [hs, h.1]
    rfl

/-- With one exception, the first character of a symbol is a symbol as well. -/
theorem Symbol.exists_first (s : Symbol) {x : Char} {xs : List Char}
    (hs : s.spelling.toList = x :: xs) (hx : x ≠ '&') :
    ∃ t : Symbol, t.spelling.toList = [x] := by
  have hall : ∀ s ∈ Symbol.all, s.spelling.toList.head? = some '&' ∨
      ∃ t ∈ Symbol.all, t.spelling.toList = s.spelling.toList.take 1 := by decide
  rcases hall s (Symbol.mem_all s) with hampersand | ⟨t, -, ht⟩
  · rw [hs] at hampersand
    exact absurd (by simpa using hampersand) hx
  · rw [hs] at ht
    exact ⟨t, ht⟩

theorem Symbol.ofSpelling?_ofList {s : Symbol} {text : List Char}
    (h : s.spelling.toList = text) : Symbol.ofSpelling? (String.ofList text) = some s := by
  rw [Symbol.ofSpelling?_eq_some_iff, ← h, String.ofList_toList]

theorem Symbol.ofSpelling?_ofList_eq_none {text : List Char}
    (h : ∀ s : Symbol, s.spelling.toList ≠ text) :
    Symbol.ofSpelling? (String.ofList text) = none := by
  cases hs : Symbol.ofSpelling? (String.ofList text) with
  | none => rfl
  | some s =>
    have hspelling := Symbol.ofSpelling?_eq_some_iff.mp hs
    exact absurd (by rw [hspelling, String.toList_ofList]) (h s)

theorem Keyword.isNameRun_spelling (k : Keyword) : isNameRun k.spelling.toList = true :=
  (by decide : ∀ k ∈ Keyword.all, isNameRun k.spelling.toList = true) k (mem_all k)

namespace Cursor

variable {c : Cursor} {x : Char} {rest : List Char}

/-- The input cannot go on with a character of a class. -/
def Stops (p : Char → Bool) (rest : List Char) : Prop := ∀ x ∈ rest.head?, p x = false

theorem readWhile_of_stops {p : Char → Bool} {run : List Char} (hrest : c.rest = run ++ rest)
    (hrun : ∀ x ∈ run, p x = true) (hstops : Stops p rest) :
    c.readWhile p = ⟨rest, run.reverse ++ c.taken, c.mark, c.here.afterAll run⟩ := by
  have htake : rest.takeWhile p = [] := by
    cases rest with
    | nil => rfl
    | cons x rest => rw [List.takeWhile_cons_of_neg]; simpa using hstops x rfl
  have hdrop : rest.dropWhile p = rest := by
    have h := List.takeWhile_append_dropWhile (p := p) (l := rest)
    rwa [htake, List.nil_append] at h
  unfold readWhile
  rw [hrest, List.takeWhile_append_of_pos hrun, List.dropWhile_append_of_pos hrun, htake, hdrop,
    List.append_nil]

/-- What begins a text goes no further than where its characters stop. -/
theorem length_le_of_stops {p : Char → Bool} {word run : List Char}
    (hfront : word <+: run ++ rest) (hstops : Stops p rest) (hword : ∀ x ∈ word, p x = true) :
    word.length ≤ run.length := by
  rcases Nat.lt_or_ge run.length word.length with hlonger | hle
  · cases rest with
    | nil =>
      have hlength := hfront.length_le
      rw [List.append_nil] at hlength
      omega
    | cons y rest =>
      have hrun : run ++ [y] <+: run ++ y :: rest := ⟨rest, by simp⟩
      have hlength : (run ++ [y]).length ≤ word.length := by
        rw [List.length_append, List.length_singleton]
        omega
      have hmem : y ∈ word :=
        (List.prefix_of_prefix_length_le hrun hfront hlength).subset (by simp)
      have hy := hstops y rfl
      rw [hword y hmem] at hy
      cases hy
  · exact hle

/-- A cursor just past the first character of a token that begins where another cursor stands. -/
def past (c : Cursor) (x : Char) (rest : List Char) : Cursor :=
  ⟨rest, [x], c.here, c.here.after x⟩

theorem advance_begin (hrest : c.rest = x :: rest) :
    c.begin.advance = some (x, c.past x rest) := by
  unfold advance begin
  rw [hrest]
  rfl

theorem not_blank_of_isGap (h : isGap x = false) : isBlank x = false ∧ x ≠ '\n' := by
  simpa [isGap] using h

theorem scanOne_blank (hrest : c.rest = x :: rest) (hx : isBlank x = true) :
    c.begin.scanOne = .ok (none, c.past x rest) := by
  rw [scanOne, advance_begin hrest]
  simp only [hx, if_true]

theorem scanOne_newline (hrest : c.rest = '\n' :: rest) :
    c.begin.scanOne =
      .ok (some (c.past '\n' rest).newlineToken, c.past '\n' rest) := by
  rw [scanOne, advance_begin hrest]
  rfl

theorem scanOne_word (hrest : c.rest = x :: rest) (hx : isNameStart x = true) :
    c.begin.scanOne =
      .ok (some (c.past x rest).scanWord.1, (c.past x rest).scanWord.2) := by
  obtain ⟨hblank, hnewline⟩ := not_blank_of_isGap (isGap_eq_false_of_isNameStart hx)
  rw [scanOne, advance_begin hrest]
  simp [hblank, hnewline, isDigit_eq_false_of_isNameStart hx, hx]

theorem scanOne_number (hrest : c.rest = x :: rest) (hx : x.isDigit = true) :
    c.begin.scanOne = (c.past x rest).scanNumber.map fun (t, c) => (some t, c) := by
  obtain ⟨hblank, hnewline⟩ := not_blank_of_isGap (isGap_eq_false_of_isDigit hx)
  rw [scanOne, advance_begin hrest]
  simp [hblank, hnewline, hx]

theorem scanOne_symbol (hrest : c.rest = x :: rest) (hgap : isGap x = false)
    (hdigit : x.isDigit = false) (hname : isNameStart x = false) :
    c.begin.scanOne = ((c.past x rest).scanSymbol x).map fun (t, c) => (some t, c) := by
  obtain ⟨hblank, hnewline⟩ := not_blank_of_isGap hgap
  rw [scanOne, advance_begin hrest]
  simp [hblank, hnewline, hdigit, hname]

/-- A cursor behind the characters of a token that begins where another cursor stands. -/
def beyond (c : Cursor) (text rest : List Char) : Cursor :=
  ⟨rest, text.reverse, c.here, c.here.afterAll text⟩

theorem lexeme_beyond (c : Cursor) (text rest : List Char) : (c.beyond text rest).lexeme = text :=
  List.reverse_reverse text

/-- A run behind the first character is read to its end. -/
theorem readWhile_past {p : Char → Bool} {run : List Char} (c : Cursor) (x : Char)
    (hrun : ∀ x ∈ run, p x = true) (hstops : Stops p rest) :
    (c.past x (run ++ rest)).readWhile p = c.beyond (x :: run) rest := by
  rw [readWhile_of_stops rfl hrun hstops]
  simp [past, beyond, Place.afterAll]

/-- A run of name characters that ends where it can is scanned as a keyword or a name. -/
theorem scanOne_nameRun {text : List Char} (hrest : c.rest = text ++ rest)
    (htext : isNameRun text = true) (hstops : Stops isNamePart rest) :
    c.begin.scanOne = .ok (some ((c.beyond text rest).token
      ((Keyword.ofSpelling? (String.ofList text)).elim .name .keyword) none),
      c.beyond text rest) := by
  cases text with
  | nil => cases htext
  | cons x run =>
    obtain ⟨hx, hrun⟩ := Bool.and_eq_true_iff.mp htext
    have hread := readWhile_past c x (List.all_eq_true.mp hrun) hstops
    rw [List.cons_append] at hrest
    rw [scanOne_word hrest hx]
    simp only [scanWord, hread, lexeme_beyond]

/-- A run of digits that ends where it can is a number, unless a letter follows or its value is
too large. -/
theorem scanOne_digitRun {text : List Char} (hrest : c.rest = text ++ rest) (hne : text ≠ [])
    (hdigits : ∀ x ∈ text, x.isDigit = true) (hstops : Stops Char.isDigit rest) :
    c.begin.scanOne =
      if rest.head?.any isAlphabetic then .error ((c.beyond text rest).error .letterAfterNumber)
      else if Nat.ofDigitChars 10 text 0 < numberLimit then
        .ok (some ((c.beyond text rest).token .number (some (Nat.ofDigitChars 10 text 0))),
          c.beyond text rest)
      else .error ((c.beyond text rest).error .numberOutOfRange) := by
  cases text with
  | nil => exact absurd rfl hne
  | cons x run =>
    rw [List.forall_mem_cons] at hdigits
    have hread := readWhile_past c x hdigits.2 hstops
    have hpeek : isAlphabetic (c.beyond (x :: run) rest).peek = rest.head?.any isAlphabetic := by
      cases rest with
      | nil =>
        show isAlphabetic '\x00' = false
        decide
      | cons y rest => rfl
    rw [List.cons_append] at hrest
    rw [scanOne_number hrest hdigits.1]
    simp only [scanNumber, hread, lexeme_beyond, hpeek]
    by_cases hletter : rest.head?.any isAlphabetic = true
    · rw [if_pos hletter, if_pos hletter]
      rfl
    · rw [if_neg hletter, if_neg hletter]
      by_cases hvalue : Nat.ofDigitChars 10 (x :: run) 0 < numberLimit
      · rw [if_pos hvalue, if_pos hvalue]
        rfl
      · rw [if_neg hvalue, if_neg hvalue]
        rfl

/-- At a mark, some characters are scanned as a token with a kind and a value. -/
def ScansOne (text : List Char) (kind : TokenKind) (literal : Option Int)
    (rest : List Char) : Prop :=
  ∀ c : Cursor, c.rest = text ++ rest → ∃ t c', c.begin.scanOne = .ok (some t, c') ∧
    t.kind = kind ∧ t.lexeme = String.ofList text ∧ t.literal = literal ∧ c'.rest = rest

theorem scansOne_newline (rest : List Char) : ScansOne ['\n'] .newline none rest :=
  fun _ hrest => ⟨_, _, scanOne_newline hrest, rfl, rfl, rfl, rfl⟩

theorem scansOne_of_beyond {text : List Char} {kind : TokenKind} {literal : Option Int}
    (h : ∀ c : Cursor, c.rest = text ++ rest → c.begin.scanOne =
      .ok (some ((c.beyond text rest).token kind literal), c.beyond text rest)) :
    ScansOne text kind literal rest := by
  intro c hrest
  refine ⟨_, _, h c hrest, rfl, ?_, rfl, rfl⟩
  rw [token, lexeme_beyond]

theorem scansOne_word {text : List Char} (htext : isNameRun text = true)
    (hstops : Stops isNamePart rest) :
    ScansOne text ((Keyword.ofSpelling? (String.ofList text)).elim .name .keyword) none rest :=
  scansOne_of_beyond fun _ hrest => scanOne_nameRun hrest htext hstops

theorem scansOne_number {text : List Char} (hne : text ≠ [])
    (hdigits : ∀ x ∈ text, x.isDigit = true) (hvalue : Nat.ofDigitChars 10 text 0 < numberLimit)
    (hstops : Stops Char.isDigit rest) (hletter : Stops isAlphabetic rest) :
    ScansOne text .number (some (Nat.ofDigitChars 10 text 0)) rest := by
  apply scansOne_of_beyond
  intro c hrest
  have hnone : rest.head?.any isAlphabetic = false := by
    cases rest with
    | nil => rfl
    | cons y rest => exact hletter y rfl
  rw [scanOne_digitRun hrest hne hdigits hstops, hnone, if_neg Bool.false_ne_true, if_pos hvalue]

theorem longestSymbol?_nil (hrest : c.rest = []) :
    c.longestSymbol? x = (Symbol.ofSpelling? (String.ofList [x])).map (·, c) := by
  unfold longestSymbol? advance
  rw [hrest]
  rfl

theorem longestSymbol?_cons {y : Char} (hrest : c.rest = y :: rest) :
    c.longestSymbol? x = ((Symbol.ofSpelling? (String.ofList [x, y])).map
        (·, ⟨rest, y :: c.taken, c.mark, c.here.after y⟩)).or
      ((Symbol.ofSpelling? (String.ofList [x])).map (·, c)) := by
  unfold longestSymbol? advance
  rw [hrest]
  cases htwo : Symbol.ofSpelling? (String.ofList [x, y]) with
  | none => simp only [Option.bind_eq_bind, Option.bind_some, htwo]; rfl
  | some s => simp only [Option.bind_eq_bind, Option.bind_some, htwo]; rfl

/-- Only the symbols that begin a text can be scanned where it begins. -/
theorem ofSpelling?_eq_none_of_not_prefix {text word : List Char} (hword : word <+: text)
    (hnone : ∀ t : Symbol, t.spelling.toList <+: text → t.spelling.toList.length < word.length) :
    Symbol.ofSpelling? (String.ofList word) = none := by
  apply Symbol.ofSpelling?_ofList_eq_none
  intro t ht
  subst word
  exact absurd (hnone t hword) (Nat.lt_irrefl _)

/-- A symbol is scanned if no longer one begins where it does. -/
theorem scanOne_longestSymbol {s : Symbol} (hrest : c.rest = s.spelling.toList ++ rest)
    (hlongest : ∀ t : Symbol, t.spelling.toList <+: s.spelling.toList ++ rest →
      t.spelling.toList.length ≤ s.spelling.toList.length) :
    c.begin.scanOne = .ok (some ((c.beyond s.spelling.toList rest).token (.symbol s) none),
      c.beyond s.spelling.toList rest) := by
  rcases s.spelling_cases with ⟨x, hs⟩ | ⟨x, y, hs⟩
  · obtain ⟨hgap, hdigit, hname⟩ := Symbol.first_of_spelling hs
    rw [hs] at hrest hlongest ⊢
    have hone := Symbol.ofSpelling?_ofList hs
    have hscan : (c.past x rest).longestSymbol? x = some (s, c.past x rest) := by
      cases rest with
      | nil => rw [longestSymbol?_nil rfl, hone, Option.map_some]
      | cons y rest =>
        have htwo : Symbol.ofSpelling? (String.ofList [x, y]) = none :=
          ofSpelling?_eq_none_of_not_prefix ⟨rest, rfl⟩
            fun t ht => Nat.lt_succ_of_le (hlongest t ht)
        rw [longestSymbol?_cons rfl, htwo, hone]
        rfl
    rw [List.singleton_append] at hrest
    rw [scanOne_symbol hrest hgap hdigit hname, scanSymbol, hscan]
    rfl
  · obtain ⟨hgap, hdigit, hname⟩ := Symbol.first_of_spelling hs
    rw [hs] at hrest ⊢
    have hscan : (c.past x (y :: rest)).longestSymbol? x = some (s, c.beyond [x, y] rest) := by
      rw [longestSymbol?_cons rfl, Symbol.ofSpelling?_ofList hs]
      rfl
    rw [List.cons_append, List.singleton_append] at hrest
    rw [scanOne_symbol hrest hgap hdigit hname, scanSymbol, hscan]
    rfl

/-- Where neither a blank nor a line feed, a number, a word or a symbol begins, the first
character is refused. -/
theorem scanOne_noSymbol (hrest : c.rest = x :: rest) (hgap : isGap x = false)
    (hdigit : x.isDigit = false) (hname : isNameStart x = false)
    (hnone : ∀ t : Symbol, ¬ t.spelling.toList <+: x :: rest) :
    c.begin.scanOne = .error ((c.beyond [x] rest).error
      (if x = '&' then .loneAmpersand else .unrecognizedCharacter)) := by
  have hone : Symbol.ofSpelling? (String.ofList [x]) = none :=
    ofSpelling?_eq_none_of_not_prefix ⟨rest, rfl⟩ fun t ht => absurd ht (hnone t)
  have hscan : (c.past x rest).longestSymbol? x = none := by
    cases rest with
    | nil => rw [longestSymbol?_nil rfl, hone, Option.map_none]
    | cons y rest =>
      have htwo : Symbol.ofSpelling? (String.ofList [x, y]) = none :=
        ofSpelling?_eq_none_of_not_prefix ⟨rest, rfl⟩ fun t ht => absurd ht (hnone t)
      rw [longestSymbol?_cons rfl, htwo, hone]
      rfl
  rw [scanOne_symbol hrest hgap hdigit hname, scanSymbol, hscan]
  rfl

theorem scansOne_symbol (s : Symbol) (hgap : ∀ x ∈ rest.head?, isGap x = true) :
    ScansOne s.spelling.toList (.symbol s) none rest := by
  apply scansOne_of_beyond
  intro c hrest
  apply scanOne_longestSymbol hrest
  intro t ht
  -- A longer symbol would have the first character of the rest in it, and that is a gap.
  have hstops : Stops (fun x => !isGap x) rest := by
    intro x hx
    simp [hgap x hx]
  apply length_le_of_stops ht hstops
  intro x hx
  simp [Symbol.isGap_eq_false_of_mem hx]

/-- One round finds a blank or a token, and the rounds that are left go on behind it. -/
theorem scanUpTo_of_ok {rounds : Nat} {c' : Cursor} {t? : Option Token} (hc : c.rest ≠ [])
    (hone : c.begin.scanOne = .ok (t?, c')) :
    c.scanUpTo (rounds + 1) = (c'.scanUpTo rounds).map (t?.toList ++ ·) := by
  have hend : ¬ c.isAtEnd = true := by simpa [isAtEnd] using hc
  rw [scanUpTo, if_neg hend, hone]
  show (c'.scanUpTo rounds >>= fun tokens => pure (t?.toList ++ tokens)) = _
  cases c'.scanUpTo rounds with
  | error e => rfl
  | ok ts => rfl

theorem scanUpTo_of_error {rounds : Nat} {e : LexicalError} (hc : c.rest ≠ [])
    (hone : c.begin.scanOne = .error e) : c.scanUpTo (rounds + 1) = .error e := by
  have hend : ¬ c.isAtEnd = true := by simpa [isAtEnd] using hc
  rw [scanUpTo, if_neg hend, hone]
  rfl

theorem scanUpTo_of_end (rounds : Nat) (hc : c.rest = []) :
    c.scanUpTo rounds = .ok [c.endToken] := by
  cases rounds with
  | zero => rfl
  | succ rounds =>
    have hend : c.isAtEnd = true := by
      rw [isAtEnd, hc]
      rfl
    rw [scanUpTo, if_pos hend]

end Cursor

end Jam
