import Jam.Proofs.Token.LongestMatch

/-!
Scanning is longest match. Where a cursor stands, one round of the scanner takes the blank or the
longest lexeme that comes next, or fails with the fault that is there. So a whole scan finds just
the tokens into which the text is cut, each with the span that is counted for it, or just the error
at the first place where it cannot be cut.
-/
namespace Jam

open Text

namespace Cursor

/-- A cursor stands behind a part of a text and before the rest. -/
structure At (c : Cursor) (read rest : List Char) : Prop where
  rest : c.rest = rest
  here : c.here = Place.start.afterAll read

section Steps

variable {c : Cursor} {read word rest : List Char} {x : Char} {kind : TokenKind}
  {literal : Option Int}

theorem At.line (h : c.At read rest) : c.here.line = lineAfter read := by
  rw [h.here, (Place.afterAll_start read).1]

theorem At.column (h : c.At read rest) : c.here.column = columnAfter read := by
  rw [h.here, (Place.afterAll_start read).2]

theorem At.beyond (h : c.At read (word ++ rest)) : (c.beyond word rest).At (read ++ word) rest :=
  ⟨rfl, by rw [Place.afterAll_append, ← h.here]; rfl⟩

/-- A token within a line has the span that is counted for it. -/
theorem At.token_beyond (h : c.At read (word ++ rest)) (hword : '\n' ∉ word) :
    (c.beyond word rest).token kind literal =
      ⟨kind, String.ofList word, literal, .ofWord read word⟩ := by
  have hcolumn : (c.beyond word rest).here.column = columnAfter read + word.length := by
    rw [h.beyond.column, columnAfter_append read hword]
  unfold token
  rw [lexeme_beyond, hcolumn]
  show Token.mk kind _ literal ⟨c.here.line, c.here.column, _⟩ = _
  rw [h.line, h.column]
  rfl

theorem At.error_beyond (h : c.At read (word ++ rest)) (fault : LexicalFault) :
    (c.beyond word rest).error fault =
      ⟨fault, String.ofList word, lineAfter read, columnAfter read⟩ := by
  unfold Cursor.error
  rw [lexeme_beyond]
  show LexicalError.mk fault _ c.here.line c.here.column = _
  rw [h.line, h.column]

theorem At.scanOne_blank (h : c.At read (x :: rest)) (hx : isBlank x = true) :
    ∃ c', c.begin.scanOne = .ok (none, c') ∧ c'.At (read ++ [x]) rest := by
  have hfront : c.At read ([x] ++ rest) := h
  exact ⟨_, Cursor.scanOne_blank h.rest hx, hfront.beyond⟩

/-- Where a token begins and none is refused, the longest lexeme is scanned. -/
theorem At.scanOne_token (h : c.At read (word ++ rest)) (hword : Longest word (word ++ rest))
    (hsound : ∀ fault blamed, ¬ Faulty (word ++ rest) fault blamed)
    (hkind : Spells word kind literal) :
    ∃ c', c.begin.scanOne =
        .ok (some ⟨kind, String.ofList word, literal, .ofWord read word⟩, c') ∧
      c'.At (read ++ word) rest := by
  refine ⟨c.beyond word rest, ?_, h.beyond⟩
  cases hkind with
  | symbol s =>
    rw [← h.token_beyond (Spells.not_mem_newline (.symbol s) (by simp))]
    apply scanOne_longestSymbol h.rest
    intro t ht
    exact hword.longest _ (isLexeme_symbol t) ht
  | newline =>
    rw [scanOne_newline h.rest]
    have hspan : Span.point c.here.line c.here.column = .ofWord read ['\n'] := by
      rw [h.line, h.column]
      rfl
    show Except.ok (some (Token.mk .newline _ none (Span.point c.here.line c.here.column)), _) = _
    rw [hspan]
    rfl
  | number hne hdigits =>
    have hstops := hword.stops_digits hdigits
    have hletter : ¬ rest.head?.any isAlphabetic = true := by
      intro hany
      cases rest with
      | nil => cases hany
      | cons y rest => exact hsound _ _ (.letterAfterNumber hword hdigits hany)
    have hvalue : Nat.ofDigitChars 10 word 0 < numberLimit := by
      by_contra hlarge
      have hrest : ∀ y ∈ rest.head?, isAlphabetic y = false := by
        intro y hy
        cases rest with
        | nil => cases hy
        | cons z rest =>
          obtain rfl : z = y := by simpa using hy
          simpa using hletter
      refine hsound _ _ (.numberOutOfRange hword hdigits hrest ?_)
      unfold numberLimit at hlarge
      omega
    rw [scanOne_digitRun h.rest hne hdigits hstops, if_neg hletter, if_pos hvalue,
      h.token_beyond (Spells.not_mem_newline (.number hne hdigits) (by simp))]
  | keyword k =>
    rw [scanOne_nameRun h.rest k.isNameRun_spelling (hword.stops_nameRun k.isNameRun_spelling),
      h.token_beyond (Spells.not_mem_newline (.keyword k) (by simp)), String.ofList_toList,
      Keyword.ofSpelling?_eq_some_iff.mpr rfl]
    rfl
  | name hrun hno =>
    have hnone : Keyword.ofSpelling? (String.ofList word) = none := by
      cases hk : Keyword.ofSpelling? (String.ofList word) with
      | none => rfl
      | some k =>
        have hspelling := Keyword.ofSpelling?_eq_some_iff.mp hk
        exact absurd (by rw [hspelling, String.toList_ofList]) (hno k)
    rw [scanOne_nameRun h.rest hrun (hword.stops_nameRun hrun),
      h.token_beyond (Spells.not_mem_newline (.name hrun hno) (by simp)), hnone]
    rfl

/-- Where no token can be completed, the scan ends with the error that says so. -/
theorem At.scanOne_faulty {fault : LexicalFault} {blamed : List Char} (h : c.At read rest)
    (hfault : Faulty rest fault blamed) :
    c.begin.scanOne =
      .error ⟨fault, String.ofList blamed, lineAfter read, columnAfter read⟩ := by
  cases hfault with
  | @loneAmpersand left hleft =>
    have hnone : ∀ t : Symbol, ¬ t.spelling.toList <+: '&' :: left := by
      intro t ht
      have hfirst := Symbol.spelling_of_prefix_ampersand ht
      rw [hfirst, List.cons_prefix_cons] at ht
      obtain ⟨others, hothers⟩ := ht.2
      exact hleft (by rw [← hothers]; rfl)
    have hfront : c.At read (['&'] ++ left) := h
    rw [scanOne_noSymbol h.rest (by decide) (by decide) (by decide) hnone, hfront.error_beyond]
    rfl
  | @letterAfterNumber run left x hrun hdigits hx =>
    obtain ⟨kind, literal, hkind⟩ := hrun.lexeme
    have hany : (x :: left).head?.any isAlphabetic = true := hx
    rw [scanOne_digitRun h.rest hkind.ne_nil hdigits (hrun.stops_digits hdigits), if_pos hany,
      h.error_beyond]
  | @numberOutOfRange run left hrun hdigits hleft hvalue =>
    obtain ⟨kind, literal, hkind⟩ := hrun.lexeme
    have hany : ¬ left.head?.any isAlphabetic = true := by
      intro hany
      cases left with
      | nil => cases hany
      | cons y left =>
        have hy : isAlphabetic y = true := hany
        rw [hleft y rfl] at hy
        cases hy
    have hlarge : ¬ Nat.ofDigitChars 10 blamed 0 < numberLimit := by
      unfold numberLimit
      omega
    rw [scanOne_digitRun h.rest hkind.ne_nil hdigits (hrun.stops_digits hdigits), if_neg hany,
      if_neg hlarge, h.error_beyond]
  | @unrecognizedCharacter x left hblank hx =>
    obtain ⟨hgap, hdigit, hname⟩ := not_start_of_no_lexeme hblank hx
    have hnone : ∀ t : Symbol, ¬ t.spelling.toList <+: x :: left := by
      intro t ht
      cases hs : t.spelling.toList with
      | nil => exact (Spells.symbol t).ne_nil hs
      | cons y ys =>
        rw [hs, List.cons_prefix_cons] at ht
        refine hx _ (isLexeme_symbol t) ?_
        rw [hs, ht.1]
        rfl
    have hne : x ≠ '&' := by
      rintro rfl
      exact hx _ (isLexeme_symbol .ampersands) rfl
    have hfront : c.At read ([x] ++ left) := h
    rw [scanOne_noSymbol h.rest hgap hdigit hname hnone, hfront.error_beyond, if_neg hne]

end Steps

/-- Where the text is cut so far, a round of the scanner stands, and what it has found are the
tokens of the cut. -/
theorem exists_scanUpTo_of_cuts {text read rest : List Char} {ts : List Token}
    (h : Cuts text read ts rest) :
    ∃ rounds c, At c read rest ∧ rest.length ≤ rounds ∧
      (ofText text).scanUpTo text.length = (c.scanUpTo rounds).map (ts ++ ·) := by
  induction h with
  | start =>
    refine ⟨text.length, ofText text, ⟨rfl, rfl⟩, Nat.le_refl _, ?_⟩
    cases (ofText text).scanUpTo text.length with
    | error e => rfl
    | ok us => rfl
  | @blank read rest ts x _ hx ih =>
    obtain ⟨rounds, c, hc, hrounds, hscan⟩ := ih
    obtain ⟨c', hone, hc'⟩ := hc.scanOne_blank hx
    rw [List.length_cons] at hrounds
    obtain ⟨rounds, rfl⟩ := Nat.exists_eq_add_of_le' (Nat.le_of_add_left_le hrounds)
    refine ⟨rounds, c', hc', by omega, ?_⟩
    rw [hscan, scanUpTo_of_ok (by simp [hc.rest]) hone]
    cases c'.scanUpTo rounds with
    | error e => rfl
    | ok us => rfl
  | @token read word rest ts kind literal _ hword hsound hkind ih =>
    obtain ⟨rounds, c, hc, hrounds, hscan⟩ := ih
    obtain ⟨c', hone, hc'⟩ := hc.scanOne_token hword hsound hkind
    have hpos : 0 < word.length := List.length_pos_iff.mpr hkind.ne_nil
    rw [List.length_append] at hrounds
    obtain ⟨rounds, rfl⟩ := Nat.exists_eq_add_of_le' (show 1 ≤ rounds by omega)
    refine ⟨rounds, c', hc', by omega, ?_⟩
    rw [hscan, scanUpTo_of_ok (by simp [hc.rest, hkind.ne_nil]) hone]
    cases c'.scanUpTo rounds with
    | error e => rfl
    | ok us => simp [Except.map]

end Cursor

open Cursor

section Tokens

variable {source : String} {ts : List Token}

theorem tokenize_of_cuts (h : Cuts source.toList source.toList ts []) :
    tokenize source =
      .ok (ts ++ [.endOfInput
        (.point (lineAfter source.toList) (columnAfter source.toList))]) := by
  obtain ⟨rounds, c, hc, -, hscan⟩ := exists_scanUpTo_of_cuts h
  rw [tokenize, hscan, scanUpTo_of_end rounds hc.rest, endToken, hc.line, hc.column]
  rfl

theorem tokenize_of_faulty {read rest blamed : List Char} {fault : LexicalFault}
    (h : Cuts source.toList read ts rest) (hfault : Faulty rest fault blamed) :
    tokenize source =
      .error ⟨fault, String.ofList blamed, lineAfter read, columnAfter read⟩ := by
  obtain ⟨rounds, c, hc, hrounds, hscan⟩ := exists_scanUpTo_of_cuts h
  have hpos : 0 < rest.length := List.length_pos_iff.mpr hfault.ne_nil
  obtain ⟨rounds, rfl⟩ := Nat.exists_eq_add_of_le' (show 1 ≤ rounds by omega)
  rw [tokenize, hscan, scanUpTo_of_error (by rw [hc.rest]; exact hfault.ne_nil)
    (hc.scanOne_faulty hfault)]
  rfl

theorem cuts_of_tokenize (h : tokenize source = .ok ts) :
    ∃ us, Cuts source.toList source.toList us [] ∧
      ts = us ++ [.endOfInput
        (.point (lineAfter source.toList) (columnAfter source.toList))] := by
  rcases (Cuts.start : Cuts source.toList [] [] source.toList).exists_end with
    ⟨us, hcuts⟩ | ⟨read, us, rest, fault, blamed, hcuts, hfault⟩
  · rw [tokenize_of_cuts hcuts] at h
    exact ⟨us, hcuts, (Except.ok.inj h).symm⟩
  · rw [tokenize_of_faulty hcuts hfault] at h
    cases h

theorem faulty_of_tokenize {e : LexicalError} (h : tokenize source = .error e) :
    ∃ read us rest fault blamed, Cuts source.toList read us rest ∧ Faulty rest fault blamed ∧
      e = ⟨fault, String.ofList blamed, lineAfter read, columnAfter read⟩ := by
  rcases (Cuts.start : Cuts source.toList [] [] source.toList).exists_end with
    ⟨us, hcuts⟩ | ⟨read, us, rest, fault, blamed, hcuts, hfault⟩
  · rw [tokenize_of_cuts hcuts] at h
    cases h
  · rw [tokenize_of_faulty hcuts hfault] at h
    exact ⟨read, us, rest, fault, blamed, hcuts, hfault, (Except.error.inj h).symm⟩

end Tokens

/-- The scanner finds the tokens into which longest match cuts a text, and fails exactly where the
cut comes to a fault, with the error of that place. -/
theorem tokenize_eq_iff_cuts (source : String) :
    (∀ ts, tokenize source = .ok ts ↔ ∃ us, Cuts source.toList source.toList us [] ∧
      ts = us ++ [.endOfInput
        (.point (lineAfter source.toList) (columnAfter source.toList))]) ∧
    ∀ e, tokenize source = .error e ↔ ∃ read us rest fault blamed,
      Cuts source.toList read us rest ∧ Faulty rest fault blamed ∧
        e = ⟨fault, String.ofList blamed, lineAfter read, columnAfter read⟩ := by
  constructor
  · intro ts
    constructor
    · exact cuts_of_tokenize
    · rintro ⟨us, hcuts, rfl⟩
      exact tokenize_of_cuts hcuts
  · intro e
    constructor
    · exact faulty_of_tokenize
    · rintro ⟨read, us, rest, fault, blamed, hcuts, hfault, rfl⟩
      exact tokenize_of_faulty hcuts hfault

end Jam
