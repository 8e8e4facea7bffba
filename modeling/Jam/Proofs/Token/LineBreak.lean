import Jam.Proofs.Token.Scanned
import Jam.Proofs.Token.Truncated

/-!
Scanning across a gap, and above all across a line break. No lexeme goes over a gap, and what is
refused before it is refused without it, so the text before a gap is cut as if it stood alone. The
text behind a line break is cut as if it stood alone as well, further down by as many lines as come
before.
-/
namespace Jam

open Text

/-- The token on a line that is further down. -/
def Token.down (lines : Nat) (t : Token) : Token := { t with span := t.span.down lines }

def LexicalError.down (lines : Nat) (e : LexicalError) : LexicalError :=
  { e with line := e.line + lines }

namespace Text

variable {text word read rest blamed : List Char} {fault : LexicalFault} {ts : List Token}

theorem Longest.ne_nil (h : Longest word text) : text ≠ [] := by
  rintro rfl
  obtain ⟨kind, literal, hkind⟩ := h.lexeme
  exact hkind.ne_nil (List.prefix_nil.mp h.isPrefix)

section Gap

variable {gap : Char} (hgap : isGap gap = true)

include hgap

/-- A lexeme that begins before a gap ends there at the latest. -/
theorem IsLexeme.prefix_of_append_gap {more : List Char} (h : IsLexeme word) (hne : text ≠ [])
    (hfront : word <+: text ++ gap :: more) : word <+: text := by
  rcases Nat.lt_or_ge text.length word.length with hlonger | hle
  · exfalso
    have hover : text ++ [gap] <+: text ++ gap :: more := ⟨more, by simp⟩
    have hlength : (text ++ [gap]).length ≤ word.length := by
      rw [List.length_append, List.length_singleton]
      omega
    have hmem : gap ∈ word :=
      (List.prefix_of_prefix_length_le hover hfront hlength).subset (by simp)
    obtain ⟨kind, literal, hkind⟩ := h
    by_cases hline : kind = .newline
    · subst hline
      have hpos := List.length_pos_iff.mpr hne
      cases hkind
      rw [List.length_singleton] at hlonger
      omega
    · rw [hkind.isGap_eq_false hline hmem] at hgap
      cases hgap
  · exact List.prefix_of_prefix_length_le hfront (List.prefix_append _ _) hle

theorem Longest.append_gap (h : Longest word text) (more : List Char) :
    Longest word (text ++ gap :: more) where
  lexeme := h.lexeme
  isPrefix := h.isPrefix.trans (List.prefix_append _ _)
  longest := fun v hv hfront => h.longest v hv (hv.prefix_of_append_gap hgap h.ne_nil hfront)

theorem Faulty.append_gap (h : Faulty text fault blamed) (more : List Char) :
    Faulty (text ++ gap :: more) fault blamed := by
  cases h with
  | @loneAmpersand rest hrest =>
    refine .loneAmpersand ?_
    cases rest with
    | nil =>
      rintro ⟨⟩
      exact absurd hgap (by decide)
    | cons y rest => exact hrest
  | @letterAfterNumber run rest x hrun hdigits hx =>
    have hlonger := hrun.append_gap hgap more
    rw [List.append_assoc, List.cons_append] at hlonger ⊢
    exact .letterAfterNumber hlonger hdigits hx
  | @numberOutOfRange run rest hrun hdigits hrest hvalue =>
    have hlonger := hrun.append_gap hgap more
    rw [List.append_assoc] at hlonger ⊢
    refine .numberOutOfRange hlonger hdigits ?_ hvalue
    intro y hy
    cases rest with
    | nil =>
      obtain rfl : gap = y := by simpa using hy
      exact isAlphabetic_eq_false_of_isGap hgap
    | cons z rest => exact hrest y hy
  | unrecognizedCharacter hblank hx => exact .unrecognizedCharacter hblank hx

/-- A gap cannot be the reason why a token is refused. -/
theorem Faulty.of_append_gap {more : List Char} (h : Faulty (text ++ gap :: more) fault blamed)
    (hne : text ≠ []) : Faulty text fault blamed := by
  obtain ⟨first, others, rfl⟩ := List.exists_cons_of_ne_nil hne
  generalize hall : first :: others ++ gap :: more = all at h
  cases h with
  | @loneAmpersand rest hrest =>
    obtain ⟨rfl, rfl⟩ := List.cons.inj hall
    refine .loneAmpersand ?_
    cases others with
    | nil => simp
    | cons y others => exact hrest
  | @letterAfterNumber run rest x hrun hdigits hx =>
    rw [← hall] at hrun
    obtain ⟨left, hleft⟩ := hrun.lexeme.prefix_of_append_gap hgap hne hrun.isPrefix
    have hfront := hrun.of_append ⟨left, hleft⟩
    rw [← hleft, List.append_assoc] at hall
    rw [← hleft] at hfront ⊢
    cases left with
    | nil =>
      obtain rfl : gap = x := (List.cons.inj (List.append_cancel_left hall)).1
      rw [isAlphabetic_eq_false_of_isGap hgap] at hx
      cases hx
    | cons y left =>
      obtain rfl : y = x := (List.cons.inj (List.append_cancel_left hall)).1
      exact .letterAfterNumber hfront hdigits hx
  | @numberOutOfRange run rest hrun hdigits hrest hvalue =>
    rw [← hall] at hrun
    obtain ⟨left, hleft⟩ := hrun.lexeme.prefix_of_append_gap hgap hne hrun.isPrefix
    have hfront := hrun.of_append ⟨left, hleft⟩
    rw [← hleft, List.append_assoc] at hall
    rw [← hleft] at hfront ⊢
    refine .numberOutOfRange hfront hdigits ?_ hvalue
    intro y hy
    apply hrest
    rw [← List.append_cancel_left hall, List.head?_append, hy]
    rfl
  | unrecognizedCharacter hblank hx =>
    obtain ⟨rfl, -⟩ := List.cons.inj hall
    exact .unrecognizedCharacter hblank hx

theorem Cuts.append_gap (h : Cuts text read ts rest) (more : List Char) :
    Cuts (text ++ gap :: more) read ts (rest ++ gap :: more) := by
  induction h with
  | start => exact .start
  | blank _ hx ih => exact ih.blank hx
  | @token read word rest ts kind literal _ hword hsound hkind ih =>
    have hlonger := hword.append_gap hgap more
    rw [List.append_assoc] at ih hlonger
    refine ih.token hlonger ?_ hkind
    intro fault blamed hfault
    rw [← List.append_assoc] at hfault
    exact hsound fault blamed (hfault.of_append_gap hgap hword.ne_nil)

end Gap

/-- A line feed is the longest lexeme that begins with one, and it is not refused. -/
theorem longest_newline (more : List Char) : Longest ['\n'] ('\n' :: more) where
  lexeme := ⟨_, _, .newline⟩
  isPrefix := List.prefix_append ['\n'] more
  longest := by
    intro v hv hfront
    obtain ⟨left, rfl⟩ := List.head?_eq_some_iff.mp (hv.head?_eq hfront)
    rcases hv.cases_first with ⟨hgap, -⟩ | ⟨-, rfl⟩ | hdigits | hrun
    · exact absurd hgap (by decide)
    · exact Nat.le_refl _
    · exact absurd (hdigits _ List.mem_cons_self) (by decide)
    · exact absurd (isNameStart_of_isNameRun hrun) (by decide)

theorem not_faulty_newline (more : List Char) (fault : LexicalFault) (blamed : List Char) :
    ¬ Faulty ('\n' :: more) fault blamed := by
  intro h
  obtain ⟨hne, hfront⟩ := h.blamed_front
  obtain ⟨x, left, rfl⟩ := List.exists_cons_of_ne_nil hne
  obtain rfl : x = '\n' := (List.cons_prefix_cons.mp hfront).1
  generalize hall : '\n' :: more = all at h
  cases h with
  | letterAfterNumber _ hdigits _ => exact absurd (hdigits _ List.mem_cons_self) (by decide)
  | numberOutOfRange _ hdigits _ _ => exact absurd (hdigits _ List.mem_cons_self) (by decide)
  | unrecognizedCharacter _ hx => exact hx ['\n'] ⟨_, _, .newline⟩ rfl

/-- The text behind a line break is cut as if it stood alone, on lines further down. -/
theorem Cuts.line_below {above : List Char} {us : List Token} (habove : Cuts above above us [])
    (h : Cuts text read ts rest) :
    Cuts (above ++ '\n' :: text) (above ++ '\n' :: read)
      (us ++ ⟨.newline, "\n", none, .ofWord above ['\n']⟩ ::
        ts.map (Token.down (lineAfter above))) rest := by
  induction h with
  | start =>
    have hbreak : Cuts (above ++ '\n' :: text) above us (['\n'] ++ text) :=
      habove.append_gap rfl text
    exact hbreak.token (longest_newline text) (not_faulty_newline text) .newline
  | @blank read rest ts x _ hx ih =>
    have hnext := ih.blank hx
    rwa [List.append_assoc, List.cons_append] at hnext
  | @token read word rest ts kind literal _ hword hsound hkind ih =>
    have hnext := ih.token hword hsound hkind
    rw [Span.ofWord_append_newline, List.append_assoc, List.append_assoc, List.cons_append,
      List.cons_append] at hnext
    rw [List.map_append]
    exact hnext

end Text

section Lines

variable {above below source : String} {us : List Token} {s : Span}

theorem toList_line (above below : String) :
    (above ++ "\n" ++ below).toList = above.toList ++ '\n' :: below.toList := by
  simp

/-- What is refused before a gap is refused whatever stands behind it. -/
theorem tokenize_gap_of_error {gap : Char} {more : List Char} {e : LexicalError}
    (hgap : isGap gap = true) (hsource : source.toList = above.toList ++ gap :: more)
    (h : tokenize above = .error e) : tokenize source = .error e := by
  obtain ⟨read, us, rest, fault, blamed, hcuts, hfault, rfl⟩ := faulty_of_tokenize h
  have hall := hcuts.append_gap hgap more
  rw [← hsource] at hall
  exact tokenize_of_faulty hall (hfault.append_gap hgap more)

/-- What is scanned of a text is cut from it, and its end is where the next line would break. -/
theorem cuts_of_tokenize_concat (h : tokenize above = .ok (us ++ [.endOfInput s])) :
    Cuts above.toList above.toList us [] ∧ s = .ofWord above.toList ['\n'] := by
  obtain ⟨vs, hcuts, hlast⟩ := cuts_of_tokenize h
  obtain ⟨rfl, hend⟩ := List.append_inj' hlast rfl
  refine ⟨hcuts, ?_⟩
  have hspan := congrArg Token.span (List.singleton_inj.mp hend)
  exact hspan

/-- A scan goes on behind a line break as if it had begun there, some lines further down. -/
theorem tokenize_line_of_ok {vs : List Token}
    (habove : tokenize above = .ok (us ++ [.endOfInput s])) (hbelow : tokenize below = .ok vs) :
    tokenize (above ++ "\n" ++ below) =
      .ok (us ++ ⟨.newline, "\n", none, s⟩ :: vs.map (Token.down (lineAfter above.toList))) := by
  obtain ⟨hcuts, rfl⟩ := cuts_of_tokenize_concat habove
  obtain ⟨ws, hcuts', rfl⟩ := cuts_of_tokenize hbelow
  have hall := hcuts.line_below hcuts'
  rw [← toList_line] at hall
  rw [tokenize_of_cuts hall, toList_line, lineAfter_append_newline, columnAfter_append_newline,
    List.map_append, List.append_assoc, List.cons_append]
  rfl

theorem tokenize_line_of_error {e : LexicalError}
    (habove : tokenize above = .ok (us ++ [.endOfInput s])) (hbelow : tokenize below = .error e) :
    tokenize (above ++ "\n" ++ below) = .error (e.down (lineAfter above.toList)) := by
  obtain ⟨hcuts, -⟩ := cuts_of_tokenize_concat habove
  obtain ⟨read, ws, rest, fault, blamed, hcuts', hfault, rfl⟩ := faulty_of_tokenize hbelow
  have hall := hcuts.line_below hcuts'
  rw [← toList_line] at hall
  rw [tokenize_of_faulty hall hfault, lineAfter_append_newline, columnAfter_append_newline]
  rfl

/-- A text is scanned line by line. An error above a line break is the error of the whole text. If
there is none above but one below, that one is met, further down. Otherwise the line break takes the
place of the end of the text above, and the tokens of the text below follow, further down. -/
theorem tokenize_line (above below : String) :
    (∀ e, tokenize above = .error e → tokenize (above ++ "\n" ++ below) = .error e) ∧
    (∀ ts e, tokenize above = .ok ts → tokenize below = .error e →
      tokenize (above ++ "\n" ++ below) =
        .error { e with line := e.line + lineAfter above.toList }) ∧
    ∀ ts vs, tokenize above = .ok ts → tokenize below = .ok vs →
      ∃ us s, ts = us ++ [.endOfInput s] ∧ tokenize (above ++ "\n" ++ below) =
        .ok (us ++ ⟨.newline, "\n", none, s⟩ :: vs.map (Token.down (lineAfter above.toList))) := by
  refine ⟨?_, ?_, ?_⟩
  · intro e habove
    exact tokenize_gap_of_error rfl (toList_line above below) habove
  · intro ts e habove hbelow
    obtain ⟨us, -, rfl⟩ := cuts_of_tokenize habove
    exact tokenize_line_of_error habove hbelow
  · intro ts vs habove hbelow
    obtain ⟨us, -, rfl⟩ := cuts_of_tokenize habove
    exact ⟨us, _, rfl, tokenize_line_of_ok habove hbelow⟩

/-- Neither `+` nor `&` nor a number goes on behind a line break. -/
theorem tokenize_line_lookahead :
    let é : Token := ⟨.name, "é", none, ⟨1, 1, 1⟩⟩
    let number : Token := ⟨.number, "12", some 12, ⟨2, 2, 3⟩⟩
    let plus (line column : Nat) : Token := ⟨.symbol .plus, "+", none, .point line column⟩
    let break_ (line column : Nat) : Token := ⟨.newline, "\n", none, .point line column⟩
    (tokenize "\t&" = .error ⟨.loneAmpersand, "&", 1, 2⟩ ∧
      tokenize ("\t&" ++ "\n" ++ "&") = .error ⟨.loneAmpersand, "&", 1, 2⟩) ∧
    (tokenize "\n 12" = .ok [break_ 1 1, number, .endOfInput (.point 2 4)] ∧
      tokenize "a 3b" = .error ⟨.letterAfterNumber, "3", 1, 3⟩ ∧
      tokenize ("\n 12" ++ "\n" ++ "a 3b") = .error ⟨.letterAfterNumber, "3", 3, 3⟩) ∧
    tokenize "é +" = .ok ([é, plus 1 3] ++ [.endOfInput (.point 1 4)]) ∧
      tokenize "+" = .ok [plus 1 1, .endOfInput (.point 1 2)] ∧
      tokenize ("é +" ++ "\n" ++ "+") =
        .ok [é, plus 1 3, break_ 1 4, plus 2 1, .endOfInput (.point 2 2)] := by
  intro é number plus break_
  have hlone : tokenize "\t&" = .error ⟨.loneAmpersand, "&", 1, 2⟩ := by decide
  have hnumber : tokenize "\n 12" = .ok [break_ 1 1, number, .endOfInput (.point 2 4)] := by decide
  have hletter : tokenize "a 3b" = .error ⟨.letterAfterNumber, "3", 1, 3⟩ := by decide
  have habove : tokenize "é +" = .ok ([é, plus 1 3] ++ [.endOfInput (.point 1 4)]) := by decide
  have hbelow : tokenize "+" = .ok [plus 1 1, .endOfInput (.point 1 2)] := by decide
  refine ⟨⟨hlone, (tokenize_line _ _).1 _ hlone⟩,
    ⟨hnumber, hletter, (tokenize_line _ _).2.1 _ _ hnumber hletter⟩, habove, hbelow, ?_⟩
  obtain ⟨us, s, hsplit, hline⟩ := (tokenize_line _ _).2.2 _ _ habove hbelow
  obtain ⟨rfl, hend⟩ := List.append_inj' hsplit rfl
  obtain rfl : Span.point 1 4 = s := congrArg Token.span (List.singleton_inj.mp hend)
  exact hline

end Lines

end Jam
