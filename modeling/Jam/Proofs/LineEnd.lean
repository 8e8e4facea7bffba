import Jam.Proofs.Composed

/-!
How lines end. A carriage return in front of a line feed is a blank that comes last on its line, so
it moves no token but the line break, and line breaks are dropped before parsing. Hence a text is
the same program, with the same positions, or has the same error, whether its lines end with both
characters or with a line feed alone.
-/
namespace Jam

open Text

/-- A carriage return in front of a line feed is left out. -/
def Text.shortLineEnds : List Char → List Char
  | '\r' :: '\n' :: text => '\n' :: shortLineEnds text
  | x :: text => x :: shortLineEnds text
  | [] => []

/-- The tokens of a text that are parsed, and then the end of the input. -/
def scanned (source : String) : Except LexicalError (List Token) :=
  (tokenize source).map Token.withoutNewlines

namespace Program

theorem ofText_eq_of_scanned_eq {source source' : String} (h : scanned source = scanned source') :
    ofText source = ofText source' := by
  have hparsed : ∀ text, ofText text = ((scanned text).mapError .lexical >>= fun ts =>
      (ofTokens ts).mapError .syntactic) := by
    intro text
    unfold ofText scanned
    cases tokenize text with
    | error e => rfl
    | ok ts => rfl
  rw [hparsed, hparsed, h]

end Program

/-- A text is scanned line by line. -/
theorem scanned_line (above below : String) : scanned (above ++ "\n" ++ below) = do
    let ts ← (scanned above).map List.dropLast
    let us ← (scanned below).mapError (LexicalError.down (lineAfter above.toList))
    return ts ++ us.map (Token.down (lineAfter above.toList)) := by
  unfold scanned
  cases habove : tokenize above with
  | error e =>
    rw [tokenize_gap_of_error rfl (toList_line above below) habove]
    rfl
  | ok ts =>
    obtain ⟨us, -, rfl⟩ := cuts_of_tokenize habove
    cases hbelow : tokenize below with
    | error e =>
      rw [tokenize_line_of_error habove hbelow]
      rfl
    | ok vs =>
      rw [tokenize_line_of_ok habove hbelow]
      simp only [Except.map, Program.withoutNewlines_line, Token.withoutNewlines_concat_end,
        List.dropLast_concat]
      rfl

/-- A blank that comes last moves the end of the input and nothing else. -/
theorem scanned_blank {above source : String} {x : Char} (hx : isBlank x = true)
    (hsource : source.toList = above.toList ++ [x]) :
    (scanned source).map List.dropLast = (scanned above).map List.dropLast := by
  have hgap : isGap x = true := by simp [isGap, hx]
  unfold scanned
  cases habove : tokenize above with
  | error e => rw [tokenize_gap_of_error hgap hsource habove]
  | ok ts =>
    obtain ⟨us, hcuts, rfl⟩ := cuts_of_tokenize habove
    have hall := (hcuts.append_gap hgap []).blank hx
    rw [← hsource] at hall
    simp only [tokenize_of_cuts hall, Except.map, Token.withoutNewlines_concat_end,
      List.dropLast_concat]

/-- What is above a line feed may end with a carriage return. -/
theorem scanned_return (above below : String) :
    scanned (above ++ "\r" ++ "\n" ++ below) = scanned (above ++ "\n" ++ below) := by
  have hreturn : (above ++ "\r").toList = above.toList ++ ['\r'] := by simp
  have hline : lineAfter (above ++ "\r").toList = lineAfter above.toList := by
    rw [hreturn, lineAfter_concat, if_neg (by decide)]
  rw [scanned_line, scanned_line, hline, scanned_blank (by decide) hreturn]

/-- Whatever stands in front, line ends may be written short or long. -/
theorem scanned_shortLineEnds (front text : List Char) :
    scanned (String.ofList (front ++ shortLineEnds text)) =
      scanned (String.ofList (front ++ text)) := by
  induction text using shortLineEnds.induct generalizing front with
  | case1 text ih =>
    have hshort : String.ofList (front ++ shortLineEnds ('\r' :: '\n' :: text)) =
        String.ofList front ++ "\n" ++ String.ofList (shortLineEnds text) := by
      simp [← String.toList_inj, shortLineEnds]
    have hlong : String.ofList (front ++ '\r' :: '\n' :: text) =
        String.ofList front ++ "\r" ++ "\n" ++ String.ofList text := by
      simp [← String.toList_inj]
    rw [hshort, hlong, scanned_return, scanned_line, scanned_line]
    have hbelow := ih []
    rw [List.nil_append, List.nil_append] at hbelow
    rw [hbelow]
  | case2 x text hpair ih =>
    have hfront := ih (front ++ [x])
    rw [List.append_assoc, List.append_assoc] at hfront
    rw [shortLineEnds]
    · exact hfront
    · exact hpair
  | case3 => rfl

/-- It makes no difference how lines end. -/
theorem Program.ofText_shortLineEnds (source : String) :
    ofText (String.ofList (shortLineEnds source.toList)) = ofText source := by
  have h := scanned_shortLineEnds [] source.toList
  rw [List.nil_append, List.nil_append, String.ofList_toList] at h
  exact ofText_eq_of_scanned_eq h

/-- One carriage return is left out at each line end, and none elsewhere. -/
example : shortLineEnds ['\r', 'a', '\r', '\r', '\n', '\n', '\r'] =
    ['\r', 'a', '\r', '\n', '\n', '\r'] := rfl

end Jam
