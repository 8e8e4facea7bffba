import Jam.Proofs.Tree.Details
import Jam.Token.Table

/-!
A table of tokens is a rectangle. It has one line for each token and four lines more, all equally
long. In the header and in the rows the bars stand at the same places, and each cell between two
bars holds its text, cut or in the middle. No line break is left in any cell, so the lines of the
table are the lines of its text.
-/
namespace Jam.Token.Table

/-- Where the bars of a row stand. -/
def bars : List Nat := [0, 11, 30, 42, 52, 65]

/-- The characters between two places of a line. -/
def between (left right : Nat) (line : List Char) : List Char :=
  (line.drop (left + 1)).take (right - left - 1)

/-- A text fills a cell. It is cut to the width of the cell if it is at least that long; otherwise
half of the missing width, rounded down, is left blank before it, and the rest behind it. -/
structure Fills (text : List Char) (width : Nat) (cell : List Char) : Prop where
  cut : width ≤ text.length → cell = text.take width
  centered : text.length < width →
    cell = List.replicate ((width - text.length) / 2) ' ' ++ text ++
      List.replicate (width - text.length - (width - text.length) / 2) ' '

/-- A line with bars at their places and texts in the cells between them. -/
structure IsRow (texts : List String) (chars : List Char) : Prop where
  length : chars.length = 66
  bars : ∀ place ∈ bars, chars[place]? = some '|'
  count : texts.length + 1 = Table.bars.length
  cells : ∀ (i left right : Nat) (text : String), texts[i]? = some text →
    Table.bars[i]? = some left → Table.bars[i + 1]? = some right →
      Fills text.toList (right - left - 1) (between left right chars)

section Center

variable {text : List Char} {width : Nat}

theorem fills_center (text : List Char) (width : Nat) : Fills text width (center text width) where
  cut h := by rw [center, if_pos h]
  centered h := by rw [center, if_neg (Nat.not_le.mpr h)]

theorem length_center (text : List Char) (width : Nat) : (center text width).length = width := by
  unfold center
  split
  · next h => exact List.length_take_of_le h
  · next h =>
    simp only [List.length_append, List.length_replicate]
    omega

/-- Nothing but the characters of the text and blanks is in a cell. -/
theorem mem_center {x : Char} (h : x ∈ center text width) : x = ' ' ∨ x ∈ text := by
  unfold center at h
  split at h
  · exact Or.inr (List.mem_of_mem_take h)
  · simp only [List.mem_append, List.mem_replicate] at h
    rcases h with (⟨-, rfl⟩ | h) | ⟨-, rfl⟩
    · exact Or.inl rfl
    · exact Or.inr h
    · exact Or.inl rfl

end Center

/-- Cells with their widths, each with a bar behind it. -/
def barred (pieces : List (String × Nat)) : List Char :=
  pieces.flatMap fun (cell, width) => center cell.toList width ++ ['|']

theorem rowOf_eq (cells : List String) : rowOf cells = '|' :: barred (cells.zip widths) := rfl

theorem barred_cons (cell : String) (width : Nat) (pieces : List (String × Nat)) :
    barred ((cell, width) :: pieces) = center cell.toList width ++ '|' :: barred pieces := by
  simp [barred]

/-- Every cell stands between two bars. The place of the bar before it is counted by the cells that
come first. -/
theorem exists_barred_eq {pieces : List (String × Nat)} {i width : Nat} {cell : String}
    (h : pieces[i]? = some (cell, width)) :
    ∃ before after, '|' :: barred pieces =
        before ++ '|' :: (center cell.toList width ++ '|' :: after) ∧
      before.length = (barred (pieces.take i)).length := by
  induction pieces generalizing i with
  | nil => cases h
  | cons piece pieces ih =>
    obtain ⟨first, firstWidth⟩ := piece
    rw [barred_cons]
    cases i with
    | zero =>
      cases h
      exact ⟨[], barred pieces, rfl, rfl⟩
    | succ i =>
      obtain ⟨before, after, heq, hlength⟩ := ih h
      refine ⟨'|' :: (center first.toList firstWidth ++ before), after, ?_, ?_⟩
      · rw [heq, List.cons_append, List.append_assoc]
      · rw [List.take_succ_cons, barred_cons]
        simp only [List.length_cons, List.length_append, hlength]
        omega

/-- The cell of a piece and the bars around it. -/
theorem between_barred {pieces : List (String × Nat)} {i width : Nat} {cell : String}
    (h : pieces[i]? = some (cell, width)) {left : Nat}
    (hleft : (barred (pieces.take i)).length = left) :
    ('|' :: barred pieces)[left]? = some '|' ∧
      ('|' :: barred pieces)[left + width + 1]? = some '|' ∧
        between left (left + width + 1) ('|' :: barred pieces) = center cell.toList width := by
  obtain ⟨before, after, heq, hlength⟩ := exists_barred_eq h
  obtain rfl : before.length = left := hlength.trans hleft
  have hwidth : before.length + width + 1 - before.length - 1 = width := by omega
  rw [heq]
  refine ⟨by simp, by simp [Nat.add_assoc, length_center], ?_⟩
  have hdrop : (before ++ '|' :: (center cell.toList width ++ '|' :: after)).drop
      (before.length + 1) = center cell.toList width ++ '|' :: after := by
    simp [List.drop_append]
  rw [between, hdrop, hwidth]
  exact List.take_left' (length_center _ _)

/-- The bars stand as far apart as the widths of the cells ask for. -/
theorem exists_width {texts : List String} (hcount : texts.length = 5) {i left right : Nat}
    (hleft : bars[i]? = some left) (hright : bars[i + 1]? = some right) :
    ∃ width, widths[i]? = some width ∧ right = left + width + 1 ∧
      (barred ((texts.zip widths).take i)).length = left := by
  have hi : i + 1 < 6 := (List.getElem?_eq_some_iff.mp hright).1
  match texts, hcount, i, hi with
  | [_, _, _, _, _], _, 0, _ | [_, _, _, _, _], _, 1, _ | [_, _, _, _, _], _, 2, _
  | [_, _, _, _, _], _, 3, _ | [_, _, _, _, _], _, 4, _ =>
    cases hleft
    cases hright
    exact ⟨_, rfl, rfl, by simp [barred, widths, length_center]⟩

/-- The cells of a row are the given texts, each in the middle of its place. -/
theorem between_rowOf {texts : List String} (hcount : texts.length = 5) {i left right : Nat}
    {text : String} (htext : texts[i]? = some text) (hleft : bars[i]? = some left)
    (hright : bars[i + 1]? = some right) :
    (rowOf texts)[left]? = some '|' ∧ (rowOf texts)[right]? = some '|' ∧
      between left right (rowOf texts) = center text.toList (right - left - 1) := by
  obtain ⟨width, hwidth, rfl, hplace⟩ := exists_width hcount hleft hright
  have hpiece : (texts.zip widths)[i]? = some (text, width) :=
    List.getElem?_zip_eq_some.mpr ⟨htext, hwidth⟩
  have hroom : left + width + 1 - left - 1 = width := by omega
  rw [rowOf_eq, hroom]
  exact between_barred hpiece hplace

theorem length_rowOf {texts : List String} (hcount : texts.length = 5) :
    (rowOf texts).length = 66 := by
  match texts, hcount with
  | [_, _, _, _, _], _ => simp [rowOf_eq, barred, widths, length_center]

theorem isRow_rowOf {texts : List String} (hcount : texts.length = 5) :
    IsRow texts (rowOf texts) where
  length := length_rowOf hcount
  bars := by
    have hbars : ∀ i < 5, ∀ left right, bars[i]? = some left → bars[i + 1]? = some right →
        (rowOf texts)[left]? = some '|' ∧ (rowOf texts)[right]? = some '|' := by
      intro i hi left right hleft hright
      have htext : texts[i]? = some texts[i] := List.getElem?_eq_getElem _
      have hcell := between_rowOf hcount htext hleft hright
      exact ⟨hcell.1, hcell.2.1⟩
    simp only [bars, List.forall_mem_cons]
    exact ⟨(hbars 0 (by omega) _ _ rfl rfl).1, (hbars 1 (by omega) _ _ rfl rfl).1,
      (hbars 2 (by omega) _ _ rfl rfl).1, (hbars 3 (by omega) _ _ rfl rfl).1,
      (hbars 4 (by omega) _ _ rfl rfl).1, (hbars 4 (by omega) _ _ rfl rfl).2, nofun⟩
  count := by rw [hcount]; rfl
  cells := by
    intro i left right text htext hleft hright
    rw [(between_rowOf hcount htext hleft hright).2.2]
    exact fills_center _ _

section Lines

/-- A character that is in a row is in one of the texts, or it is a bar or a blank. -/
theorem mem_rowOf {x : Char} {texts : List String} (h : x ∈ rowOf texts) :
    x = '|' ∨ x = ' ' ∨ ∃ text ∈ texts, x ∈ text.toList := by
  rw [rowOf_eq, List.mem_cons, barred, List.mem_flatMap] at h
  rcases h with rfl | ⟨⟨text, width⟩, hpiece, hx⟩
  · exact Or.inl rfl
  · rcases List.mem_append.mp hx with hx | hx
    · refine Or.inr ((mem_center hx).imp_right fun hx => ?_)
      exact ⟨text, (List.of_mem_zip hpiece).1, hx⟩
    · exact Or.inl (List.mem_singleton.mp hx)

theorem newline_not_mem_label (kind : TokenKind) : '\n' ∉ kind.label.toList := by
  have hsymbol : ∀ s ∈ Symbol.all, '\n' ∉ s.label.toList := by decide
  have hkeyword : ∀ k ∈ Keyword.all, '\n' ∉ k.label.toList := by decide
  cases kind with
  | symbol s => exact hsymbol s (Symbol.mem_all s)
  | keyword k => exact hkeyword k (Keyword.mem_all k)
  | _ => decide

/-- Line breaks in a lexeme are shown by their escapes. -/
theorem newline_not_mem_quotedLexeme (t : Token) : '\n' ∉ t.quotedLexeme.toList := by
  have hvisible : ∀ x : Char, '\n' ∉ visible x := by
    intro x
    unfold visible
    split
    · decide
    · decide
    · next hne _ => simpa using fun h => hne h.symm
  simp [quotedLexeme, escapedLexeme, String.toList_append, hvisible]

theorem newline_not_mem_toString (value : Int) : '\n' ∉ (toString value).toList := by
  cases value with
  | ofNat n => exact not_mem_toString (by decide) n
  | negSucc n =>
    have hdigits := not_mem_toString (x := '\n') (by decide) (n + 1)
    show '\n' ∉ ("-" ++ toString (n + 1)).toList
    simpa [String.toList_append] using hdigits

theorem newline_not_mem_cells (t : Token) : ∀ text ∈ cells t, '\n' ∉ text.toList := by
  have hdigits : ∀ n : Nat, '\n' ∉ (toString n).toList := not_mem_toString (by decide)
  simp only [cells, List.forall_mem_cons]
  refine ⟨newline_not_mem_label t.kind, newline_not_mem_quotedLexeme t, ?_, ?_, ?_, nofun⟩
  · cases t.literal with
    | none => decide
    | some value => exact newline_not_mem_toString value
  · simp only [String.toList_append, List.mem_append, hdigits, or_false]
    decide
  · simp only [String.toList_append, List.mem_append, hdigits, or_false]
    decide

theorem newline_not_mem_rowOf {texts : List String} (h : ∀ text ∈ texts, '\n' ∉ text.toList) :
    '\n' ∉ rowOf texts := by
  intro hmem
  rcases mem_rowOf hmem with hx | hx | ⟨text, htext, hx⟩
  · cases hx
  · cases hx
  · exact h text htext hx

/-- A line is dashes, the header or the row of a token. -/
theorem forall_mem_lines {P : List Char → Prop} (hseparator : P separator) (hheader : P header)
    (hrow : ∀ t, P (row t)) (ts : List Token) : ∀ line ∈ lines ts, P line := by
  intro line hline
  simp only [lines, List.mem_append, List.mem_cons, List.mem_map, List.not_mem_nil,
    or_false] at hline
  rcases hline with ((rfl | rfl | rfl) | ⟨t, -, rfl⟩) | rfl
  · exact hseparator
  · exact hheader
  · exact hseparator
  · exact hrow t
  · exact hseparator

/-- The lines of the text are the lines of the table. -/
theorem splitOn_text (ts : List Token) : (text ts).toList.splitOn '\n' = lines ts := by
  have hlines : ∀ line ∈ lines ts, '\n' ∉ line :=
    forall_mem_lines (by simp [separator]) (newline_not_mem_rowOf (by decide))
      (fun t => newline_not_mem_rowOf (newline_not_mem_cells t)) ts
  have htext : (text ts).toList = ['\n'].intercalate (lines ts) := by
    rw [text, String.toList_intercalate, List.map_map]
    simp [Function.comp_def]
  rw [htext, List.splitOn_intercalate '\n' hlines (by simp [lines])]

theorem isRow_header : IsRow ["TYPE", "LEXEME", "LITERAL", "LINE", "COLUMNS"] header :=
  isRow_rowOf rfl

theorem isRow_row (t : Token) : IsRow (cells t) (row t) := isRow_rowOf rfl

theorem separator_eq : separator = List.replicate 66 '-' := by
  rw [separator, isRow_header.length]

theorem length_of_mem_lines (ts : List Token) : ∀ line ∈ lines ts, line.length = 66 := by
  have hseparator : separator.length = 66 := by rw [separator_eq, List.length_replicate]
  exact forall_mem_lines hseparator isRow_header.length (fun t => (isRow_row t).length) ts

end Lines

/-- A table is a rectangle. Its text has one line for each token and four more, all of the same
length. The first, the third and the last line are dashes; the second is the header, and the others
are the rows of the tokens in order, in which bars stand at the same places. The cells between them
hold the label of the token, its lexeme between quotes with its escapes, its value, its line and its
columns. -/
theorem text_rectangle (ts : List Token) :
    ((text ts).toList.splitOn '\n').length = ts.length + 4 ∧
      (∀ line ∈ (text ts).toList.splitOn '\n', line.length = 66) ∧
      ∃ header rows,
        (text ts).toList.splitOn '\n' =
          List.replicate 66 '-' :: header :: List.replicate 66 '-' ::
            (rows ++ [List.replicate 66 '-']) ∧
        IsRow ["TYPE", "LEXEME", "LITERAL", "LINE", "COLUMNS"] header ∧
        List.Forall₂ (fun (t : Token) row =>
          IsRow [t.kind.label, "'" ++ String.ofList (t.lexeme.toList.flatMap visible) ++ "'",
            t.literal.elim "N/A" toString, "line " ++ toString t.span.line,
            "col " ++ toString t.span.colStart ++ "-" ++ toString t.span.colEnd] row) ts rows := by
  rw [splitOn_text]
  refine ⟨by simp [lines], length_of_mem_lines ts, header, ts.map row, ?_, isRow_header, ?_⟩
  · rw [lines, separator_eq]
    rfl
  · rw [List.forall₂_map_right_iff, List.forall₂_same]
    -- The five texts are the cells of the token, written out.
    exact fun t _ => isRow_row t

end Jam.Token.Table
