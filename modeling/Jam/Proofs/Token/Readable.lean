import Jam.Proofs.Token.Rectangle
import Jam.Proofs.Token.Standing
import Mathlib.Data.List.DropRight
import Mathlib.Data.List.TakeDrop

/-!
What can be read off a row of the table. With the blanks around it removed, a cell shows its text
as far as there is room: a value, a line and the columns are shown in full just if they have few
enough digits, and of what is longer the front is shown. So a row can show a wrong number.
-/
namespace Jam

open Text

/-- A value that is spelled is a natural number. -/
theorem Text.Spells.exists_natural {word : List Char} {kind : TokenKind} {value : Int}
    (h : Spells word kind (some value)) : ∃ n : Nat, value = n := by
  cases h with
  | number hne hdigits => exact ⟨_, rfl⟩

namespace Token.Table

/-- A cell without the blanks at its ends. -/
def trimmed (cell : List Char) : List Char := (cell.dropWhile (· = ' ')).rdropWhile (· = ' ')

/-- Neither the first nor the last character of a text is a blank. -/
structure IsTight (text : List Char) : Prop where
  first : ∃ x rest, text = x :: rest ∧ x ≠ ' '
  last : ∃ front x, text = front ++ [x] ∧ x ≠ ' '

section Trimmed

variable {text front tail : List Char} {width : Nat}

theorem trimmed_blanks (h : IsTight text) (before after : Nat) :
    trimmed (List.replicate before ' ' ++ text ++ List.replicate after ' ') = text := by
  have hfront : (List.replicate before ' ' ++ text ++ List.replicate after ' ').dropWhile
      (· = ' ') = text ++ List.replicate after ' ' := by
    obtain ⟨x, rest, rfl, hx⟩ := h.first
    rw [List.append_assoc, List.dropWhile_append_of_pos (by simp)]
    simp [hx]
  have hback : (text ++ List.replicate after ' ').rdropWhile (· = ' ') = text := by
    obtain ⟨front, x, rfl, hx⟩ := h.last
    rw [List.rdropWhile, List.reverse_append, List.dropWhile_append_of_pos (by simp)]
    simp [hx]
  rw [trimmed, hfront, hback]

/-- A cell shows as much of its text as there is room for. -/
theorem trimmed_center (h : IsTight (text.take width)) :
    trimmed (center text width) = text.take width := by
  unfold center
  split
  · simpa using trimmed_blanks h 0 0
  · next hroom =>
    have hall : text.take width = text := List.take_of_length_le (by omega)
    rw [hall] at h ⊢
    exact trimmed_blanks h _ _

/-- A word behind a front part does not end with a blank, wherever it is cut. -/
theorem isTight_take_append (hfront : front.head? ≠ some ' ') (hne : tail ≠ [])
    (htail : ' ' ∉ tail) (hwidth : front.length < width) :
    IsTight ((front ++ tail).take width) := by
  have hcut : (front ++ tail).take width = front ++ tail.take (width - front.length) := by
    rw [List.take_append, List.take_of_length_le (Nat.le_of_lt hwidth)]
  have hword : tail.take (width - front.length) ≠ [] := by
    simp only [ne_eq, List.take_eq_nil_iff, hne, or_false]
    omega
  have hblank : ∀ x ∈ tail.take (width - front.length), x ≠ ' ' := by
    intro x hx hblank
    exact htail (hblank ▸ List.mem_of_mem_take hx)
  rw [hcut]
  generalize tail.take (width - front.length) = word at hword hblank
  constructor
  · cases front with
    | nil =>
      obtain ⟨x, rest, rfl⟩ := List.exists_cons_of_ne_nil hword
      exact ⟨x, rest, rfl, hblank x List.mem_cons_self⟩
    | cons x rest => exact ⟨x, rest ++ word, rfl, fun hx => hfront (congrArg some hx)⟩
  · obtain ⟨most, x, rfl⟩ := (List.eq_nil_or_concat word).resolve_left hword
    rw [List.concat_eq_append] at hblank ⊢
    exact ⟨front ++ most, x, (List.append_assoc _ _ _).symm, hblank x (by simp)⟩

/-- What a cell shows of a word behind a front part. -/
theorem trimmed_center_append (hfront : front.head? ≠ some ' ') (hne : tail ≠ [])
    (htail : ' ' ∉ tail) (hwidth : front.length < width) :
    trimmed (center (front ++ tail) width) = (front ++ tail).take width ∧
      (trimmed (center (front ++ tail) width) = front ++ tail ↔
        front.length + tail.length ≤ width) := by
  have hcut := trimmed_center (isTight_take_append hfront hne htail hwidth)
  rw [hcut, List.take_eq_self_iff, List.length_append]
  exact ⟨rfl, Iff.rfl⟩

end Trimmed

section Digits

/-- A number has at most so many digits if it is below that power of ten. -/
theorem length_toString_le_iff {n k : Nat} (hk : 0 < k) :
    (toString n).toList.length ≤ k ↔ n < Nat.pow 10 k := by
  rw [Nat.toString_eq_ofList_toDigits, String.toList_ofList]
  exact Nat.length_toDigits_le_iff (by decide) hk

theorem toList_toString_ne_nil (n : Nat) : (toString n).toList ≠ [] := by
  rw [Nat.toString_eq_ofList_toDigits, String.toList_ofList]
  exact Nat.toDigits_ne_nil

theorem blank_not_mem_toString (n : Nat) : ' ' ∉ (toString n).toList :=
  not_mem_toString (by decide) n

end Digits

/-- What the third cell of a row shows. -/
def shownValue (t : Token) : List Char := trimmed (between 30 42 (row t))

/-- What the fourth cell of a row shows. -/
def shownLine (t : Token) : List Char := trimmed (between 42 52 (row t))

/-- What the last cell of a row shows. -/
def shownColumns (t : Token) : List Char := trimmed (between 52 65 (row t))

/-- A row from which the value, the line and the columns of a token can be read. -/
structure ShowsInFull (t : Token) : Prop where
  value : ∀ v, t.literal = some v → shownValue t = (toString v).toList
  line : shownLine t = ("line " ++ toString t.span.line).toList
  columns : shownColumns t =
    ("col " ++ toString t.span.colStart ++ "-" ++ toString t.span.colEnd).toList

section Shown

variable {t : Token}

/-- Eleven digits of a value are shown. -/
theorem shownValue_eq {n : Nat} (h : t.literal = some (n : Int)) :
    shownValue t = (toString n).toList.take 11 ∧
      (shownValue t = (toString n).toList ↔ n < 100000000000) := by
  have hcell : shownValue t = trimmed (center ([] ++ (toString n).toList) 11) := by
    have htext : (cells t)[2]? = some (toString n) := by
      simp only [cells, h]
      rfl
    rw [shownValue, row, (between_rowOf rfl htext rfl rfl).2.2, List.nil_append]
  have hroom : ([] : List Char).length + (toString n).toList.length ≤ 11 ↔ n < 100000000000 := by
    have hdigits : (toString n).toList.length ≤ 11 ↔ n < 100000000000 :=
      length_toString_le_iff (by decide)
    rw [List.length_nil, Nat.zero_add, hdigits]
  obtain ⟨hcut, hfull⟩ := trimmed_center_append (show [].head? ≠ some ' ' by decide)
    (toList_toString_ne_nil n) (blank_not_mem_toString n) (show 0 < 11 by decide)
  rw [hcell]
  exact ⟨hcut, hfull.trans hroom⟩

/-- Four digits of a line are shown. -/
theorem shownLine_eq (t : Token) :
    shownLine t = ("line " ++ toString t.span.line).toList.take 9 ∧
      (shownLine t = ("line " ++ toString t.span.line).toList ↔ t.span.line < 10000) := by
  have hcell : shownLine t = trimmed (center ("line " ++ toString t.span.line).toList 9) := by
    rw [shownLine, row, (between_rowOf rfl (i := 3) rfl rfl rfl).2.2]
  have hroom : "line ".toList.length + (toString t.span.line).toList.length ≤ 9 ↔
      t.span.line < 10000 := by
    have hdigits : (toString t.span.line).toList.length ≤ 4 ↔ t.span.line < 10000 :=
      length_toString_le_iff (by decide)
    rw [← hdigits]
    change 5 + _ ≤ 9 ↔ _
    omega
  obtain ⟨hcut, hfull⟩ := trimmed_center_append (show "line ".toList.head? ≠ some ' ' by decide)
    (toList_toString_ne_nil t.span.line) (blank_not_mem_toString _) (show 5 < 9 by decide)
  rw [hcell, String.toList_append]
  exact ⟨hcut, hfull.trans hroom⟩

/-- Seven digits of the two columns are shown. -/
theorem shownColumns_eq (t : Token) :
    let columns := "col " ++ toString t.span.colStart ++ "-" ++ toString t.span.colEnd
    shownColumns t = columns.toList.take 12 ∧
      (shownColumns t = columns.toList ↔
        (toString t.span.colStart).length + (toString t.span.colEnd).length ≤ 7) := by
  intro columns
  have hcell : shownColumns t = trimmed (center columns.toList 12) := by
    rw [shownColumns, row, (between_rowOf rfl (i := 4) rfl rfl rfl).2.2]
  have hsplit : columns.toList = "col ".toList ++
      ((toString t.span.colStart).toList ++ '-' :: (toString t.span.colEnd).toList) := by
    simp [columns, String.toList_append]
  have hblank : ' ' ∉ (toString t.span.colStart).toList ++
      '-' :: (toString t.span.colEnd).toList := by
    have hstart := blank_not_mem_toString t.span.colStart
    have hend := blank_not_mem_toString t.span.colEnd
    simp only [List.mem_append, List.mem_cons, hstart, hend, or_false, false_or]
    decide
  have hroom : "col ".toList.length + ((toString t.span.colStart).toList ++
      '-' :: (toString t.span.colEnd).toList).length ≤ 12 ↔
      (toString t.span.colStart).length + (toString t.span.colEnd).length ≤ 7 := by
    simp only [List.length_append, List.length_cons, String.length_toList]
    change 4 + _ ≤ 12 ↔ _
    omega
  obtain ⟨hcut, hfull⟩ := trimmed_center_append (show "col ".toList.head? ≠ some ' ' by decide)
    (by simp) hblank (show 4 < 12 by decide)
  rw [hcell, hsplit]
  exact ⟨hcut, hfull.trans hroom⟩

end Shown

/-- The values of tokens that were scanned are natural numbers. -/
theorem exists_natural_of_tokenize {source : String} {ts : List Token}
    (h : tokenize source = .ok ts) {t : Token} (ht : t ∈ ts) {value : Int}
    (hvalue : t.literal = some value) : ∃ n : Nat, value = n := by
  obtain ⟨us, hcuts, rfl⟩ := cuts_of_tokenize h
  rcases List.mem_append.mp ht with ht | ht
  · obtain ⟨hspelled, -⟩ := hcuts.exists_before t ht
    rw [hvalue] at hspelled
    exact hspelled.exists_natural
  · rw [List.mem_singleton.mp ht] at hvalue
    cases hvalue

/-- The third, the fourth and the last cell of a row show the first eleven, nine and twelve
characters of the value, of the line and of the columns. So the value is shown in full if it has at
most eleven digits, the line if it has at most four, and the columns if the two numbers have at most
seven digits together, and otherwise they are not. -/
theorem shown_of_tokenize {source : String} {ts : List Token} (h : tokenize source = .ok ts)
    {t : Token} (ht : t ∈ ts) :
    (∀ value, t.literal = some value →
      shownValue t = (toString value).toList.take 11 ∧
        (shownValue t = (toString value).toList ↔ value < 100000000000)) ∧
    (shownLine t = ("line " ++ toString t.span.line).toList.take 9 ∧
      (shownLine t = ("line " ++ toString t.span.line).toList ↔ t.span.line < 10000)) ∧
    let columns := "col " ++ toString t.span.colStart ++ "-" ++ toString t.span.colEnd
    shownColumns t = columns.toList.take 12 ∧
      (shownColumns t = columns.toList ↔
        (toString t.span.colStart).length + (toString t.span.colEnd).length ≤ 7) := by
  refine ⟨?_, shownLine_eq t, shownColumns_eq t⟩
  intro value hvalue
  obtain ⟨n, rfl⟩ := exists_natural_of_tokenize h ht hvalue
  obtain ⟨hcut, hfull⟩ := shownValue_eq hvalue
  have hbound : (n : Int) < 100000000000 ↔ n < 100000000000 := by omega
  exact ⟨hcut, hfull.trans hbound.symm⟩

theorem shown_of_tokenize_digits :
    let t : Token := ⟨.number, "0042", some 42, ⟨2, 2, 5⟩⟩
    tokenize "\n 0042" = .ok [⟨.newline, "\n", none, ⟨1, 1, 1⟩⟩, t, .endOfInput (.point 2 6)] ∧
      shownValue t = "42".toList ∧ shownLine t = "line 2".toList ∧
        shownColumns t = "col 2-5".toList := by
  intro t
  have h : tokenize "\n 0042" =
      .ok [⟨.newline, "\n", none, ⟨1, 1, 1⟩⟩, t, .endOfInput (.point 2 6)] := by decide
  obtain ⟨hvalue, hline, hcolumns⟩ := shown_of_tokenize h (t := t) (by simp)
  have hline' := hline.2.mpr (by decide)
  have hcolumns' := hcolumns.2.mpr (by decide)
  exact ⟨h, (hvalue 42 rfl).2.mpr (by decide), hline'.trans (by decide),
    hcolumns'.trans (by decide)⟩

/-- A number of twelve digits is cut, so that its row shows another number. -/
theorem not_showsInFull_of_twelve_digits :
    let t : Token := ⟨.number, "123456789012", some 123456789012, ⟨1, 1, 12⟩⟩
    tokenize "123456789012" = .ok [t, .endOfInput (.point 1 13)] ∧
      shownValue t = "12345678901".toList ∧ ¬ ShowsInFull t := by
  intro t
  have hcut : shownValue t = "12345678901".toList := by decide
  refine ⟨by decide, hcut, ?_⟩
  intro hfull
  have hvalue := hfull.value _ rfl
  rw [hcut] at hvalue
  revert hvalue
  decide

end Token.Table
end Jam
