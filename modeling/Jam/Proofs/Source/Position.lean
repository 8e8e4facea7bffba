import Jam.Source.Cursor
import Jam.Source.Span
import Mathlib.Data.List.Basic
import Mathlib.Data.List.DropRight

/-!
Positions counted in the text itself. A line is one more than the line feeds before it, and a
column one more than the characters since the last of them. The place that is reached by reading
a text character by character has the line and the column that are counted so. The columns of a
span, in the line of the text that it names, hold the word for which it was counted.
-/
namespace Jam

namespace Text

/-- The line on which the character after a text stands. -/
def lineAfter (text : List Char) : Nat := text.count '\n' + 1

/-- The column in which the character after a text stands. -/
def columnAfter (text : List Char) : Nat := (text.rtakeWhile (· ≠ '\n')).length + 1

theorem lineAfter_concat (text : List Char) (x : Char) :
    lineAfter (text ++ [x]) = if x = '\n' then lineAfter text + 1 else lineAfter text := by
  by_cases hx : x = '\n'
  · subst x
    simp [lineAfter]
  · simp [lineAfter, hx]

theorem columnAfter_concat (text : List Char) (x : Char) :
    columnAfter (text ++ [x]) = if x = '\n' then 1 else columnAfter text + 1 := by
  by_cases hx : x = '\n'
  · subst x
    simp [columnAfter]
  · simp [columnAfter, hx]

/-- Within a line, each character takes one column. -/
theorem columnAfter_append (text : List Char) {word : List Char} (hword : '\n' ∉ word) :
    columnAfter (text ++ word) = columnAfter text + word.length := by
  induction word using List.reverseRecOn with
  | nil => simp
  | append_singleton word x ih =>
    simp only [List.mem_append, List.mem_singleton, not_or] at hword
    have hx : x ≠ '\n' := fun h => hword.2 h.symm
    rw [← List.append_assoc, columnAfter_concat, if_neg hx, ih hword.1, List.length_append,
      List.length_singleton, Nat.add_assoc]

theorem columnAfter_le (text : List Char) : columnAfter text ≤ text.length + 1 :=
  Nat.succ_le_succ (List.rtakeWhile_suffix _ _).length_le

/-- Behind a line break, lines are counted on. -/
theorem lineAfter_append_newline (text more : List Char) :
    lineAfter (text ++ '\n' :: more) = lineAfter more + lineAfter text := by
  unfold lineAfter
  rw [List.count_append, List.count_cons_self]
  omega

/-- Behind a line break, columns are counted anew. -/
theorem columnAfter_append_newline (text more : List Char) :
    columnAfter (text ++ '\n' :: more) = columnAfter more := by
  induction more using List.reverseRecOn with
  | nil =>
    rw [columnAfter_concat, if_pos rfl]
    rfl
  | append_singleton more x ih =>
    rw [← List.cons_append, ← List.append_assoc, columnAfter_concat, columnAfter_concat, ih]

/-- A text that goes on and stays on its line and in its column does not go on at all. -/
theorem eq_nil_of_place_eq {text more : List Char}
    (hline : lineAfter (text ++ more) = lineAfter text)
    (hcolumn : columnAfter (text ++ more) = columnAfter text) : more = [] := by
  have hmore : '\n' ∉ more := by
    intro hmem
    have hcount : 0 < more.count '\n' := List.count_pos_iff.mpr hmem
    unfold lineAfter at hline
    rw [List.count_append] at hline
    omega
  rw [columnAfter_append text hmore] at hcolumn
  exact List.length_eq_zero_iff.mp (by omega)

/-- A line and a column name one place of a text. -/
theorem eq_of_place_eq {text before other : List Char} (hbefore : before <+: text)
    (hother : other <+: text) (hline : lineAfter before = lineAfter other)
    (hcolumn : columnAfter before = columnAfter other) : before = other := by
  rcases List.prefix_or_prefix_of_prefix hbefore hother with ⟨more, rfl⟩ | ⟨more, rfl⟩
  · rw [eq_nil_of_place_eq hline.symm hcolumn.symm, List.append_nil]
  · rw [eq_nil_of_place_eq hline hcolumn, List.append_nil]

/-- There is one line more than there are line feeds. -/
theorem length_lines (text : List Char) : (text.splitOn '\n').length = text.count '\n' + 1 := by
  induction text with
  | nil => simp
  | cons x text ih =>
    by_cases hx : x = '\n'
    · subst x
      simp [List.splitOn_cons_eq_if_modifyHead, ih]
    · simp [List.splitOn_cons_eq_if_modifyHead, ih, hx]

theorem head_lines (text : List Char) :
    (text.splitOn '\n')[0]? = some (text.takeWhile (· ≠ '\n')) := by
  induction text with
  | nil => simp
  | cons x text ih =>
    by_cases hx : x = '\n'
    · subst x
      simp [List.splitOn_cons_eq_if_modifyHead]
    · obtain ⟨line, lines, hlines⟩ := List.exists_cons_of_ne_nil (List.splitOn_ne_nil '\n' text)
      rw [hlines] at ih
      have hline : line = text.takeWhile (· ≠ '\n') := by simpa using ih
      simp [List.splitOn_cons_eq_if_modifyHead, hx, hlines, hline]

/-- The line in which a text ends and another goes on. -/
theorem line_append (text rest : List Char) :
    ((text ++ rest).splitOn '\n')[text.count '\n']? =
      some (text.rtakeWhile (· ≠ '\n') ++ rest.takeWhile (· ≠ '\n')) := by
  induction text using List.reverseRecOn generalizing rest with
  | nil => simpa using head_lines rest
  | append_singleton text x ih =>
    by_cases hx : x = '\n'
    · subst x
      have hcount : (text ++ ['\n']).count '\n' = (text.splitOn '\n').length := by
        rw [length_lines]
        simp
      rw [hcount, List.append_assoc, List.singleton_append, List.splitOn_append_cons_self,
        List.getElem?_append_right (Nat.le_refl _), Nat.sub_self, head_lines]
      simp
    · have hcount : (text ++ [x]).count '\n' = text.count '\n' := by
        simp [hx]
      rw [hcount, List.append_assoc, List.singleton_append, ih (x :: rest)]
      simp [hx]

end Text

open Text

namespace Place

/-- Reading a text leads to the position that is counted in it. -/
theorem afterAll_start (text : List Char) :
    (start.afterAll text).line = lineAfter text ∧
      (start.afterAll text).column = columnAfter text := by
  induction text using List.reverseRecOn with
  | nil => simp [afterAll, start, lineAfter, columnAfter]
  | append_singleton text x ih =>
    have hstep : start.afterAll (text ++ [x]) = (start.afterAll text).after x := by
      simp [afterAll]
    rw [hstep, lineAfter_concat, columnAfter_concat]
    by_cases hx : x = '\n'
    · simp [after, hx, ih.1]
    · simp [after, hx, ih.1, ih.2]

theorem afterAll_append (p : Place) (text rest : List Char) :
    p.afterAll (text ++ rest) = (p.afterAll text).afterAll rest :=
  List.foldl_append

end Place

namespace Span

/-- The span of a word after a text. -/
def ofWord (text word : List Char) : Span :=
  ⟨lineAfter text, columnAfter text, columnAfter text + word.length - 1⟩

/-- Just behind a word within a line is where the text that ends with it ends. -/
theorem end_ofWord (text : List Char) {word : List Char} (hword : '\n' ∉ word) :
    (ofWord text word).line = lineAfter (text ++ word) ∧
      (ofWord text word).colEnd + 1 = columnAfter (text ++ word) := by
  have hcount : word.count '\n' = 0 := List.count_eq_zero.mpr hword
  have hpos : 0 < columnAfter text := Nat.succ_pos _
  have hend : (ofWord text word).colEnd = columnAfter text + word.length - 1 := rfl
  constructor
  · simp [ofWord, lineAfter, hcount]
  · rw [columnAfter_append text hword]
    omega

/-- The span on a line that is further down. -/
def down (lines : Nat) (s : Span) : Span := { s with line := s.line + lines }

/-- A word keeps its columns if more lines come before it. -/
theorem ofWord_append_newline (text more word : List Char) :
    ofWord (text ++ '\n' :: more) word = (ofWord more word).down (lineAfter text) := by
  unfold ofWord
  rw [lineAfter_append_newline, columnAfter_append_newline]
  rfl

/-- A word takes just the columns of a span, in the line of a text that the span names. -/
def Holds (s : Span) (text word : List Char) : Prop :=
  ∃ (n : Nat) (before after : List Char),
    (text.splitOn '\n')[n]? = some (before ++ (word ++ after)) ∧
      s = ⟨n + 1, before.length + 1, before.length + word.length⟩

/-- The span of a word within a line holds that word. -/
theorem holds_ofWord (text : List Char) {word : List Char} (hword : '\n' ∉ word)
    (rest : List Char) : (ofWord text word).Holds (text ++ (word ++ rest)) word := by
  have htake : (word ++ rest).takeWhile (· ≠ '\n') = word ++ rest.takeWhile (· ≠ '\n') := by
    apply List.takeWhile_append_of_pos
    intro x hx
    have hne : x ≠ '\n' := fun h => hword (h ▸ hx)
    simpa using hne
  refine ⟨text.count '\n', text.rtakeWhile (· ≠ '\n'), rest.takeWhile (· ≠ '\n'), ?_, ?_⟩
  · rw [line_append, htake]
  · have hend : columnAfter text + word.length - 1 =
        (text.rtakeWhile (· ≠ '\n')).length + word.length := by
      unfold columnAfter
      omega
    unfold ofWord
    rw [hend]
    rfl

end Span
end Jam
