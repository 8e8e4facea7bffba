import Jam.Proofs.Source.Position
import Mathlib.Data.String.Basic

/-!
What a cursor keeps count of. However a cursor on a source is used, its two places lie at bounds of
characters, the mark not behind the other, and their lines and columns are those that are counted
in the text before them. The lexeme is the text between the two places, and what is still to be
read is the text behind the second. Each use is answered from the text behind the cursor, and only
reading a character and setting the mark change anything.
-/
namespace Jam

namespace Text

/-- The characters of a source from one byte offset to another. -/
def slice (source : String) (i j : Nat) : List Char :=
  (String.Pos.Raw.extract source ⟨i⟩ ⟨j⟩).toList

theorem slice_append (before word rest : List Char) :
    slice (String.ofList (before ++ (word ++ rest))) (String.utf8Len before)
      (String.utf8Len (before ++ word)) = word := by
  unfold slice
  rw [String.utf8Len_append, ← List.append_assoc, String.extract_of_valid, String.toList_ofList]

theorem slice_zero_append (before rest : List Char) :
    slice (String.ofList (before ++ rest)) 0 (String.utf8Len before) = before :=
  slice_append [] before rest

theorem slice_append_end (before rest : List Char) :
    slice (String.ofList (before ++ rest)) (String.utf8Len before)
      (String.ofList (before ++ rest)).utf8ByteSize = rest := by
  rw [String.utf8ByteSize_ofList]
  simpa using slice_append before rest []

end Text

open Text

namespace Place

/-- A place in a source: its offset is a bound of characters, and its line and its column are
counted in the text before it. -/
structure In (p : Place) (source : String) : Prop where
  isValid : (String.Pos.Raw.mk p.offset).IsValid source
  line : p.line = lineAfter (slice source 0 p.offset)
  column : p.column = columnAfter (slice source 0 p.offset)

theorem offset_afterAll (p : Place) (text : List Char) :
    (p.afterAll text).offset = p.offset + String.utf8Len text := by
  induction text generalizing p with
  | nil => rfl
  | cons x text ih =>
    have hstep : (p.after x).offset = p.offset + x.utf8Size := by
      unfold after
      split <;> rfl
    change ((p.after x).afterAll text).offset = _
    rw [ih, hstep, String.utf8Len_cons, Nat.add_assoc, Nat.add_comm x.utf8Size]

theorem offset_afterAll_start (text : List Char) :
    (start.afterAll text).offset = String.utf8Len text := by
  rw [offset_afterAll]
  exact Nat.zero_add _

/-- Reading the front of a source leads to a place in it. -/
theorem in_afterAll_start (before rest : List Char) :
    (start.afterAll before).In (String.ofList (before ++ rest)) where
  isValid := by
    rw [offset_afterAll_start, String.Pos.Raw.isValid_iff_exists_append]
    exact ⟨String.ofList before, String.ofList rest, String.ofList_append, by simp⟩
  line := by
    rw [offset_afterAll_start, slice_zero_append]
    exact (afterAll_start before).1
  column := by
    rw [offset_afterAll_start, slice_zero_append]
    exact (afterAll_start before).2

end Place

namespace Cursor

variable {c : Cursor} {text before : List Char}

/-- The cursor that is left by several uses, one after another. -/
def after (c : Cursor) (moves : List Move) : Cursor := moves.foldl (fun c m => (c.move m).2) c

/-- A text falls into what is before the mark of a cursor, its lexeme and the rest, and the places
of the cursor are reached by reading the first and the second. -/
structure Splits (c : Cursor) (text before : List Char) : Prop where
  text_eq : text = before ++ (c.lexeme ++ c.rest)
  mark_eq : c.mark = Place.start.afterAll before
  here_eq : c.here = Place.start.afterAll (before ++ c.lexeme)

theorem splits_ofText (text : List Char) : (ofText text).Splits text [] := ⟨rfl, rfl, rfl⟩

theorem move_advance_of_nil (h : c.rest = []) : c.move .advance = (.none, c) := by
  simp [move, advance, h]

theorem move_advance_of_cons {x : Char} {rest : List Char} (h : c.rest = x :: rest) :
    c.move .advance = (.char x, ⟨rest, x :: c.taken, c.mark, c.here.after x⟩) := by
  simp [move, advance, h]

/-- An expected character that comes next is read. -/
theorem move_accept_of_head {x : Char} (h : c.rest.head? = some x) :
    c.move (.accept x) = (.flag true, (c.move .advance).2) := by
  obtain ⟨rest, hrest⟩ := List.head?_eq_some_iff.mp h
  simp [move, accept, advance, hrest]

/-- Without it, nothing is read. -/
theorem move_accept_of_not_head {x : Char} (h : c.rest.head? ≠ some x) :
    c.move (.accept x) = (.flag false, c) := by
  cases hrest : c.rest with
  | nil => simp [move, accept, advance, hrest]
  | cons y rest =>
    have hne : y ≠ x := by
      rintro rfl
      exact h (by rw [hrest, List.head?_cons])
    simp [move, accept, advance, hrest, hne]

theorem Splits.advance (h : c.Splits text before) : (c.move .advance).2.Splits text before := by
  cases hrest : c.rest with
  | nil => rwa [move_advance_of_nil hrest]
  | cons x rest =>
    rw [move_advance_of_cons hrest]
    refine ⟨?_, h.mark_eq, ?_⟩
    · rw [h.text_eq, hrest]
      simp [lexeme]
    · change c.here.after x = _
      rw [h.here_eq]
      simp [lexeme, Place.afterAll]

theorem Splits.begin (h : c.Splits text before) : c.begin.Splits text (before ++ c.lexeme) where
  text_eq := by
    rw [h.text_eq, ← List.append_assoc]
    rfl
  mark_eq := h.here_eq
  here_eq := by
    change c.here = Place.start.afterAll (before ++ c.lexeme ++ [])
    rw [List.append_nil, h.here_eq]

/-- Setting the mark moves the lexeme into the text before it; reading a character moves that from
the rest into the lexeme. All other uses leave the cursor as it is. -/
theorem Splits.exists_move (h : c.Splits text before) (m : Move) :
    ∃ before, (c.move m).2.Splits text before := by
  cases m with
  | advance => exact ⟨before, h.advance⟩
  | accept x =>
    by_cases hx : c.rest.head? = some x
    · rw [move_accept_of_head hx]
      exact ⟨before, h.advance⟩
    · rw [move_accept_of_not_head hx]
      exact ⟨before, h⟩
  | begin => exact ⟨before ++ c.lexeme, h.begin⟩
  | peek => exact ⟨before, h⟩
  | peekNext => exact ⟨before, h⟩
  | lexeme => exact ⟨before, h⟩
  | isAtEnd => exact ⟨before, h⟩

theorem Splits.exists_after (h : c.Splits text before) (moves : List Move) :
    ∃ before, (c.after moves).Splits text before := by
  induction moves generalizing c before with
  | nil => exact ⟨before, h⟩
  | cons m moves ih =>
    obtain ⟨next, hnext⟩ := h.exists_move m
    exact ih hnext

/-- The books of a cursor on a source are right. -/
structure Exact (c : Cursor) (source : String) : Prop where
  mark : c.mark.In source
  here : c.here.In source
  mark_le_here : c.mark.offset ≤ c.here.offset
  here_le_end : c.here.offset ≤ source.utf8ByteSize
  lexeme : c.lexeme = slice source c.mark.offset c.here.offset

/-- The text of a source that a cursor has not read. -/
def ahead (c : Cursor) (source : String) : List Char :=
  slice source c.here.offset source.utf8ByteSize

/-- Each use of a cursor is answered from the source. Only reading a character and setting the mark
change the cursor. -/
structure Answers (c : Cursor) (source : String) : Prop where
  advance_iff : ∀ x, (c.move .advance).1 = .char x ↔ (c.ahead source).head? = some x
  advance_next : ∀ x rest, c.ahead source = x :: rest →
    (c.move .advance).2 = ⟨rest, x :: c.taken, c.mark, c.here.after x⟩
  advance_none_iff : (c.move .advance).1 = .none ↔ c.here.offset = source.utf8ByteSize
  advance_end : c.here.offset = source.utf8ByteSize → (c.move .advance).2 = c
  accept_iff : ∀ x, (c.move (.accept x)).1 = .flag true ↔ (c.ahead source).head? = some x
  accept_next : ∀ x, (c.ahead source).head? = some x →
    (c.move (.accept x)).2 = (c.move .advance).2
  accept_other : ∀ x, (c.ahead source).head? ≠ some x → c.move (.accept x) = (.flag false, c)
  begin : c.move .begin = (.none, ⟨c.ahead source, [], c.here, c.here⟩)
  peek : c.move .peek = (.char ((c.ahead source).headD '\x00'), c)
  peekNext : c.move .peekNext = (.char ((c.ahead source).tail.headD '\x00'), c)
  lexeme : c.move .lexeme = (.text (slice source c.mark.offset c.here.offset), c)
  isAtEnd : c.move .isAtEnd = (.flag (source.utf8ByteSize ≤ c.here.offset), c)

section Books

variable {source : String}

theorem Splits.mark_offset (h : c.Splits text before) :
    c.mark.offset = String.utf8Len before := by
  rw [h.mark_eq, Place.offset_afterAll_start]

theorem Splits.here_offset (h : c.Splits text before) :
    c.here.offset = String.utf8Len (before ++ c.lexeme) := by
  rw [h.here_eq, Place.offset_afterAll_start]

theorem Splits.source_eq (h : c.Splits source.toList before) :
    source = String.ofList (before ++ c.lexeme ++ c.rest) := by
  rw [List.append_assoc, ← h.text_eq, String.ofList_toList]

theorem Splits.exact (h : c.Splits source.toList before) : c.Exact source where
  mark := by
    rw [h.source_eq, h.mark_eq, List.append_assoc]
    exact Place.in_afterAll_start _ _
  here := by
    rw [h.source_eq, h.here_eq]
    exact Place.in_afterAll_start _ _
  mark_le_here := by
    rw [h.mark_offset, h.here_offset, String.utf8Len_append]
    exact Nat.le_add_right _ _
  here_le_end := by
    rw [h.here_offset, h.source_eq, String.utf8ByteSize_ofList, String.utf8Len_append _ c.rest]
    exact Nat.le_add_right _ _
  lexeme := by
    rw [h.mark_offset, h.here_offset, h.source_eq, List.append_assoc, slice_append]

theorem Splits.rest_eq (h : c.Splits source.toList before) : c.rest = c.ahead source := by
  unfold ahead
  rw [h.here_offset, h.source_eq, slice_append_end]

/-- There is nothing left to be read just at the end, since each character takes some bytes. -/
theorem Splits.rest_eq_nil_iff (h : c.Splits source.toList before) :
    c.rest = [] ↔ c.here.offset = source.utf8ByteSize := by
  rw [h.here_offset, h.source_eq, String.utf8ByteSize_ofList, String.utf8Len_append _ c.rest,
    ← String.utf8Len_eq_zero]
  omega

theorem Splits.advance_iff (h : c.Splits source.toList before) (x : Char) :
    (c.move .advance).1 = .char x ↔ (c.ahead source).head? = some x := by
  rw [← h.rest_eq]
  cases hrest : c.rest with
  | nil => simp [move_advance_of_nil hrest]
  | cons y rest => simp [move_advance_of_cons hrest]

theorem Splits.advance_none_iff (h : c.Splits source.toList before) :
    (c.move .advance).1 = .none ↔ c.here.offset = source.utf8ByteSize := by
  rw [← h.rest_eq_nil_iff]
  cases hrest : c.rest with
  | nil => simp [move_advance_of_nil hrest]
  | cons x rest => simp [move_advance_of_cons hrest]

theorem Splits.accept_iff (h : c.Splits source.toList before) (x : Char) :
    (c.move (.accept x)).1 = .flag true ↔ (c.ahead source).head? = some x := by
  rw [← h.rest_eq]
  by_cases hx : c.rest.head? = some x
  · simp [move_accept_of_head hx, hx]
  · simp [move_accept_of_not_head hx, hx]

theorem Splits.isAtEnd_eq (h : c.Splits source.toList before) :
    c.isAtEnd = decide (source.utf8ByteSize ≤ c.here.offset) := by
  have hle := h.exact.here_le_end
  rw [Bool.eq_iff_iff, isAtEnd, List.isEmpty_iff, h.rest_eq_nil_iff, decide_eq_true_eq]
  omega

theorem Splits.answers (h : c.Splits source.toList before) : c.Answers source where
  advance_iff := h.advance_iff
  advance_next x rest hahead := by
    rw [← h.rest_eq] at hahead
    rw [move_advance_of_cons hahead]
  advance_none_iff := h.advance_none_iff
  advance_end hend := by rw [move_advance_of_nil (h.rest_eq_nil_iff.mpr hend)]
  accept_iff := h.accept_iff
  accept_next x hx := by
    rw [← h.rest_eq] at hx
    rw [move_accept_of_head hx]
  accept_other x hx := by
    rw [← h.rest_eq] at hx
    exact move_accept_of_not_head hx
  begin := by
    rw [← h.rest_eq]
    rfl
  peek := by
    rw [← h.rest_eq]
    rfl
  peekNext := by
    rw [← h.rest_eq]
    rfl
  lexeme := by
    rw [← h.exact.lexeme]
    rfl
  isAtEnd := by
    rw [← h.isAtEnd_eq]
    rfl

end Books

/-- However a cursor has been used, its books are right and its answers are those of the source. -/
theorem exact_and_answers_after (source : String) (moves : List Move) :
    ((ofText source.toList).after moves).Exact source ∧
      ((ofText source.toList).after moves).Answers source := by
  obtain ⟨before, h⟩ := (splits_ofText source.toList).exists_after moves
  exact ⟨h.exact, h.answers⟩

-- NUL is accepted as a character of the source, but not as the sign for its end.
example : ((ofText ['\x00']).move (.accept '\x00')).1 = .flag true ∧
    ((ofText []).move (.accept '\x00')).1 = .flag false := by decide

end Cursor
end Jam
