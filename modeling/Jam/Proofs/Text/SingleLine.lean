import Jam.Text.SingleLine
import Mathlib.Data.List.Basic

/-!
Text on a single line. It is read back from left to right: a backslash and the letter after it stand
for one character, and every other character for itself. What is read back is the text that was
written, and nothing can be read but what has been written, so different texts are written
differently. No line feed, no carriage return and no tab is left.
-/
namespace Jam.Text

/-- The characters that have no place within a line. -/
def controls : List Char := ['\n', '\r', '\t']

/-- The character for which a letter after a backslash stands. -/
def escaped? : Char → Option Char
  | '\\' => some '\\'
  | 'n' => some '\n'
  | 'r' => some '\r'
  | 't' => some '\t'
  | _ => none

/-- Reads a line from left to right. A backslash that begins no escape cannot be read, nor can a
character that has no place in a line. -/
def readLine? : List Char → Option (List Char)
  | [] => some []
  | ['\\'] => none
  | '\\' :: letter :: rest =>
    (escaped? letter).bind fun c => (readLine? rest).map (c :: ·)
  | c :: rest => if c ∈ controls then none else (readLine? rest).map (c :: ·)

section Characters

variable {c letter : Char}

theorem escapeControl_cases (c : Char) :
    (∃ letter, escapeControl c = ['\\', letter] ∧ escaped? letter = some c) ∨
      (escapeControl c = [c] ∧ c ≠ '\\' ∧ c ∉ controls) := by
  unfold escapeControl
  split
  · exact Or.inl ⟨_, rfl, rfl⟩
  · exact Or.inl ⟨_, rfl, rfl⟩
  · exact Or.inl ⟨_, rfl, rfl⟩
  · exact Or.inl ⟨_, rfl, rfl⟩
  · next hslash hfeed hreturn htab =>
    refine Or.inr ⟨rfl, hslash, ?_⟩
    rw [controls, List.mem_cons, List.mem_cons, List.mem_singleton]
    exact fun h => h.elim hfeed fun h => h.elim hreturn htab

/-- The letters stand for the characters that are written with them. -/
theorem escapeControl_of_escaped? (h : escaped? letter = some c) :
    escapeControl c = ['\\', letter] := by
  unfold escaped? at h
  split at h
  · cases h; rfl
  · cases h; rfl
  · cases h; rfl
  · cases h; rfl
  · cases h

theorem escapeControl_of_plain (hslash : c ≠ '\\') (hplain : c ∉ controls) :
    escapeControl c = [c] := by
  unfold escapeControl
  split
  · exact absurd rfl hslash
  · exact absurd (by decide) hplain
  · exact absurd (by decide) hplain
  · exact absurd (by decide) hplain
  · rfl

theorem escaped?_eq_none (h : c ∈ controls) : escaped? c = none := by
  simp only [controls, List.mem_cons, List.not_mem_nil, or_false] at h
  rcases h with rfl | rfl | rfl
  · rfl
  · rfl
  · rfl

theorem not_mem_escapeControl {x : Char} (hx : x ∈ controls) : x ∉ escapeControl c := by
  intro hmem
  rcases escapeControl_cases c with ⟨letter, hc, hletter⟩ | ⟨hc, -, hplain⟩
  · rw [hc, List.mem_cons, List.mem_singleton] at hmem
    rcases hmem with rfl | rfl
    · exact absurd hx (by decide)
    · rw [escaped?_eq_none hx] at hletter
      cases hletter
  · rw [hc, List.mem_singleton] at hmem
    subst hmem
    exact hplain hx

theorem readLine?_plain (hslash : c ≠ '\\') (hplain : c ∉ controls) (text : List Char) :
    readLine? (c :: text) = (readLine? text).map (c :: ·) := by
  rw [readLine?.eq_4 _ _ (fun h _ => hslash h) (fun _ _ h _ => hslash h), if_neg hplain]

theorem readLine?_escapeControl_append (c : Char) (text : List Char) :
    readLine? (escapeControl c ++ text) = (readLine? text).map (c :: ·) := by
  rcases escapeControl_cases c with ⟨letter, hc, hletter⟩ | ⟨hc, hslash, hplain⟩
  · rw [hc]
    simp [readLine?, hletter]
  · rw [hc, List.singleton_append, readLine?_plain hslash hplain]

end Characters

theorem readLine?_flatMap (s : List Char) : readLine? (s.flatMap escapeControl) = some s := by
  induction s with
  | nil => rfl
  | cons c s ih => rw [List.flatMap_cons, readLine?_escapeControl_append, ih, Option.map_some]

theorem eq_flatMap_of_readLine? {line s : List Char} (h : readLine? line = some s) :
    line = s.flatMap escapeControl := by
  fun_induction readLine? line generalizing s with
  | case1 =>
    cases h
    rfl
  | case2 => cases h
  | case3 letter rest ih =>
    obtain ⟨c, hc, h⟩ := Option.bind_eq_some_iff.mp h
    obtain ⟨s, hs, rfl⟩ := Option.map_eq_some_iff.mp h
    rw [ih hs, List.flatMap_cons, escapeControl_of_escaped? hc]
    rfl
  | case4 c rest _ _ hc => cases h
  | case5 c rest hend hescape hplain ih =>
    obtain ⟨s, hs, rfl⟩ := Option.map_eq_some_iff.mp h
    have hslash : c ≠ '\\' := by
      intro hc
      cases rest with
      | nil => exact hend hc rfl
      | cons letter rest => exact hescape letter rest hc rfl
    rw [ih hs, List.flatMap_cons, escapeControl_of_plain hslash hplain]
    rfl

/-- Just what has been written is read, and it is read as what it was written for. -/
theorem readLine?_eq_some_iff {line s : List Char} :
    readLine? line = some s ↔ line = s.flatMap escapeControl := by
  constructor
  · exact eq_flatMap_of_readLine?
  · rintro rfl
    exact readLine?_flatMap s

theorem readLine?_singleLine (s : String) : readLine? (singleLine s).toList = some s.toList := by
  rw [singleLine, String.toList_ofList, readLine?_flatMap]

theorem singleLine_injective : Function.Injective singleLine := by
  intro s t h
  have hread : some s.toList = some t.toList := by
    rw [← readLine?_singleLine, h, readLine?_singleLine]
  exact String.toList_injective (Option.some.inj hread)

-- A backslash in front of a letter is told apart from a line feed.
example : singleLine "\\n" = "\\\\n" ∧ singleLine "\n" = "\\n" := by decide

theorem not_mem_singleLine {x : Char} (hx : x ∈ controls) (s : String) :
    x ∉ (singleLine s).toList := by
  rw [singleLine, String.toList_ofList, List.mem_flatMap]
  rintro ⟨c, -, hmem⟩
  exact not_mem_escapeControl hx hmem

end Jam.Text
