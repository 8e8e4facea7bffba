import Jam.Proofs.Tree.Outline
import Mathlib.Data.List.Basic

/-!
An outline can be read back from the text in which it is written, if no line feed occurs in its
details. The line feeds tell the lines apart, the blanks in front of a line tell its depth, and the
first word of a label is its heading. The parts of a node are the lines behind it that are further
in, up to the first that is not.
-/
namespace Jam

/-- What stands before and behind a separator, where it occurs first. -/
theorem eq_of_append_cons_eq {α : Type} {sep : α} {front front' rest rest' : List α}
    (hfront : sep ∉ front) (hfront' : sep ∉ front')
    (h : front ++ sep :: rest = front' ++ sep :: rest') : front = front' ∧ rest = rest' := by
  induction front generalizing front' with
  | nil =>
    cases front' with
    | nil => exact ⟨rfl, (List.cons.inj h).2⟩
    | cons y front' =>
      obtain ⟨rfl, -⟩ := List.cons.inj h
      exact absurd List.mem_cons_self hfront'
  | cons x front ih =>
    cases front' with
    | nil =>
      obtain ⟨rfl, -⟩ := List.cons.inj h
      exact absurd List.mem_cons_self hfront
    | cons y front' =>
      rw [List.mem_cons, not_or] at hfront hfront'
      obtain ⟨rfl, htail⟩ := List.cons.inj h
      obtain ⟨rfl, hrest⟩ := ih hfront.2 hfront'.2 htail
      exact ⟨rfl, hrest⟩

namespace Heading

def all : List Heading :=
  [program, funcDef, param, body, varDecl, dims, init, list, ret, assign, target, callStmt,
    branch, arm, then_, orIf, else_, for_, from_, to_, forClassic, while_,
    literal, ident, index, group, call, binary]

theorem mem_all (h : Heading) : h ∈ all := by cases h <;> decide

/-- Headings are told apart by their words. -/
theorem word_injective {h k : Heading} (hword : h.word = k.word) : h = k :=
  (by decide : ∀ h ∈ all, ∀ k ∈ all, h.word = k.word → h = k) h (mem_all h) k (mem_all k) hword

/-- A heading is a word without blanks. -/
theorem word_plain (h : Heading) :
    h.word.toList ≠ [] ∧ ' ' ∉ h.word.toList ∧ '\n' ∉ h.word.toList :=
  (by decide : ∀ h ∈ all, h.word.toList ≠ [] ∧ ' ' ∉ h.word.toList ∧ '\n' ∉ h.word.toList)
    h (mem_all h)

end Heading

namespace Outline

variable {heading heading' : Heading} {detail detail' : Option String}

theorem toList_label_none (heading : Heading) :
    (label heading none).toList = heading.word.toList := rfl

theorem toList_label_some (heading : Heading) (s : String) :
    (label heading (some s)).toList = heading.word.toList ++ ' ' :: s.toList := by
  simp [label]

/-- A label is read up to its first blank. -/
theorem label_injective (h : label heading detail = label heading' detail') :
    heading = heading' ∧ detail = detail' := by
  have hlist := congrArg String.toList h
  obtain ⟨-, hblank, -⟩ := heading.word_plain
  obtain ⟨-, hblank', -⟩ := heading'.word_plain
  cases detail with
  | none =>
    cases detail' with
    | none => exact ⟨Heading.word_injective h, rfl⟩
    | some s' =>
      rw [toList_label_none, toList_label_some] at hlist
      exact absurd (by simp [hlist]) hblank
  | some s =>
    cases detail' with
    | none =>
      rw [toList_label_none, toList_label_some] at hlist
      exact absurd (by simp [← hlist]) hblank'
    | some s' =>
      rw [toList_label_some, toList_label_some] at hlist
      obtain ⟨hword, hdetail⟩ := eq_of_append_cons_eq hblank hblank' hlist
      exact ⟨Heading.word_injective (String.toList_inj.mp hword),
        congrArg some (String.toList_inj.mp hdetail)⟩

mutual

/-- No detail has a line feed in it. -/
def IsPlain : Outline → Prop
  | node _ detail parts => (∀ s ∈ detail, '\n' ∉ s.toList) ∧ AllPlain parts

def AllPlain : List Outline → Prop
  | [] => True
  | o :: rest => o.IsPlain ∧ AllPlain rest

end

theorem allPlain_iff {os : List Outline} : AllPlain os ↔ ∀ o ∈ os, o.IsPlain := by
  induction os with
  | nil => simp [AllPlain]
  | cons o os ih => rw [AllPlain, ih, List.forall_mem_cons]

/-- A label takes one line, and its first character is no blank. -/
def IsLine (label : String) : Prop :=
  '\n' ∉ label.toList ∧ ∃ x rest, label.toList = x :: rest ∧ x ≠ ' '

theorem isLine_label (h : ∀ s ∈ detail, '\n' ∉ s.toList) : IsLine (label heading detail) := by
  obtain ⟨hne, hblank, hline⟩ := heading.word_plain
  obtain ⟨x, rest, hword⟩ := List.exists_cons_of_ne_nil hne
  have hx : x ≠ ' ' := by
    rintro rfl
    exact hblank (hword ▸ List.mem_cons_self)
  cases detail with
  | none => exact ⟨hline, x, rest, hword, hx⟩
  | some s =>
    constructor
    · rw [toList_label_some]
      simpa using ⟨hline, h s rfl⟩
    · exact ⟨x, rest ++ ' ' :: s.toList, by rw [toList_label_some, hword, List.cons_append], hx⟩

mutual

theorem isLine_of_mem_lines {o : Outline} (h : o.IsPlain) (depth : Nat) :
    ∀ line ∈ o.lines depth, IsLine line.2 := by
  cases o with
  | node heading detail parts =>
    rw [lines, List.forall_mem_cons]
    exact ⟨isLine_label h.1, isLine_of_mem_linesAll h.2 (depth + 1)⟩

theorem isLine_of_mem_linesAll {os : List Outline} (h : AllPlain os) (depth : Nat) :
    ∀ line ∈ linesAll depth os, IsLine line.2 := by
  cases os with
  | nil => simp [linesAll]
  | cons o os =>
    rw [linesAll, List.forall_mem_append]
    exact ⟨isLine_of_mem_lines h.1 depth, isLine_of_mem_linesAll h.2 depth⟩

end

/-- The blanks in front of a line end where its label begins. -/
theorem eq_of_replicate_append_eq {n n' : Nat} {label label' : List Char}
    (hlabel : label.head? ≠ some ' ') (hlabel' : label'.head? ≠ some ' ')
    (h : List.replicate n ' ' ++ label = List.replicate n' ' ' ++ label') :
    n = n' ∧ label = label' := by
  induction n generalizing n' with
  | zero =>
    cases n' with
    | zero => exact ⟨rfl, h⟩
    | succ n' =>
      rw [List.replicate_zero, List.nil_append] at h
      rw [h] at hlabel
      exact absurd rfl hlabel
  | succ n ih =>
    cases n' with
    | zero =>
      rw [List.replicate_zero, List.nil_append] at h
      rw [← h] at hlabel'
      exact absurd rfl hlabel'
    | succ n' =>
      rw [List.replicate_succ, List.replicate_succ, List.cons_append, List.cons_append] at h
      obtain ⟨rfl, hsame⟩ := ih (List.cons.inj h).2
      exact ⟨rfl, hsame⟩

/-- The text of some lines is read line by line. -/
theorem flatMap_lineText_injective {lines lines' : List (Nat × String)}
    (hlines : ∀ line ∈ lines, IsLine line.2) (hlines' : ∀ line ∈ lines', IsLine line.2)
    (h : lines.flatMap lineText = lines'.flatMap lineText) : lines = lines' := by
  induction lines generalizing lines' with
  | nil =>
    cases lines' with
    | nil => rfl
    | cons line' lines' => simp [lineText] at h
  | cons line lines ih =>
    cases lines' with
    | nil => simp [lineText] at h
    | cons line' lines' =>
      obtain ⟨depth, label⟩ := line
      obtain ⟨depth', label'⟩ := line'
      rw [List.forall_mem_cons] at hlines hlines'
      obtain ⟨⟨hfeed, x, rest, hlabel, hx⟩, hothers⟩ := hlines
      obtain ⟨⟨hfeed', x', rest', hlabel', hx'⟩, hothers'⟩ := hlines'
      have hread : (List.replicate (2 * depth) ' ' ++ label.toList) ++
            '\n' :: lines.flatMap lineText =
          (List.replicate (2 * depth') ' ' ++ label'.toList) ++
            '\n' :: lines'.flatMap lineText := by
        simpa [lineText] using h
      obtain ⟨hfront, hrest⟩ := eq_of_append_cons_eq (by simpa using hfeed) (by simpa using hfeed')
        hread
      obtain ⟨hblanks, hsame⟩ := eq_of_replicate_append_eq (by simpa [hlabel] using hx)
        (by simpa [hlabel'] using hx') hfront
      have hdepth : depth = depth' := by omega
      rw [ih hothers hothers' hrest, hdepth, String.toList_inj.mp hsame]

/-- The lines that follow are not further in than a depth. -/
def EndsAt (depth : Nat) (lines : List (Nat × String)) : Prop :=
  ∀ line ∈ lines.head?, line.1 < depth

theorem endsAt_append {depth : Nat} {os : List Outline} {rest : List (Nat × String)}
    (h : EndsAt depth rest) : EndsAt (depth + 1) (linesAll depth os ++ rest) := by
  intro line hline
  cases os with
  | nil => exact Nat.lt_succ_of_lt (h line hline)
  | cons o os =>
    obtain ⟨heading, detail, parts⟩ := o
    obtain rfl : (depth, label heading detail) = line := by
      simpa [linesAll, lines] using hline
    exact Nat.lt_succ_self depth

/-- Outlines are read from their lines, up to the first that belongs to none of them. -/
theorem linesAll_injective {depth : Nat} {os os' : List Outline} {rest rest' : List (Nat × String)}
    (hrest : EndsAt depth rest) (hrest' : EndsAt depth rest')
    (h : linesAll depth os ++ rest = linesAll depth os' ++ rest') : os = os' ∧ rest = rest' := by
  match os, os' with
  | [], [] => exact ⟨rfl, h⟩
  | [], node heading' detail' parts' :: os' =>
    have hhead : (depth, label heading' detail') ∈ rest.head? := by
      simp only [linesAll, lines, List.nil_append] at h
      rw [h]
      rfl
    exact absurd (hrest _ hhead) (Nat.lt_irrefl depth)
  | node heading detail parts :: os, [] =>
    have hhead : (depth, label heading detail) ∈ rest'.head? := by
      simp only [linesAll, lines, List.nil_append] at h
      rw [← h]
      rfl
    exact absurd (hrest' _ hhead) (Nat.lt_irrefl depth)
  | node heading detail parts :: os, node heading' detail' parts' :: os' =>
    rw [linesAll, linesAll, lines, lines, List.cons_append, List.cons_append, List.cons_append,
      List.cons_append, List.append_assoc, List.append_assoc] at h
    obtain ⟨hhead, hbelow⟩ := List.cons.inj h
    obtain ⟨rfl, rfl⟩ := label_injective (Prod.mk.inj hhead).2
    -- The lines of the parts end where the next node begins.
    obtain ⟨rfl, hothers⟩ := linesAll_injective (endsAt_append hrest) (endsAt_append hrest') hbelow
    obtain ⟨rfl, hsame⟩ := linesAll_injective hrest hrest' hothers
    exact ⟨rfl, hsame⟩

/-- An outline is read from its text. -/
theorem text_injective {o o' : Outline} (ho : o.IsPlain) (ho' : o'.IsPlain)
    (h : (o.lines 0).flatMap lineText = (o'.lines 0).flatMap lineText) : o = o' := by
  have hlines := flatMap_lineText_injective (isLine_of_mem_lines ho 0) (isLine_of_mem_lines ho' 0) h
  have hend : EndsAt 0 [] := by simp [EndsAt]
  have hall : linesAll 0 [o] ++ [] = linesAll 0 [o'] ++ [] := by
    simpa [linesAll] using hlines
  exact (List.cons.inj (linesAll_injective hend hend hall).1).1

end Outline
end Jam
