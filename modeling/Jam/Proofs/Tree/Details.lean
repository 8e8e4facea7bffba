import Jam.Proofs.Tree.Legible
import Jam.Proofs.Tree.ReadFrom

/-!
What the details of an outline tell. A type is told by its name and the brackets behind it, a
number by its digits, and names by what stands between the separators, which occur in no name.
-/
namespace Jam

open Text

/-- Natural numbers are told apart by their digits. -/
theorem eq_of_toString_eq {m n : Nat} (h : toString m = toString n) : m = n := by
  have hdigits : Nat.toDigits 10 m = Nat.toDigits 10 n := by
    have hlist := congrArg String.toList h
    simpa [Nat.toString_eq_ofList_toDigits] using hlist
  have hvalue := congrArg (Nat.ofDigitChars 10 · 0) hdigits
  simpa using hvalue

theorem not_mem_toString {x : Char} (hx : x.isDigit = false) (n : Nat) :
    x ∉ (toString n).toList := by
  rw [Nat.toString_eq_ofList_toDigits, String.toList_ofList]
  intro hmem
  have hdigit : x.isDigit = true := Nat.isDigit_of_mem_toDigits (by decide) (by decide) hmem
  rw [hx] at hdigit
  cases hdigit

/-- Words that a comma and a blank separate, if no comma is in them. -/
theorem eq_of_intercalate_eq {words words' : List (List Char)} (hne : words ≠ [])
    (hne' : words' ≠ []) (hcomma : ∀ w ∈ words, ',' ∉ w) (hcomma' : ∀ w ∈ words', ',' ∉ w)
    (h : List.intercalate [',', ' '] words = List.intercalate [',', ' '] words') :
    words = words' := by
  induction words generalizing words' with
  | nil => exact absurd rfl hne
  | cons w words ih =>
    cases words' with
    | nil => exact absurd rfl hne'
    | cons w' words' =>
      rw [List.forall_mem_cons] at hcomma hcomma'
      cases words with
      | nil =>
        cases words' with
        | nil => simpa using h
        | cons v' words' =>
          rw [List.intercalate_singleton, List.intercalate_cons_cons] at h
          exact absurd (by simp [h]) hcomma.1
      | cons v words =>
        cases words' with
        | nil =>
          rw [List.intercalate_singleton, List.intercalate_cons_cons] at h
          exact absurd (by simp [← h]) hcomma'.1
        | cons v' words' =>
          rw [List.intercalate_cons_cons, List.intercalate_cons_cons, List.append_assoc,
            List.append_assoc] at h
          obtain ⟨rfl, hrest⟩ := eq_of_append_cons_eq hcomma.1 hcomma'.1 h
          rw [ih (List.cons_ne_nil _ _) (List.cons_ne_nil _ _) hcomma.2 hcomma'.2
            (List.cons.inj hrest).2]

theorem mem_of_mem_intercalate {x : Char} {sep : List Char} {words : List (List Char)}
    (h : x ∈ List.intercalate sep words) : x ∈ sep ∨ ∃ w ∈ words, x ∈ w := by
  induction words with
  | nil => simp at h
  | cons w words ih =>
    cases words with
    | nil => exact Or.inr ⟨w, List.mem_cons_self, by simpa using h⟩
    | cons v words =>
      rw [List.intercalate_cons_cons, List.mem_append, List.mem_append] at h
      rcases h with (h | h) | h
      · exact Or.inr ⟨w, List.mem_cons_self, h⟩
      · exact Or.inl h
      · refine (ih h).imp_right fun hmem => ?_
        obtain ⟨u, hu, hx⟩ := hmem
        exact ⟨u, List.mem_cons_of_mem _ hu, hx⟩

namespace TypeRef

/-- The name of a type is a word without blanks and brackets. -/
theorem spelling_plain (kind : TypeKind) : ∀ x ∈ kind.spelling.toList, x.isAlpha = true := by
  have hall : ∀ s ∈ Scalar.all, (s.spelling.toList.all Char.isAlpha) = true := by decide
  cases kind with
  | scalar s =>
    have hs : s ∈ Scalar.all := by cases s <;> decide
    exact List.all_eq_true.mp (hall s hs)
  | void => exact List.all_eq_true.mp (by decide)

theorem toList_label (type : TypeRef) :
    type.label.toList = type.kind.spelling.toList ++
      (List.replicate type.rank ['[', ']']).flatten := by
  rw [label, String.toList_append, String.toList_join, List.flatMap_replicate]
  rfl

theorem mem_label {type : TypeRef} {x : Char} (h : x ∈ type.label.toList) :
    x.isAlpha = true ∨ x = '[' ∨ x = ']' := by
  rw [toList_label, List.mem_append] at h
  rcases h with h | h
  · exact Or.inl (spelling_plain _ x h)
  · simp only [List.mem_flatten, List.mem_replicate] at h
    obtain ⟨_, ⟨-, rfl⟩, hx⟩ := h
    simpa using Or.inr hx

theorem not_mem_label {x : Char} (hx : x.isAlpha = false ∧ x ≠ '[' ∧ x ≠ ']') (type : TypeRef) :
    x ∉ type.label.toList := by
  intro hmem
  rcases mem_label hmem with h | h | h
  · rw [hx.1] at h
    cases h
  · exact hx.2.1 h
  · exact hx.2.2 h

/-- There is one opening bracket for each dimension. -/
theorem count_label (type : TypeRef) : type.label.toList.count '[' = type.rank := by
  have hname : type.kind.spelling.toList.count '[' = 0 := by
    rw [List.count_eq_zero]
    intro hmem
    exact absurd (spelling_plain _ _ hmem) (by decide)
  have hbrackets : ∀ n : Nat, (List.replicate n ['[', ']']).flatten.count '[' = n := by
    intro n
    induction n with
    | zero => rfl
    | succ n ih => simp [List.replicate_succ, ih]
  rw [toList_label, List.count_append, hname, hbrackets, Nat.zero_add]

theorem label_eq_iff {type type' : TypeRef} :
    type.label = type'.label ↔ type.kind = type'.kind ∧ type.rank = type'.rank := by
  constructor
  · intro h
    have hrank : type.rank = type'.rank := by
      rw [← count_label, ← count_label, h]
    have hlist := congrArg String.toList h
    rw [toList_label, toList_label, hrank] at hlist
    have hspelling := List.append_cancel_right hlist
    exact ⟨TypeKind.spelling_injective (String.toList_inj.mp hspelling), hrank⟩
  · intro h
    rw [label, label, h.1, h.2]

end TypeRef

theorem Text.Spells.nameRun {word : List Char} {literal : Option Int}
    (h : Spells word .name literal) : isNameRun word = true := by
  cases h with
  | name hrun _ => exact hrun

namespace Token.StandsIn

variable {text : List Char} {t : Token}

/-- A name consists of name characters. -/
theorem not_mem_of_name (ht : t.StandsIn text) (hkind : t.kind = .name) {x : Char}
    (hx : isNamePart x = false) : x ∉ t.lexeme.toList := by
  have hspelled := ht.spelled
  rw [hkind] at hspelled
  intro hmem
  have hpart := all_isNamePart_of_isNameRun hspelled.nameRun x hmem
  rw [hx] at hpart
  cases hpart

end Token.StandsIn
end Jam
