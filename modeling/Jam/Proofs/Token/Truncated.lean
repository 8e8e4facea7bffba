import Jam.Proofs.Token.Scanned

/-!
Cutting only the beginning of a text. A token that was cut from the whole text is cut from a
beginning that holds it, since what stands behind it can only make a lexeme longer or a fault
appear. So the text before a lexical fault has no fault in it.
-/
namespace Jam.Text

variable {text word run read front others blamed : List Char} {fault : LexicalFault}

theorem Longest.of_append (h : Longest word (text ++ others)) (hfront : word <+: text) :
    Longest word text where
  lexeme := h.lexeme
  isPrefix := hfront
  longest := fun v hv hvfront => h.longest v hv (hvfront.trans (List.prefix_append text others))

/-- The longest lexeme stays the same if the longest one of the longer text is there already. -/
theorem Longest.eq_of_append (hrun : Longest run text) (h : Longest word (text ++ others))
    (hfront : word <+: text) : run = word := by
  have hle : run.length ≤ word.length :=
    h.longest run hrun.lexeme (hrun.isPrefix.trans (List.prefix_append text others))
  have hge : word.length ≤ run.length := hrun.longest word h.lexeme hfront
  exact (List.prefix_of_prefix_length_le hrun.isPrefix hfront hle).eq_of_length (by omega)

/-- What is to blame for a fault stands at the front of the text. -/
theorem Faulty.blamed_front (h : Faulty text fault blamed) : blamed ≠ [] ∧ blamed <+: text := by
  cases h with
  | loneAmpersand _ => exact ⟨List.cons_ne_nil _ _, List.prefix_append ['&'] _⟩
  | letterAfterNumber hrun _ _ =>
    obtain ⟨kind, literal, hkind⟩ := hrun.lexeme
    exact ⟨hkind.ne_nil, hrun.isPrefix⟩
  | numberOutOfRange hrun _ _ _ =>
    obtain ⟨kind, literal, hkind⟩ := hrun.lexeme
    exact ⟨hkind.ne_nil, hrun.isPrefix⟩
  | @unrecognizedCharacter x rest _ _ =>
    exact ⟨List.cons_ne_nil _ _, List.prefix_append [x] rest⟩

/-- A lexeme that begins a text tells its first character. -/
theorem IsLexeme.head?_eq (h : IsLexeme word) (hfront : word <+: text) :
    word.head? = text.head? := by
  obtain ⟨kind, literal, hkind⟩ := h
  obtain ⟨rest, rfl⟩ := hfront
  cases word with
  | nil => exact absurd rfl hkind.ne_nil
  | cons x word => rfl

/-- A fault that is met before the text goes on is met afterwards as well, though it may be another
one, provided that the longest lexeme is not made longer. -/
theorem Faulty.exists_append (h : Faulty text fault blamed) (hword : Longest word (text ++ others))
    (hfront : word <+: text) : ∃ fault blamed, Faulty (text ++ others) fault blamed := by
  cases h with
  | @loneAmpersand rest hrest =>
    have hfirst := hword.lexeme.head?_eq hfront
    obtain ⟨more, rfl⟩ := List.head?_eq_some_iff.mp hfirst
    rcases hword.lexeme.cases_first with ⟨-, -, -, s, hs⟩ | ⟨hx, -⟩ | hdigits | hrun
    · have hdouble := Symbol.spelling_of_prefix_ampersand (hs ▸ hfront)
      rw [← hs, hdouble, List.cons_prefix_cons] at hfront
      obtain ⟨left, rfl⟩ := hfront.2
      exact absurd rfl hrest
    · exact absurd hx (by decide)
    · exact absurd (hdigits _ List.mem_cons_self) (by decide)
    · exact absurd (isNameStart_of_isNameRun hrun) (by decide)
  | @letterAfterNumber run rest x hrun hdigits hx =>
    obtain rfl := hrun.eq_of_append hword hfront
    rw [List.append_assoc, List.cons_append] at hword ⊢
    exact ⟨_, _, .letterAfterNumber hword hdigits hx⟩
  | @numberOutOfRange run rest hrun hdigits _ hvalue =>
    obtain rfl := hrun.eq_of_append hword hfront
    rw [List.append_assoc] at hword ⊢
    -- The number was too large by itself, but a letter may now be the first thing to be met.
    by_cases hletter : ∃ x ∈ (rest ++ others).head?, isAlphabetic x = true
    · obtain ⟨x, hx, hletter⟩ := hletter
      obtain ⟨left, hleft⟩ := List.head?_eq_some_iff.mp hx
      rw [hleft] at hword ⊢
      exact ⟨_, _, .letterAfterNumber hword hdigits hletter⟩
    · refine ⟨_, _, .numberOutOfRange hword hdigits ?_ hvalue⟩
      intro x hx
      exact Bool.eq_false_iff.mpr fun hletter' => hletter ⟨x, hx, hletter'⟩
  | unrecognizedCharacter _ hx =>
    exact absurd (hword.lexeme.head?_eq hfront) (hx word hword.lexeme)

/-- The tokens cut from the beginning of a text do not depend on where the text ends. -/
theorem Cuts.of_append {rest : List Char} {ts : List Token} (h : Cuts text read ts rest)
    (hrest : rest = front ++ others) : Cuts (read ++ front) read ts front := by
  induction h generalizing front with
  | start => exact .start
  | @blank read rest ts x _ hx ih =>
    have hcuts : Cuts (read ++ x :: front) read ts (x :: front) :=
      ih (by rw [hrest, List.cons_append])
    rw [List.append_assoc, List.singleton_append]
    exact hcuts.blank hx
  | @token read word rest ts kind literal _ hword hsound hkind ih =>
    subst hrest
    have hcuts : Cuts (read ++ (word ++ front)) read ts (word ++ front) :=
      ih (by rw [List.append_assoc])
    rw [← List.append_assoc] at hword hsound
    rw [List.append_assoc]
    refine hcuts.token (hword.of_append (List.prefix_append word front)) ?_ hkind
    intro fault blamed hfault
    obtain ⟨fault', blamed', hfault'⟩ :=
      hfault.exists_append hword (List.prefix_append word front)
    exact hsound fault' blamed' hfault'

/-- What has been read of a text is cut completely into the tokens found in it. -/
theorem Cuts.complete {rest : List Char} {ts : List Token} (h : Cuts text read ts rest) :
    Cuts read read ts [] := by
  have hcuts : Cuts (read ++ []) read ts [] := h.of_append rfl
  rwa [List.append_nil] at hcuts

end Jam.Text
