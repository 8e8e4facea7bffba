import Jam.Proofs.Composed
import Jam.Proofs.Grammar.Terminates

/-!
Where the input ends. Nothing behind the first end of input is ever looked at. If the one that a
scanned text ends with is left out, the parser supplies its own, just behind the last token, and
nothing but the place of an input that ends too early can tell the two apart. They are one place if
the text ends with that token.
-/
namespace Jam

open Text Grammar

/-- The last token of a part of a text, with what stands before it. Only blanks and line breaks
follow it. -/
structure Token.Closes (read before gaps : List Char) (t : Token) : Prop where
  text_eq : read = before ++ t.lexeme.toList ++ gaps
  span : t.span = .ofWord before t.lexeme.toList
  spelled : Text.Spells t.lexeme.toList t.kind t.literal
  within : t.kind ≠ .newline
  gaps : ∀ x ∈ gaps, isGap x = true

namespace Token

variable {read before gaps : List Char} {t : Token}

theorem Closes.append_gap {x : Char} (h : t.Closes read before gaps) (hx : isGap x = true) :
    t.Closes (read ++ [x]) before (gaps ++ [x]) where
  text_eq := by rw [h.text_eq, List.append_assoc]
  span := h.span
  spelled := h.spelled
  within := h.within
  gaps := by
    rw [List.forall_mem_append]
    exact ⟨h.gaps, by simpa using hx⟩

/-- Just behind the last token is where the text would end without the gap. -/
theorem Closes.end_eq (h : t.Closes read before gaps) :
    t.span.line = lineAfter (before ++ t.lexeme.toList) ∧
      t.span.colEnd + 1 = columnAfter (before ++ t.lexeme.toList) := by
  rw [h.span]
  exact Span.end_ofWord before (h.spelled.not_mem_newline h.within)

/-- There is no gap if the text ends with a character of the token. -/
theorem Closes.gaps_eq_nil (h : t.Closes read before gaps)
    (hlast : read.getLast? = t.lexeme.toList.getLast?) : gaps = [] := by
  by_contra hne
  -- The last character would be one of the gap, and none of those stands in a lexeme.
  have hgap : read.getLast? = some (gaps.getLast hne) := by
    rw [h.text_eq, List.getLast?_append_of_ne_nil _ hne, List.getLast?_eq_some_getLast hne]
  have hword := List.mem_of_getLast? (hlast.symm.trans hgap)
  have hwithin := h.spelled.isGap_eq_false h.within hword
  rw [h.gaps _ (List.getLast_mem hne)] at hwithin
  cases hwithin

/-- A column in a text that is not too long is not cut off to a word. -/
theorem Closes.next_eq (h : t.Closes read before gaps)
    (hlength : read.length + 1 < Span.columnLimit) :
    t.span.next = .point t.span.line (t.span.colEnd + 1) := by
  have hcolumn := columnAfter_le (before ++ t.lexeme.toList)
  have hread : (before ++ t.lexeme.toList).length ≤ read.length := by
    rw [h.text_eq]
    exact (List.prefix_append _ gaps).length_le
  have hbound : t.span.colEnd + 1 < Span.columnLimit := by
    rw [h.end_eq.2]
    omega
  rw [Span.next, Nat.mod_eq_of_lt hbound]

end Token

/-- The last token that is no line break closes the part that has been read. -/
theorem Text.Cuts.exists_closes {text read rest : List Char} {ts : List Token} {t : Token}
    (h : Cuts text read ts rest) (hlast : (Token.withoutNewlines ts).getLast? = some t) :
    ∃ before gaps, t.Closes read before gaps := by
  induction h with
  | start => cases hlast
  | blank _ hx ih =>
    obtain ⟨before, gaps, hcloses⟩ := ih hlast
    exact ⟨before, _, hcloses.append_gap (by simp [isGap, hx])⟩
  | @token read word rest ts kind literal _ _ _ hkind ih =>
    rw [Token.withoutNewlines_append] at hlast
    by_cases hline : kind = .newline
    · -- A line break is a token that was left out, and only makes the gap longer.
      subst hline
      cases hkind
      obtain ⟨before, gaps, hcloses⟩ := ih (by simpa [Token.withoutNewlines] using hlast)
      exact ⟨before, _, hcloses.append_gap (by decide)⟩
    · obtain rfl : ⟨kind, String.ofList word, literal, .ofWord read word⟩ = t := by
        simpa [Token.withoutNewlines, hline] using hlast
      exact ⟨read, [], by simp, by simp, by simpa using hkind, hline, by simp⟩

/-- The same error of an input that ends somewhere else. Only if it ends too early, the place of the
error is another one. -/
def SyntaxError.endingAt (s : Span) (e : SyntaxError) : SyntaxError :=
  match e.found with
  | none => ⟨e.fault, none, s.line, s.colStart⟩
  | some _ => e

namespace SyntaxError

variable {e : SyntaxError}

theorem endingAt_of_none (s : Span) (h : e.found = none) :
    e.endingAt s = ⟨e.fault, none, s.line, s.colStart⟩ := by
  rw [endingAt, h]

theorem endingAt_of_ne_none (s : Span) (h : e.found ≠ none) : e.endingAt s = e := by
  obtain ⟨t, ht⟩ := Option.ne_none_iff_exists'.mp h
  rw [endingAt, ht]

end SyntaxError

/-- The places of an input that ends too early: where the text ends, at `s`, and where the parser
supplies the end of input, just behind the last token. -/
structure EndsBehind (source : String) (s : Span) (t : Token) (e e' : SyntaxError) : Prop where
  scanned : e.line = s.line ∧ e.column = s.colStart
  supplied : e'.line = t.span.line ∧ e'.column = (t.span.colEnd + 1) % Span.columnLimit
  in_range : source.toList.length + 1 < Span.columnLimit → e'.column = t.span.colEnd + 1
  coincide : source.toList.getLast? = t.lexeme.toList.getLast? →
    s = .point t.span.line (t.span.colEnd + 1)

namespace Program

variable {ts us : List Token} {source : String}

/-- Sequences that agree up to their ends are read alike, but for where their ends are. -/
theorem ofTokens_of_beforeEnd_eq (h : Token.beforeEnd us = Token.beforeEnd ts) :
    ofTokens us = (ofTokens ts).mapError (SyntaxError.endingAt (Token.endSpan us)) := by
  rw [ofTokens, ofTokens, h]
  cases program (Token.beforeEnd ts) with
  | ok result => rfl
  | error failure =>
    obtain ⟨fault, rest⟩ := failure
    cases rest with
    | nil => rfl
    | cons t rest => rfl

/-- No script looks behind an end of input. -/
theorem outcome_append_after_end {α : Type} {e : Token} (he : e.kind = .endOfInput)
    (ts us : List Token) (s : Script α) :
    s.outcome (.ofTokens (ts ++ e :: us)) = s.outcome (.ofTokens (ts ++ [e])) := by
  have hstands : (Reader.ofTokens (ts ++ e :: us)).Stands (ts ++ e :: us) []
      (Token.beforeEnd (ts ++ [e])) := by
    rw [← Token.beforeEnd_append_end he ts us]
    exact .start
  have hend : Token.endSpan (ts ++ e :: us) = Token.endSpan (ts ++ [e]) := by
    rw [Token.endSpan_append_end he, Token.endSpan_append_end he]
  exact s.outcome_eq_of_stands hend .start hstands

/-- What a script comes to decides what the parser comes to, if the script parses the sequences. -/
theorem ofTokens_eq_of_outcome_eq {s : Script Program} (h : s.Parses ts) (h' : s.Parses us)
    (heq : s.outcome (.ofTokens us) = s.outcome (.ofTokens ts)) : ofTokens us = ofTokens ts := by
  have hrun := congrArg (Option.map (Except.map Prod.fst)) heq
  rw [s.map_outcome, s.map_outcome, h.run_eq, h'.run_eq] at hrun
  exact Option.some.inj hrun

section Scanned

variable {s : Span} {e e' : SyntaxError}

/-- Without an end of input, the error of an input that ends too early is just behind its last
token. -/
theorem endsBehind_of_cuts {t : Token} (hcuts : Cuts source.toList source.toList us [])
    (hs : s = .point (lineAfter source.toList) (columnAfter source.toList))
    (hlast : (Token.withoutNewlines us).getLast? = some t)
    (he : e.line = s.line ∧ e.column = s.colStart)
    (he' : e'.line = t.span.next.line ∧ e'.column = t.span.next.colStart) :
    EndsBehind source s t e e' := by
  obtain ⟨before, gaps, hcloses⟩ := hcuts.exists_closes hlast
  refine ⟨he, he', ?_, ?_⟩
  · intro hlength
    rw [he'.2, hcloses.next_eq hlength]
    rfl
  · intro hend
    obtain rfl := hcloses.gaps_eq_nil hend
    have htext : source.toList = before ++ t.lexeme.toList := by
      rw [hcloses.text_eq, List.append_nil]
    rw [hs, htext, ← hcloses.end_eq.1, ← hcloses.end_eq.2]

/-- The tokens of a text are read alike with the end of input that was scanned and without it. -/
theorem ofTokens_cut (hcuts : Cuts source.toList source.toList us []) (s : Span) :
    ofTokens (Token.withoutNewlines us) =
      (ofTokens (Token.withoutNewlines us ++ [.endOfInput s])).mapError
        (SyntaxError.endingAt (Token.endSpan (Token.withoutNewlines us))) := by
  apply ofTokens_of_beforeEnd_eq
  rw [← Token.withoutNewlines_concat_end, beforeEnd_of_cuts hcuts, Token.beforeEnd_eq_self]
  exact hcuts.kind_ne_endOfInput

/-- If there is an error, there is a token before the end of the input. -/
theorem exists_last_of_error (he : ofTokens (us ++ [.endOfInput s]) = .error e) :
    ∃ t, us.getLast? = some t := by
  cases us with
  | nil => cases he
  | cons t us => exact ⟨_, List.getLast?_eq_some_getLast (List.cons_ne_nil t us)⟩

theorem ofTokens_cut_error (hcuts : Cuts source.toList source.toList us [])
    (hs : s = .point (lineAfter source.toList) (columnAfter source.toList))
    (he : ofTokens (Token.withoutNewlines us ++ [.endOfInput s]) = .error e) :
    ∃ e', ofTokens (Token.withoutNewlines us) = .error e' ∧ e'.fault = e.fault ∧
      e'.found = e.found ∧ (e.found ≠ none → e' = e) ∧
      (e.found = none →
        ∃ t, (Token.withoutNewlines us).getLast? = some t ∧ EndsBehind source s t e e') := by
  have hcut := ofTokens_cut hcuts s
  rw [he] at hcut
  refine ⟨_, hcut, ?_⟩
  -- Only if no token is at fault, it matters where the input ends.
  by_cases hfound : e.found = none
  · obtain ⟨t, ht⟩ := exists_last_of_error he
    have hplace : e.line = s.line ∧ e.column = s.colStart := by
      rcases found_of_ofTokens_error he with ⟨-, hplace⟩ | ⟨u, -, hu, -⟩
      · rwa [Token.endSpan_append hcuts.kind_ne_endOfInput rfl] at hplace
      · rw [hfound] at hu
        cases hu
    rw [SyntaxError.endingAt_of_none _ hfound,
      Token.endSpan_of_getLast? hcuts.kind_ne_endOfInput ht]
    exact ⟨rfl, hfound.symm, fun hne => absurd hfound hne, fun _ =>
      ⟨t, ht, endsBehind_of_cuts hcuts hs ht hplace ⟨rfl, rfl⟩⟩⟩
  · rw [SyntaxError.endingAt_of_ne_none _ hfound]
    exact ⟨rfl, rfl, fun _ => rfl, fun hnone => absurd hnone hfound⟩

end Scanned

/-- Nothing behind the first end of input is read by any script, and so not by the parser either,
which is run in one script on all sequences up to a length. The end of input that a text is scanned
with may also be left out: the tree is the same, and so is an error, unless the input ends too
early. The error is then just behind the last token, which is where the text ends if it ends with
that token. -/
theorem ofTokens_end :
    (∀ (ts us : List Token) (e : Token), e.kind = .endOfInput →
      ofTokens (ts ++ e :: us) = ofTokens (ts ++ [e]) ∧
        (∀ (α : Type) (s : Script α),
          s.outcome (.ofTokens (ts ++ e :: us)) = s.outcome (.ofTokens (ts ++ [e]))) ∧
        ∃ s : Script Program, ∀ vs, vs.length ≤ (ts ++ e :: us).length → s.Parses vs) ∧
    ∀ (source : String) (ts : List Token), tokenize source = .ok ts →
      ∃ us s, Token.withoutNewlines ts = us ++ [.endOfInput s] ∧
        (∀ p, ofTokens (us ++ [.endOfInput s]) = .ok p ↔ ofTokens us = .ok p) ∧
        ∀ e, ofTokens (us ++ [.endOfInput s]) = .error e →
          ∃ e', ofTokens us = .error e' ∧ e'.fault = e.fault ∧ e'.found = e.found ∧
            (e.found ≠ none → e' = e) ∧
            (e.found = none → ∃ t, us.getLast? = some t ∧ EndsBehind source s t e e') := by
  constructor
  · intro ts us e he
    obtain ⟨s, hs⟩ := exists_script (ts ++ e :: us).length
    have hlong : s.Parses (ts ++ e :: us) := hs _ (Nat.le_refl _)
    have hshort : s.Parses (ts ++ [e]) := hs _ (by simp)
    refine ⟨?_, fun α => outcome_append_after_end he ts us, s, hs⟩
    exact ofTokens_eq_of_outcome_eq hshort hlong (outcome_append_after_end he ts us s)
  · intro source ts h
    obtain ⟨us, hcuts, rfl⟩ := cuts_of_tokenize h
    refine ⟨_, _, Token.withoutNewlines_concat_end us _, ?_, fun e => ofTokens_cut_error hcuts rfl⟩
    intro p
    rw [ofTokens_cut hcuts (.point (lineAfter source.toList) (columnAfter source.toList))]
    cases ofTokens (Token.withoutNewlines us ++ [.endOfInput _]) with
    | ok q => rfl
    | error e => simp [Except.mapError]

/-- A declaration that ends too early, with a line break behind it and without one. -/
theorem ofTokens_end_declaration :
    let x : Token := ⟨.name, "x", none, ⟨1, 5, 5⟩⟩
    let cut : List Token := [⟨.keyword (.scalar .int), "int", none, ⟨1, 1, 3⟩⟩, x]
    let e (s : Span) : SyntaxError := ⟨.declarationEnd, none, s.line, s.colStart⟩
    (∀ s us, ofTokens (cut ++ .endOfInput s :: us) = .error (e s)) ∧
      tokenize "int x\n" =
        .ok (cut ++ [⟨.newline, "\n", none, ⟨1, 6, 6⟩⟩, .endOfInput (.point 2 1)]) ∧
      tokenize "int x" = .ok (cut ++ [.endOfInput (.point 1 6)]) ∧
      ∃ e', ofTokens cut = .error e' ∧ EndsBehind "int x\n" (.point 2 1) x (e (.point 2 1)) e' ∧
        EndsBehind "int x" (.point 1 6) x (e (.point 1 6)) e' := by
  intro x cut e
  obtain ⟨hbehind, hcut⟩ := ofTokens_end
  have herror : ∀ s, ofTokens (cut ++ [.endOfInput s]) = .error (e s) := fun s => rfl
  have hline : tokenize "int x\n" =
      .ok (cut ++ [⟨.newline, "\n", none, ⟨1, 6, 6⟩⟩, .endOfInput (.point 2 1)]) := by decide
  have hword : tokenize "int x" = .ok (cut ++ [.endOfInput (.point 1 6)]) := by decide
  have hends : ∀ source ts s, tokenize source = .ok ts →
      Token.withoutNewlines ts = cut ++ [.endOfInput s] →
      ∃ e', ofTokens cut = .error e' ∧ EndsBehind source s x (e s) e' := by
    intro source ts s hts hsplit
    obtain ⟨us, s', hsplit', -, hplace⟩ := hcut source ts hts
    obtain ⟨rfl, hs⟩ := List.append_inj' (hsplit.symm.trans hsplit') rfl
    obtain rfl : s = s' := congrArg Token.span (List.singleton_inj.mp hs)
    obtain ⟨e', he', -, -, -, hnone⟩ := hplace _ (herror s)
    obtain ⟨t, ht, hends⟩ := hnone rfl
    obtain rfl : x = t := Option.some.inj ht
    exact ⟨e', he', hends⟩
  obtain ⟨e', he', hends'⟩ := hends _ _ _ hline rfl
  obtain ⟨e'', he'', hends''⟩ := hends _ _ _ hword rfl
  obtain rfl : e' = e'' := Except.error.inj (he'.symm.trans he'')
  exact ⟨fun s us => (hbehind cut us (.endOfInput s) rfl).1.trans (herror s), hline, hword,
    e', he', hends', hends''⟩

end Program

end Jam
