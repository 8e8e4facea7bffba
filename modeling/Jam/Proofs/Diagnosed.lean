import Jam.Proofs.Grammar.Viable
import Jam.Proofs.Token.Standing
import Jam.Proofs.Token.Truncated

/-!
Where diagnostics point. A lexical error quotes characters that stand in the text at its line and
column, and the text before them has no lexical error. A syntax error quotes a token that stands
there, or it is the end of the input, and then its place is just behind the last character.
-/
namespace Jam

open Text

/-- A word stands in a text at the line and the column of a diagnostic, which are counted in the
text before it. -/
structure Diagnostic.Marks (d : Diagnostic) (text before word : List Char) : Prop where
  front : before ++ word <+: text
  line : d.line = lineAfter before
  column : d.column = columnAfter before

/-- Nothing in a lexeme within a line has to be escaped. -/
theorem Token.quotedLexeme_of_spells {t : Token}
    (h : Text.Spells t.lexeme.toList t.kind t.literal) (hline : t.kind ≠ .newline) :
    t.quotedLexeme = "'" ++ t.lexeme ++ "'" := by
  have hvisible : ∀ x ∈ t.lexeme.toList, visible x = [x] := by
    intro x hx
    have hnewline : x ≠ '\n' := fun hx' => h.not_mem_newline hline (hx' ▸ hx)
    have hnul : x ≠ '\x00' := fun hx' => h.not_mem_nul (hx' ▸ hx)
    unfold visible
    split
    · exact absurd rfl hnewline
    · exact absurd rfl hnul
    · rfl
  rw [quotedLexeme, escapedLexeme, List.flatMap_congr hvisible, List.flatMap_singleton',
    String.ofList_toList]

namespace Program

open Grammar

variable {ts : List Token} {source : String}

/-- A syntax error is met at one of the tokens before the end of the input, or there. -/
theorem found_of_ofTokens_error {e : SyntaxError} (h : ofTokens ts = .error e) :
    (e.found = none ∧ e.line = (Token.endSpan ts).line ∧
        e.column = (Token.endSpan ts).colStart) ∨
      ∃ t ∈ Token.beforeEnd ts, e.found = some t ∧ e.line = t.span.line ∧
        e.column = t.span.colStart := by
  unfold ofTokens at h
  split at h
  · cases h
  · next failure hprogram =>
    obtain ⟨fault, rest⟩ := failure
    obtain ⟨w, hw, -, -⟩ := reads_program.error _ _ hprogram
    cases h
    cases rest with
    | nil => exact Or.inl ⟨rfl, rfl, rfl⟩
    | cons t rest =>
      have hmem : t ∈ Token.beforeEnd ts := by
        rw [hw]
        exact List.mem_append_right _ List.mem_cons_self
      exact Or.inr ⟨t, hmem, rfl, rfl, rfl⟩

/-- A text that spells no program has a lexical error, or its tokens have a syntax error. -/
theorem cases_of_ofText_error {e : CompileError} (h : ofText source = .error e) :
    (∃ f, e = .lexical f ∧ tokenize source = .error f) ∨
      ∃ f ts, e = .syntactic f ∧ tokenize source = .ok ts ∧
        ofTokens (Token.withoutNewlines ts) = .error f := by
  unfold ofText ofSourceTokens at h
  cases htokens : tokenize source with
  | error f =>
    rw [htokens] at h
    cases h
    exact Or.inl ⟨f, rfl, rfl⟩
  | ok ts =>
    rw [htokens] at h
    change (ofTokens (Token.withoutNewlines ts)).mapError .syntactic = .error e at h
    cases hparsed : ofTokens (Token.withoutNewlines ts) with
    | ok p =>
      rw [hparsed] at h
      cases h
    | error f =>
      rw [hparsed] at h
      cases h
      exact Or.inr ⟨f, ts, rfl, rfl, hparsed⟩

/-- The end of the input that was scanned stands behind the last character, line breaks left out
or not. -/
theorem endSpan_of_cuts {text read rest : List Char} {us : List Token} {s : Span}
    (h : Cuts text read us rest) :
    Token.endSpan (Token.withoutNewlines (us ++ [.endOfInput s])) = s := by
  rw [Token.withoutNewlines_concat_end]
  exact Token.endSpan_append h.kind_ne_endOfInput rfl []

end Program

namespace CompileError

/-- A lexical error quotes characters that stand in the text where it says, and the text before
that place has no lexical error. If there is a syntax error, the text has no lexical error, and
what is said to be met is, between quotes, the lexeme of a token that stands where it says; or the
input ends too early, and the place is just behind the last character. -/
def PointsInto (e : CompileError) (source : String) : Prop :=
  match e with
  | .lexical _ =>
    e.diagnostic.near ≠ "" ∧
      (∃ before, e.diagnostic.Marks source.toList before e.diagnostic.near.toList) ∧
      ∀ before, e.diagnostic.Marks source.toList before e.diagnostic.near.toList →
        ∃ ts, tokenize (String.ofList before) = .ok ts
  | .syntactic _ => ∃ ts, tokenize source = .ok ts ∧
      (e.diagnostic.near = "end of input" ∧ e.diagnostic.Marks source.toList source.toList [] ∨
        ∃ t ∈ ts, t.kind ≠ .newline ∧ t.kind ≠ .endOfInput ∧
          e.diagnostic.near = "'" ++ t.lexeme ++ "'" ∧
          ∃ before, e.diagnostic.Marks source.toList before t.lexeme.toList)

theorem pointsInto_of_tokenize {source : String} {f : LexicalError}
    (h : tokenize source = .error f) : (lexical f).PointsInto source := by
  obtain ⟨read, us, rest, fault, blamed, hcuts, hfault, rfl⟩ := faulty_of_tokenize h
  obtain ⟨hne, hfront⟩ := hfault.blamed_front
  have hmarks : (lexical ⟨fault, String.ofList blamed, lineAfter read,
      columnAfter read⟩).diagnostic.Marks source.toList read blamed := by
    refine ⟨?_, rfl, rfl⟩
    rw [hcuts.text_eq]
    exact (List.prefix_append_right_inj read).mpr hfront
  refine ⟨?_, ⟨read, ?_⟩, ?_⟩
  · intro hempty
    have hnil : (String.ofList blamed).toList = "".toList := congrArg String.toList hempty
    rw [String.toList_ofList] at hnil
    exact hne hnil
  · have hnear : (String.ofList blamed).toList = blamed := String.toList_ofList
    show Diagnostic.Marks _ source.toList read (String.ofList blamed).toList
    rwa [hnear]
  · intro before hbefore
    -- The line and the column leave no choice of the text before them.
    have hread : before = read :=
      eq_of_place_eq ((List.prefix_append _ _).trans hbefore.front)
        ((List.prefix_append _ _).trans hmarks.front) (hbefore.line.symm.trans hmarks.line)
        (hbefore.column.symm.trans hmarks.column)
    subst hread
    have hcomplete := hcuts.complete
    rw [← String.toList_ofList (l := before)] at hcomplete
    exact ⟨_, tokenize_of_cuts hcomplete⟩

theorem pointsInto_of_ofTokens {source : String} {ts : List Token} {f : SyntaxError}
    (hts : tokenize source = .ok ts)
    (h : Program.ofTokens (Token.withoutNewlines ts) = .error f) :
    (syntactic f).PointsInto source := by
  refine ⟨ts, hts, ?_⟩
  obtain ⟨us, hcuts, rfl⟩ := cuts_of_tokenize hts
  have hbefore := hcuts.exists_before
  rcases Program.found_of_ofTokens_error h with ⟨hfound, hline, hcolumn⟩ |
    ⟨t, ht, hfound, hline, hcolumn⟩
  · rw [Program.endSpan_of_cuts hcuts] at hline hcolumn
    refine Or.inl ⟨?_, ?_, hline, hcolumn⟩
    · show f.found.elim "end of input" (·.quotedLexeme) = _
      rw [hfound]
      rfl
    · simp
  · have hend := List.mem_takeWhile_imp ht
    have hmem := List.mem_filter.mp ((List.takeWhile_sublist _).mem ht)
    have hkind : t.kind ≠ .endOfInput := by simpa using hend
    have hus : t ∈ us := by
      rcases List.mem_append.mp hmem.1 with hus | hlast
      · exact hus
      · rw [List.mem_singleton.mp hlast] at hkind
        exact absurd rfl hkind
    obtain ⟨hspelled, before, hfront, hspan⟩ := hbefore t hus
    rw [hspan] at hline hcolumn
    have hwithin : t.kind ≠ .newline := by simpa using hmem.2
    refine Or.inr ⟨t, hmem.1, hwithin, hkind, ?_, before, hfront, hline, hcolumn⟩
    show f.found.elim "end of input" (·.quotedLexeme) = _
    rw [hfound]
    exact Token.quotedLexeme_of_spells hspelled hwithin

end CompileError

/-- Every diagnostic points at the text that it quotes. -/
theorem Program.pointsInto_of_ofText {source : String} {e : CompileError}
    (h : ofText source = .error e) : e.PointsInto source := by
  rcases cases_of_ofText_error h with ⟨f, rfl, htokens⟩ | ⟨f, ts, rfl, hts, hparsed⟩
  · exact CompileError.pointsInto_of_tokenize htokens
  · exact CompileError.pointsInto_of_ofTokens hts hparsed

theorem Program.pointsInto_of_ofText_lines :
    let lexical : CompileError := .lexical ⟨.letterAfterNumber, "12", 2, 2⟩
    let é : Token := ⟨.name, "é", none, ⟨2, 6, 6⟩⟩
    let syntactic : CompileError := .syntactic ⟨.declarationEnd, some é, 2, 6⟩
    (ofText "é =\r\n\t12a" = .error lexical ∧ lexical.PointsInto "é =\r\n\t12a") ∧
      ofText "int x\n = 1 é" = .error syntactic ∧ syntactic.PointsInto "int x\n = 1 é" := by
  intro lexical é syntactic
  have hscan : tokenize "é =\r\n\t12a" = .error ⟨.letterAfterNumber, "12", 2, 2⟩ := by decide
  have hlexical : ofText "é =\r\n\t12a" = .error lexical := by
    rw [ofText, hscan]
    rfl
  have htokens : tokenize "int x\n = 1 é" = .ok [⟨.keyword (.scalar .int), "int", none, ⟨1, 1, 3⟩⟩,
      ⟨.name, "x", none, ⟨1, 5, 5⟩⟩, ⟨.newline, "\n", none, ⟨1, 6, 6⟩⟩,
      ⟨.symbol .assign, "=", none, ⟨2, 2, 2⟩⟩, ⟨.number, "1", some 1, ⟨2, 4, 4⟩⟩, é,
      .endOfInput (.point 2 7)] := by decide
  have hsyntactic : ofText "int x\n = 1 é" = .error syntactic := by
    rw [ofText, htokens]
    rfl
  exact ⟨⟨hlexical, pointsInto_of_ofText hlexical⟩, hsyntactic, pointsInto_of_ofText hsyntactic⟩

end Jam
