import Jam.Proofs.Diagnosed
import Jam.Proofs.Grammar.Concatenation
import Jam.Proofs.Token.Determined

/-!
Programs on lines of their own. A text that spells a program and another text below it make one
text, and its items are those of the first text and then those of the second one, further down by
the lines of the first. If the second text has an error, this error is reported, as far down. Only
the words by which a branch goes on must not come first in the second text.
-/
namespace Jam

open Text Grammar Jam.Parser

namespace Text

/-- The first token of a text, blanks and line breaks left out, is a keyword. -/
def BeginsWith (k : Keyword) (text : List Char) : Prop :=
  Longest k.spelling.toList (text.dropWhile isGap)

/-- Before the first token that is no line break, there are blanks and line breaks only. -/
theorem Cuts.first {text read rest : List Char} {ts : List Token} (h : Cuts text read ts rest) :
    (Token.withoutNewlines ts = [] ∧ ∀ x ∈ read, isGap x = true) ∨
      ∃ t us, Token.withoutNewlines ts = t :: us ∧
        Spells t.lexeme.toList t.kind t.literal ∧
        Longest t.lexeme.toList (text.dropWhile isGap) := by
  induction h with
  | start => exact Or.inl ⟨rfl, by simp⟩
  | @blank read rest ts x _ hx ih =>
    rcases ih with ⟨hts, hread⟩ | hfirst
    · refine Or.inl ⟨hts, ?_⟩
      rw [List.forall_mem_append]
      exact ⟨hread, by simp [isGap, hx]⟩
    · exact Or.inr hfirst
  | @token read word rest ts kind literal hcuts hword _ hkind ih =>
    rw [Token.withoutNewlines_append]
    rcases ih with ⟨hts, hread⟩ | ⟨t, us, hts, hfirst⟩
    · by_cases hline : kind = .newline
      · subst hline
        cases hkind
        refine Or.inl ⟨by rw [hts]; rfl, ?_⟩
        rw [List.forall_mem_append]
        exact ⟨hread, by simp [isGap]⟩
      · refine Or.inr ⟨⟨kind, String.ofList word, literal, .ofWord read word⟩, [], ?_, ?_, ?_⟩
        · rw [hts, Token.withoutNewlines, List.filter_cons_of_pos (by simp [hline])]
          rfl
        · rwa [String.toList_ofList]
        · obtain ⟨x, others, hx⟩ := List.exists_cons_of_ne_nil hkind.ne_nil
          subst hx
          have hgap := hkind.isGap_eq_false hline List.mem_cons_self
          rw [String.toList_ofList, hcuts.text_eq, List.dropWhile_append_of_pos hread]
          rwa [List.cons_append, List.dropWhile_cons_of_neg (by simp [hgap])]
    · exact Or.inr ⟨t, us ++ _, by rw [hts]; rfl, hfirst⟩

end Text

/-- The error on a line that is further down. -/
def SyntaxError.down (lines : Nat) (e : SyntaxError) : SyntaxError :=
  { e with found := e.found.map (Token.down lines), line := e.line + lines }

namespace CompileError

def down (lines : Nat) : CompileError → CompileError
  | lexical e => lexical (e.down lines)
  | syntactic e => syntactic (e.down lines)

/-- Further down, only the line of a diagnostic is another one. -/
theorem diagnostic_down (lines : Nat) (e : CompileError) :
    (e.down lines).diagnostic = { e.diagnostic with line := e.diagnostic.line + lines } := by
  cases e with
  | lexical e => rfl
  | syntactic e =>
    obtain ⟨fault, found, line, column⟩ := e
    cases found with
    | none => rfl
    | some t => rfl

end CompileError

namespace Program

variable {ts us : List Token} {p : Program}

theorem beforeEnd_down (lines : Nat) (ts : List Token) :
    Token.beforeEnd (ts.map (Token.down lines)) = (Token.beforeEnd ts).map (Token.down lines) :=
  List.takeWhile_map

theorem clear_down {k : KindClass} (lines : Nat) (h : Clear k ts) :
    Clear k (ts.map (Token.down lines)) := by
  cases ts with
  | nil => exact clear_nil k
  | cons t ts =>
    rw [clear_cons] at h
    exact clear_cons.mpr h

/-- The tree of tokens that stand further down is the tree further down, and so is their error. -/
theorem ofTokens_down (lines : Nat) (hts : ts ≠ []) :
    ofTokens (ts.map (Token.down lines)) =
      ((ofTokens ts).map (relabel (Token.down lines))).mapError (SyntaxError.down lines) := by
  have hsame : ∀ t : Token,
      (t.down lines).kind = t.kind ∧ (t.down lines).literal = t.literal := fun _ => ⟨rfl, rfl⟩
  have hend : Token.endSpan (ts.map (Token.down lines)) = (Token.endSpan ts).down lines := by
    have hfind : (ts.map (Token.down lines)).find? (·.kind == .endOfInput) =
        (ts.find? (·.kind == .endOfInput)).map (Token.down lines) := List.find?_map
    rw [Token.endSpan, Token.endSpan, hfind, List.getLast?_map, List.getLast?_eq_some_getLast hts]
    cases ts.find? (·.kind == .endOfInput) with
    | none => rfl
    | some u => rfl
  rw [ofTokens, ofTokens, beforeEnd_down, mirrors_program hsame, hend]
  cases program (Token.beforeEnd ts) with
  | ok result => rfl
  | error failure =>
    obtain ⟨fault, rest⟩ := failure
    cases rest with
    | nil => rfl
    | cons t rest => rfl

theorem ofText_of_tokenize {source : String} (h : tokenize source = .ok ts) :
    ofText source = (ofTokens (Token.withoutNewlines ts)).mapError .syntactic := by
  rw [ofText, h]
  rfl

/-- The tokens of a text and of a text below it, but not the line break between them. -/
theorem withoutNewlines_line (us ts : List Token) (s : Span) (lines : Nat) :
    Token.withoutNewlines (us ++ ⟨.newline, "\n", none, s⟩ :: ts.map (Token.down lines)) =
      Token.withoutNewlines us ++ (Token.withoutNewlines ts).map (Token.down lines) := by
  rw [Token.withoutNewlines_append]
  exact congrArg (Token.withoutNewlines us ++ ·) List.filter_map

/-- What was scanned ends with an end of input, which is no line break. -/
theorem withoutNewlines_ne_nil {source : String} (h : tokenize source = .ok ts) :
    Token.withoutNewlines ts ≠ [] := by
  obtain ⟨us, -, rfl⟩ := cuts_of_tokenize h
  rw [Token.withoutNewlines_concat_end]
  exact List.append_ne_nil_of_right_ne_nil _ (List.cons_ne_nil _ _)

/-- The tokens that are parsed are those that were cut from the text, without the line breaks. -/
theorem beforeEnd_of_cuts {text read rest : List Char} {s : Span} (h : Cuts text read us rest) :
    Token.beforeEnd (Token.withoutNewlines (us ++ [.endOfInput s])) =
      Token.withoutNewlines us := by
  rw [Token.withoutNewlines_concat_end, Token.beforeEnd_append h.kind_ne_endOfInput]
  exact List.append_nil _

/-- A text that does not begin with a word by which a branch goes on has no such token first. -/
theorem clear_of_not_beginsWith {source : String} (h : tokenize source = .ok ts)
    (hor : ¬ BeginsWith .or_ source.toList) (helse : ¬ BeginsWith .else_ source.toList) :
    Clear branchGoesOn (Token.beforeEnd (Token.withoutNewlines ts)) := by
  obtain ⟨us, hcuts, rfl⟩ := cuts_of_tokenize h
  rw [beforeEnd_of_cuts hcuts]
  rcases hcuts.first with ⟨hnone, -⟩ | ⟨t, vs, hfirst, hspelled, hlongest⟩
  · rw [hnone]
    exact clear_nil _
  · have hne : ∀ k : Keyword, ¬ BeginsWith k source.toList → t.kind ≠ .keyword k := by
      intro k hk hkind
      rw [hkind] at hspelled
      rw [hspelled.eq_of_keyword] at hlongest
      exact hk hlongest
    rw [hfirst, clear_cons]
    exact Bool.or_eq_false_iff.mpr
      ⟨beq_eq_false_iff_ne.mpr (hne .or_ hor), beq_eq_false_iff_ne.mpr (hne .else_ helse)⟩

/-- The tokens of a program and those of a text below it. -/
theorem ofTokens_line {lines : Nat} {s : Span} (hp : p.WellFormed)
    (hus : Fits p.unparse (Token.withoutNewlines us)) (hne : Token.withoutNewlines ts ≠ [])
    (hclear : Clear branchGoesOn (Token.beforeEnd (Token.withoutNewlines ts))) :
    ofTokens (Token.withoutNewlines
        (us ++ ⟨.newline, "\n", none, s⟩ :: ts.map (Token.down lines))) =
      (((ofTokens (Token.withoutNewlines ts)).map (relabel (Token.down lines))).mapError
        (SyntaxError.down lines)).map fun q => ⟨p.items ++ q.items⟩ := by
  have hbelow := clear_down lines hclear
  rw [← beforeEnd_down] at hbelow
  rw [withoutNewlines_line, ofTokens_append hp hus (by simpa using hne) hbelow,
    ofTokens_down lines hne]

/-- A program and a text on the lines below it: the result of the text, further down, behind the
items of the program. -/
theorem ofText_line {above below : String} {p : Program} (habove : ofText above = .ok p)
    (hor : ¬ BeginsWith .or_ below.toList) (helse : ¬ BeginsWith .else_ below.toList) :
    ofText (above ++ "\n" ++ below) =
      ((ofText below).map fun q =>
        ⟨p.items ++ (q.relabel (Token.down (lineAfter above.toList))).items⟩).mapError
          (CompileError.down (lineAfter above.toList)) := by
  obtain ⟨ts, hts, hp⟩ := ofText_eq_ok_iff.mp habove
  obtain ⟨us, hcuts, rfl⟩ := cuts_of_tokenize hts
  obtain ⟨hwf, hfits⟩ := ofTokens_eq_ok_iff.mp hp
  rw [beforeEnd_of_cuts hcuts] at hfits
  cases hbelow : tokenize below with
  | error e =>
    rw [ofText, ofText, hbelow, tokenize_line_of_error hts hbelow]
    rfl
  | ok vs =>
    have hclear := clear_of_not_beginsWith hbelow hor helse
    rw [ofText_of_tokenize (tokenize_line_of_ok hts hbelow), ofText_of_tokenize hbelow,
      ofTokens_line hwf hfits (withoutNewlines_ne_nil hbelow) hclear]
    cases ofTokens (Token.withoutNewlines vs) with
    | ok q => rfl
    | error e => rfl

/-- Programs compose by being put one below the other. The items of both stand in the tree, those
of the second further down. Errors of the second text keep all but their lines. -/
theorem ofText_append_line {above below : String} {p : Program} (habove : ofText above = .ok p)
    (hor : ¬ BeginsWith .or_ below.toList) (helse : ¬ BeginsWith .else_ below.toList) :
    (∀ q, ofText below = .ok q → ofText (above ++ "\n" ++ below) =
      .ok ⟨p.items ++ (q.relabel (Token.down (lineAfter above.toList))).items⟩) ∧
    ∀ e, ofText below = .error e → ∃ e', ofText (above ++ "\n" ++ below) = .error e' ∧
      e'.diagnostic = { e.diagnostic with
        line := e.diagnostic.line + lineAfter above.toList } := by
  have hline := ofText_line habove hor helse
  constructor
  · intro q hq
    rw [hline, hq]
    rfl
  · intro e he
    refine ⟨e.down (lineAfter above.toList), ?_, e.diagnostic_down _⟩
    rw [hline, he]
    rfl

/-- The name `orx` goes on no branch, so an assignment from it may stand below an `if`. -/
theorem ofText_append_line_branch :
    ∃ p q, ofText "if (a < b) \x7b\x7d" = .ok p ∧ ofText "\n orx = y;" = .ok q ∧
      ¬ BeginsWith .or_ "\n orx = y;".toList ∧ ¬ BeginsWith .else_ "\n orx = y;".toList ∧
      ofText ("if (a < b) \x7b\x7d" ++ "\n" ++ "\n orx = y;") =
        .ok ⟨p.items ++ (q.relabel (Token.down 1)).items⟩ := by
  have habove : ∃ p, ofText "if (a < b) \x7b\x7d" = .ok p := by
    have htokens : tokenize "if (a < b) \x7b\x7d" = .ok [⟨.keyword .if_, "if", none, ⟨1, 1, 2⟩⟩,
        ⟨.symbol .leftParen, "(", none, ⟨1, 4, 4⟩⟩, ⟨.name, "a", none, ⟨1, 5, 5⟩⟩,
        ⟨.symbol .less, "<", none, ⟨1, 7, 7⟩⟩, ⟨.name, "b", none, ⟨1, 9, 9⟩⟩,
        ⟨.symbol .rightParen, ")", none, ⟨1, 10, 10⟩⟩,
        ⟨.symbol .leftBrace, "\x7b", none, ⟨1, 12, 12⟩⟩,
        ⟨.symbol .rightBrace, "\x7d", none, ⟨1, 13, 13⟩⟩, .endOfInput (.point 1 14)] := by decide
    rw [ofText, htokens]
    exact ⟨_, rfl⟩
  have hbelow : ∃ q, ofText "\n orx = y;" = .ok q := by
    have htokens : tokenize "\n orx = y;" = .ok [⟨.newline, "\n", none, ⟨1, 1, 1⟩⟩,
        ⟨.name, "orx", none, ⟨2, 2, 4⟩⟩, ⟨.symbol .assign, "=", none, ⟨2, 6, 6⟩⟩,
        ⟨.name, "y", none, ⟨2, 8, 8⟩⟩, ⟨.symbol .semicolon, ";", none, ⟨2, 9, 9⟩⟩,
        .endOfInput (.point 2 10)] := by decide
    rw [ofText, htokens]
    exact ⟨_, rfl⟩
  have hor : ¬ BeginsWith .or_ "\n orx = y;".toList := fun h =>
    absurd (h.longest ['o', 'r', 'x'] (isLexeme_nameRun (by decide)) (by decide)) (by decide)
  have helse : ¬ BeginsWith .else_ "\n orx = y;".toList :=
    fun h => absurd h.isPrefix (by decide)
  obtain ⟨p, hp⟩ := habove
  obtain ⟨q, hq⟩ := hbelow
  exact ⟨p, q, hp, hq, hor, helse, (ofText_append_line hp hor helse).1 q hq⟩

end Program
end Jam
