import Jam.Compile
import Jam.Proofs.Grammar.Language
import Jam.Proofs.Grammar.Viable
import Jam.Proofs.Token.Lexeme
import Jam.Proofs.Tree.Relabel

/-!
Printing a tree and reading it back. The lexemes of a tree are laid out with blanks and line feeds
between them. Whatever the layout is, the text is scanned into the same tokens, and they are read
as the same tree; only the places of the tokens are new.
-/
namespace Jam

open Text Cursor

/-- The characters of a token are those that its kind asks for, and so is its value. -/
def Token.IsSpelled (t : Token) : Prop :=
  match t.kind with
  | .symbol s => t.lexeme = s.spelling ∧ t.literal = none
  | .keyword k => t.lexeme = k.spelling ∧ t.literal = none
  | .name => isNameRun t.lexeme.toList = true ∧ Keyword.ofSpelling? t.lexeme = none ∧
      t.literal = none
  | .number => t.lexeme.toList ≠ [] ∧ (∀ x ∈ t.lexeme.toList, x.isDigit = true) ∧
      Nat.ofDigitChars 10 t.lexeme.toList 0 ≤ 0x7fffffffffffffff ∧
      t.literal = some ↑(Nat.ofDigitChars 10 t.lexeme.toList 0)
  | .newline => False
  | .endOfInput => False

namespace Slot

def lexeme : Slot → String
  | kept t => t.lexeme
  | symbol s => s.spelling
  | keyword k => k.spelling

def literal : Slot → Option Int
  | kept t => t.literal
  | symbol _ => none
  | keyword _ => none

/-- A token that is what a place asks for, wherever it stands. -/
def Lexed (s : Slot) (t : Token) : Prop :=
  t.kind = s.kind ∧ t.lexeme = s.lexeme ∧ t.literal = s.literal

/-- The lexemes of a row. One gap stands before each of them and one at the end. -/
def layout (gap : Nat → List Char) : List Slot → List Char
  | [] => gap 0
  | s :: row => gap 0 ++ (s.lexeme.toList ++ layout (fun i => gap (i + 1)) row)

theorem scansOne_keyword (k : Keyword) {rest : List Char} (hrest : Stops isNamePart rest) :
    ScansOne k.spelling.toList (.keyword k) none rest := by
  have h := scansOne_word k.isNameRun_spelling hrest
  rwa [String.ofList_toList, Keyword.ofSpelling?_eq_some_iff.mpr rfl] at h

/-- The lexeme of a place is scanned as a token for it, if a gap or the end comes next. -/
theorem scansOne {s : Slot} {rest : List Char} (hs : ∀ t, s = kept t → t.IsSpelled)
    (hrest : ∀ x ∈ rest.head?, isGap x = true) :
    ScansOne s.lexeme.toList s.kind s.literal rest := by
  have hname : Stops isNamePart rest := fun x hx => isNamePart_eq_false_of_isGap (hrest x hx)
  have hdigit : Stops Char.isDigit rest := fun x hx => isDigit_eq_false_of_isGap (hrest x hx)
  have hletter : Stops isAlphabetic rest := fun x hx => isAlphabetic_eq_false_of_isGap (hrest x hx)
  cases s with
  | symbol s => exact scansOne_symbol s hrest
  | keyword k => exact scansOne_keyword k hname
  | kept t =>
    have ht := hs t rfl
    obtain ⟨kind, text, literal, span⟩ := t
    cases kind with
    | symbol s =>
      obtain ⟨rfl, rfl⟩ := ht
      exact scansOne_symbol s hrest
    | keyword k =>
      obtain ⟨rfl, rfl⟩ := ht
      exact scansOne_keyword k hname
    | name =>
      obtain ⟨hrun, hword, rfl⟩ := ht
      have h := scansOne_word hrun hname
      change Keyword.ofSpelling? text = none at hword
      rwa [String.ofList_toList, hword] at h
    | number =>
      obtain ⟨hne, hdigits, hvalue, hliteral⟩ := ht
      obtain rfl : literal = some ↑(Nat.ofDigitChars 10 text.toList 0) := hliteral
      exact scansOne_number hne hdigits (Nat.lt_succ_of_le hvalue) hdigit hletter
    | newline => exact ht.elim
    | endOfInput => exact ht.elim

end Slot

/-- A text is scanned into tokens with some property, given at least as many rounds as it has
characters. -/
def Scans (text : List Char) (P : List Token → Prop) : Prop :=
  ∀ (rounds : Nat) (c : Cursor), c.rest = text → text.length ≤ rounds →
    ∃ ts, c.scanUpTo rounds = .ok ts ∧ P ts

namespace Scans

variable {text rest : List Char} {P Q : List Token → Prop}

theorem nil (h : ∀ t, t.kind = .endOfInput → P [t]) : Scans [] P := by
  intro rounds c hc _
  exact ⟨[c.endToken], scanUpTo_of_end rounds hc, h _ rfl⟩

theorem scanUpTo_succ {rounds : Nat} {c c' : Cursor} {t? : Option Token} {ts : List Token}
    (hc : c.rest ≠ []) (hone : c.begin.scanOne = .ok (t?, c'))
    (hrest : c'.scanUpTo rounds = .ok ts) :
    c.scanUpTo (rounds + 1) = .ok (t?.toList ++ ts) := by
  rw [scanUpTo_of_ok hc hone, hrest]
  rfl

theorem blank {x : Char} (hx : isBlank x = true) (h : Scans rest P) : Scans (x :: rest) P := by
  intro rounds c hc hrounds
  cases rounds with
  | zero => cases hrounds
  | succ rounds =>
    obtain ⟨ts, hts, hP⟩ := h rounds (c.past x rest) rfl (Nat.le_of_succ_le_succ hrounds)
    exact ⟨ts, scanUpTo_succ (by simp [hc]) (scanOne_blank hc hx) hts, hP⟩

/-- One token, and then the tokens of the rest. -/
theorem token {kind : TokenKind} {literal : Option Int} (hne : text ≠ [])
    (hone : ScansOne text kind literal rest) (h : Scans rest P)
    (hQ : ∀ t ts, t.kind = kind → t.lexeme = String.ofList text → t.literal = literal → P ts →
      Q (t :: ts)) : Scans (text ++ rest) Q := by
  intro rounds c hc hrounds
  have hpos : 0 < text.length := List.length_pos_iff.mpr hne
  rw [List.length_append] at hrounds
  cases rounds with
  | zero => omega
  | succ rounds =>
    obtain ⟨t, c', hscan, hkind, hlexeme, hliteral, hc'⟩ := hone c hc
    obtain ⟨ts, hts, hP⟩ := h rounds c' hc' (by omega)
    refine ⟨t :: ts, scanUpTo_succ ?_ hscan hts, hQ t ts hkind hlexeme hliteral hP⟩
    rw [hc]
    simp [hne]

end Scans

/-- The tokens for a row, with line breaks anywhere between them and an end of input behind. -/
def LexedRow (row : List Slot) (ts : List Token) : Prop :=
  ∃ us t, Token.withoutNewlines ts = us ++ [t] ∧ t.kind = .endOfInput ∧
    List.Forall₂ Slot.Lexed row us

theorem LexedRow.newline {row : List Slot} {t : Token} {ts : List Token} (ht : t.kind = .newline)
    (h : LexedRow row ts) : LexedRow row (t :: ts) := by
  obtain ⟨us, e, hus, he, hrow⟩ := h
  refine ⟨us, e, ?_, he, hrow⟩
  rw [← hus, Token.withoutNewlines, List.filter_cons_of_neg (by simp [ht])]
  rfl

theorem LexedRow.cons {row : List Slot} {s : Slot} {t : Token} {ts : List Token}
    (hs : s.Lexed t) (hkind : s.kind ≠ .newline) (h : LexedRow row ts) :
    LexedRow (s :: row) (t :: ts) := by
  obtain ⟨us, e, hus, he, hrow⟩ := h
  refine ⟨t :: us, e, ?_, he, .cons hs hrow⟩
  rw [List.cons_append, ← hus, Token.withoutNewlines,
    List.filter_cons_of_pos (by simp [hs.1, hkind])]
  rfl

theorem scans_gap {gap rest : List Char} {row : List Slot} (hgap : ∀ x ∈ gap, isGap x = true)
    (h : Scans rest (LexedRow row)) : Scans (gap ++ rest) (LexedRow row) := by
  induction gap with
  | nil => exact h
  | cons x gap ih =>
    rw [List.forall_mem_cons] at hgap
    by_cases hx : isBlank x = true
    · exact (ih hgap.2).blank hx
    · obtain rfl : x = '\n' := by simpa [isGap, hx] using hgap.1
      have hbreak : Scans (['\n'] ++ (gap ++ rest)) (LexedRow row) :=
        .token (List.cons_ne_nil _ _) (scansOne_newline _) (ih hgap.2)
          fun _ _ ht _ _ => LexedRow.newline ht
      exact hbreak

namespace Slot

/-- What a spelled place asks for is neither a line break nor without characters. -/
theorem lexeme_ne_nil {s : Slot} (hs : ∀ t, s = kept t → t.IsSpelled) :
    s.lexeme.toList ≠ [] ∧ s.kind ≠ .newline := by
  have hsymbol : ∀ s : Symbol, s.spelling.toList ≠ [] := by
    intro s
    rcases s.spelling_cases with ⟨x, hs⟩ | ⟨x, y, hs⟩ <;> simp [hs]
  have hrun : ∀ {run : List Char}, isNameRun run = true → run ≠ [] := by
    rintro _ hrun rfl
    cases hrun
  cases s with
  | symbol s => exact ⟨hsymbol s, by simp [kind]⟩
  | keyword k => exact ⟨hrun k.isNameRun_spelling, by simp [kind]⟩
  | kept t =>
    have ht := hs t rfl
    obtain ⟨k, text, literal, span⟩ := t
    cases k with
    | symbol s =>
      obtain ⟨rfl, -⟩ := ht
      exact ⟨hsymbol s, by simp [kind]⟩
    | keyword k =>
      obtain ⟨rfl, -⟩ := ht
      exact ⟨hrun k.isNameRun_spelling, by simp [kind]⟩
    | name => exact ⟨hrun ht.1, by simp [kind]⟩
    | number => exact ⟨ht.1, by simp [kind]⟩
    | newline => exact ht.elim
    | endOfInput => exact ht.elim

variable {gap : Nat → List Char} {row : List Slot}

theorem head?_layout (hgap : ∀ i, ∀ x ∈ gap i, isGap x = true) (hne : row ≠ [] → gap 0 ≠ []) :
    ∀ x ∈ (layout gap row).head?, isGap x = true := by
  intro x hx
  cases row with
  | nil => exact hgap 0 x (List.mem_of_mem_head? hx)
  | cons s row =>
    rw [layout, List.head?_append_of_ne_nil _ (hne (List.cons_ne_nil _ _))] at hx
    exact hgap 0 x (List.mem_of_mem_head? hx)

theorem scans_layout (hrow : ∀ t, kept t ∈ row → t.IsSpelled)
    (hgap : ∀ i, ∀ x ∈ gap i, isGap x = true)
    (hne : ∀ i, 0 < i → i < row.length → gap i ≠ []) :
    Scans (layout gap row) (LexedRow row) := by
  induction row generalizing gap with
  | nil =>
    have hend : Scans [] (LexedRow []) := by
      refine .nil fun t ht => ⟨[], t, ?_, ht, .nil⟩
      rw [Token.withoutNewlines, List.filter_cons_of_pos (by simp [ht])]
      rfl
    have h := scans_gap (hgap 0) hend
    rwa [List.append_nil] at h
  | cons s row ih =>
    have hs : ∀ t, s = kept t → t.IsSpelled := by
      rintro t rfl
      exact hrow t List.mem_cons_self
    obtain ⟨htext, hkind⟩ := lexeme_ne_nil hs
    have hrest : ∀ x ∈ (layout (fun i => gap (i + 1)) row).head?, isGap x = true := by
      refine head?_layout (fun i => hgap (i + 1)) fun h => ?_
      refine hne 1 Nat.one_pos ?_
      rw [List.length_cons]
      exact Nat.succ_lt_succ (List.length_pos_iff.mpr h)
    -- The induction is for all gaps, because those of the rest are counted from its front.
    have hscans : Scans (layout (fun i => gap (i + 1)) row) (LexedRow row) :=
      ih (fun t ht => hrow t (List.mem_cons_of_mem _ ht)) (fun i => hgap (i + 1))
        fun i _ hi => hne (i + 1) (Nat.succ_pos i) (Nat.succ_lt_succ hi)
    refine scans_gap (hgap 0) (.token htext (scansOne hs hrest) hscans ?_)
    intro t ts ht hlexeme hliteral
    refine LexedRow.cons ⟨ht, ?_, hliteral⟩ hkind
    rw [hlexeme, String.ofList_toList]

variable {us : List Token}

theorem kinds_of_lexed (h : List.Forall₂ Lexed row us) : us.map (·.kind) = phrase row := by
  induction h with
  | nil => rfl
  | cons hs _ ih => rw [List.map_cons, phrase_cons, hs.1, ih]

theorem isValued_of_lexed (h : List.Forall₂ Lexed row us) (hrow : KeepsWords row) :
    ∀ u ∈ us, u.IsValued := by
  induction h with
  | nil => simp
  | @cons s u row us hs _ ih =>
    rw [List.forall_mem_cons]
    refine ⟨?_, ih fun t ht => hrow t (List.mem_cons_of_mem _ ht)⟩
    intro hu
    rw [hs.1] at hu
    rw [hs.2.2]
    cases s with
    | kept t => exact (hrow t List.mem_cons_self).2.2 hu
    | symbol s => cases hu
    | keyword k => cases hu

/-- Without their spans, tokens that were scanned for a row fit it. -/
theorem fits_of_lexed (h : List.Forall₂ Lexed row us) :
    Fits (row.map (relabel Token.withoutSpan)) (us.map Token.withoutSpan) := by
  induction h with
  | nil => exact .nil
  | @cons s u row us hs _ ih =>
    refine .cons ?_ ih
    obtain ⟨hkind, hlexeme, hliteral⟩ := hs
    cases s with
    | kept t =>
      change u.withoutSpan = t.withoutSpan
      rw [Token.withoutSpan, hkind, hlexeme, hliteral]
      rfl
    | symbol s => exact hkind
    | keyword k => exact hkind

end Slot

theorem Fits.withoutSpans {row : List Slot} {ts : List Token} (h : Fits row ts) :
    Fits (row.map (Slot.relabel Token.withoutSpan)) (ts.map Token.withoutSpan) := by
  induction h with
  | nil => exact .nil
  | @cons s t row ts hs _ ih =>
    refine .cons ?_ ih
    cases s with
    | kept u => exact congrArg Token.withoutSpan hs
    | symbol s => exact hs
    | keyword k => exact hs

namespace Program

open Slot

/-- Tokens that were scanned for a well-formed tree are read as that tree. -/
theorem exists_ofTokens_of_lexed {p : Program} {us : List Token} {e : Token}
    (hp : p.WellFormed) (hus : List.Forall₂ Lexed p.unparse us) (he : e.kind = .endOfInput) :
    ∃ q, ofTokens (us ++ [e]) = .ok q ∧ q.withoutSpans = p.withoutSpans := by
  have hkinds := kinds_of_lexed hus
  have hderives : Derives .program (us.map (·.kind)) := hkinds ▸ Program.derives hp
  have hend : Token.beforeEnd (us ++ [e]) = us := by
    rw [Token.beforeEnd_append, Token.beforeEnd_cons_of_end he, List.append_nil]
    intro u hu
    exact (hderives.not_newline _ (List.mem_map_of_mem hu)).2
  have hok : ∃ q, ofTokens (us ++ [e]) = .ok q := by
    refine exists_ofTokens_of_derives ?_ ?_
    · rwa [hend]
    · rw [hend]
      exact isValued_of_lexed hus (Program.keepsWords hp)
  obtain ⟨q, hq⟩ := hok
  obtain ⟨hwf, hfits⟩ := ofTokens_eq_ok_iff.mp hq
  rw [hend] at hfits
  -- Both trees fit the tokens once their spans are forgotten, and no two trees do.
  have hsame : ∀ t : Token, t.withoutSpan.kind = t.kind ∧ t.withoutSpan.literal = t.literal :=
    fun _ => ⟨rfl, rfl⟩
  have hqfits : Fits q.withoutSpans.unparse (us.map Token.withoutSpan) := by
    rw [withoutSpans, Program.unparse_relabel]
    exact hfits.withoutSpans
  have hpfits : Fits p.withoutSpans.unparse (us.map Token.withoutSpan) := by
    rw [withoutSpans, Program.unparse_relabel]
    exact fits_of_lexed hus
  exact ⟨q, hq, eq_of_fits (Program.wellFormed_relabel hsame hwf)
    (Program.wellFormed_relabel hsame hp) hqfits hpfits⟩

/-- A well-formed tree whose tokens are spelled as they should be can be printed in any layout,
and what is read back differs from it in the places of its tokens only. -/
theorem ofText_layout {p : Program} {gap : Nat → List Char} (hp : p.WellFormed)
    (hspelled : ∀ t, kept t ∈ p.unparse → t.IsSpelled)
    (hgap : ∀ i, ∀ x ∈ gap i, isGap x = true)
    (hne : ∀ i, 0 < i → i < p.unparse.length → gap i ≠ []) :
    ∃ q, ofText (String.ofList (layout gap p.unparse)) = .ok q ∧
      q.withoutSpans = p.withoutSpans := by
  obtain ⟨ts, hts, us, e, hus, he, hrow⟩ :=
    scans_layout hspelled hgap hne _ (.ofText (layout gap p.unparse)) rfl (Nat.le_refl _)
  obtain ⟨q, hq, hsame⟩ := exists_ofTokens_of_lexed hp hrow he
  have htokens : tokenize (String.ofList (layout gap p.unparse)) = .ok ts := by
    rw [tokenize, String.toList_ofList]
    exact hts
  have hsource : ofSourceTokens ts = .ok q := by
    rw [ofSourceTokens, hus, hq]
    rfl
  refine ⟨q, ?_, hsame⟩
  rw [ofText, htokens]
  exact hsource

theorem ofText_layout_declaration :
    let int : Token := ⟨.keyword (.scalar .int), "int", none, .origin⟩
    let x : Token := ⟨.name, "x", none, .origin⟩
    let one : Token := ⟨.number, "1", some 1, .origin⟩
    let p : Program :=
      ⟨[.declare ⟨⟨.scalar .int, some int, 0⟩, [], [x], some (.value (.literal one 1))⟩]⟩
    let gap : Nat → List Char := fun _ => ['\n', ' ']
    p.WellFormed ∧ (∀ t, kept t ∈ p.unparse → t.IsSpelled) ∧
      ∃ q, ofText (String.ofList (layout gap p.unparse)) = .ok q ∧
        q.withoutSpans = p.withoutSpans := by
  intro int x one p gap
  have hp : p.WellFormed := by
    intro i hi
    obtain rfl := List.mem_singleton.mp hi
    exact {
      type := ⟨.int, int, rfl, rfl, rfl⟩
      rank := rfl
      dims := by simp
      names := ⟨List.cons_ne_nil _ _, by simp [x]⟩
      init := by
        rintro _ ⟨⟩
        exact ⟨rfl, rfl⟩
    }
  have hspelled : ∀ t, kept t ∈ p.unparse → t.IsSpelled := by
    intro t ht
    have hrow : p.unparse = [kept int, kept x, .symbol .assign, kept one, .symbol .semicolon] := rfl
    rw [hrow] at ht
    obtain rfl | rfl | rfl : t = int ∨ t = x ∨ t = one := by simpa using ht
    · exact ⟨rfl, rfl⟩
    · exact ⟨by decide, by decide, rfl⟩
    · exact ⟨by decide, List.all_eq_true.mp (by decide), by decide, by decide⟩
  have hgap : ∀ i, ∀ x ∈ gap i, isGap x = true := fun _ => List.all_eq_true.mp (by decide)
  exact ⟨hp, hspelled, ofText_layout hp hspelled hgap fun i _ _ => List.cons_ne_nil _ _⟩

end Program
end Jam
