import Jam.Proofs.Printed
import Jam.Proofs.Token.Determined
import Jam.Proofs.Token.LineBreak

/-!
Which tokens need a gap between them. A token is taken as it is unless the character behind it joins
it, which makes its lexeme longer or its number one that is refused. Two tokens glue if the first
character of the second one joins the first one. So a row of tokens is scanned back exactly when
no two that glue stand together.
-/
namespace Jam

open Text Cursor Slot

/-- Symbols that make another symbol if nothing stands between them. -/
def Symbol.glues : Symbol → Symbol → Bool
  | plus, plus | plus, increment
  | less, assign | less, equal | greater, assign | greater, equal
  | assign, assign | assign, equal | bang, assign | bang, equal => true
  | _, _ => false

/-- Tokens that are not scanned apart if nothing stands between them. -/
def Token.glues (t u : Token) : Bool :=
  match t.kind, u.kind with
  | .keyword _, .keyword _ | .keyword _, .name | .keyword _, .number
  | .name, .keyword _ | .name, .name | .name, .number | .number, .number => true
  | .number, .keyword _ | .number, .name => u.lexeme.toList.head?.any isAlphabetic
  | .symbol s, .symbol s' => s.glues s'
  | _, _ => false

/-- The characters with which a symbol becomes a longer one. -/
def Symbol.joins : Symbol → Char → Bool
  | plus, '+' | less, '=' | greater, '=' | assign, '=' | bang, '=' => true
  | _, _ => false

/-- The characters that cannot stand behind a token of some kind without changing it. -/
def TokenKind.joins : TokenKind → Char → Bool
  | keyword _, x | name, x => isNamePart x
  | number, x => x.isDigit || isAlphabetic x
  | symbol s, x => s.joins x
  | newline, _ | endOfInput, _ => false

/-- Symbols glue if the first character of the second one joins the first one. -/
theorem Symbol.glues_eq (s s' : Symbol) :
    s.glues s' = s'.spelling.toList.head?.any s.joins := by
  have hall : ∀ s' ∈ all, ∀ s ∈ all, s.glues s' = s'.spelling.toList.head?.any s.joins := by
    decide +kernel
  exact hall s' (mem_all s') s (mem_all s)

theorem Symbol.joins_iff {s : Symbol} {x : Char} :
    s.joins x = true ↔ ∃ t : Symbol, t.spelling.toList = s.spelling.toList ++ [x] := by
  constructor
  · intro h
    unfold joins at h
    split at h
    · exact ⟨.increment, rfl⟩
    · exact ⟨.lessEqual, rfl⟩
    · exact ⟨.greaterEqual, rfl⟩
    · exact ⟨.equal, rfl⟩
    · exact ⟨.notEqual, rfl⟩
    · cases h
  · rintro ⟨t, ht⟩
    have hall : ∀ t ∈ all, ∀ s ∈ all, t.spelling.toList.dropLast = s.spelling.toList →
        t.spelling.toList.getLast?.all s.joins = true := by decide +kernel
    have hlast := hall t (mem_all t) s (mem_all s) (by simp [ht])
    simpa [ht] using hlast

namespace Text

theorem isNamePart_of_isDigit {x : Char} (h : x.isDigit = true) : isNamePart x = true := by
  simp [isNamePart, isNumeric_of_isDigit h]

theorem isNamePart_of_isNameStart {x : Char} (h : isNameStart x = true) : isNamePart x = true := by
  have hrun : isNameRun [x] = true := by simpa [isNameRun] using h
  exact all_isNamePart_of_isNameRun hrun x List.mem_cons_self

end Text

/-- No character of a symbol can stand in a name. -/
theorem Symbol.isNamePart_eq_false {s : Symbol} {x : Char} (h : x ∈ s.spelling.toList) :
    isNamePart x = false := by
  have hall : ∀ s ∈ Symbol.all, (s.spelling.toList.all fun x => !isNamePart x) = true := by decide
  have hx := List.all_eq_true.mp (hall s (Symbol.mem_all s)) x h
  simpa using hx

theorem Symbol.not_joins_of_isNamePart (s : Symbol) {x : Char} (h : isNamePart x = true) :
    s.joins x = false := by
  refine Bool.eq_false_iff.mpr fun hjoins => ?_
  obtain ⟨t, ht⟩ := Symbol.joins_iff.mp hjoins
  rw [t.isNamePart_eq_false (by rw [ht]; simp)] at h
  cases h

namespace Text

variable {word text rest blamed : List Char} {kind : TokenKind} {literal : Option Int}
  {fault : LexicalFault}

/-- The next token of a text is made of these characters. -/
structure IsNext (word text : List Char) : Prop where
  longest : Longest word text
  sound : ∀ fault blamed, ¬ Faulty text fault blamed

theorem Longest.eq {v : List Char} (h : Longest word text) (hv : Longest v text) : word = v :=
  (List.prefix_of_prefix_length_le h.isPrefix hv.isPrefix
    (hv.longest word h.lexeme h.isPrefix)).eq_of_length
      (Nat.le_antisymm (hv.longest word h.lexeme h.isPrefix) (h.longest v hv.lexeme hv.isPrefix))

/-- A lexeme is the longest one if all that begin where it does stay in a class, and the text leaves
this class behind it. -/
theorem longest_of_stops {p : Char → Bool} (hword : IsLexeme word) (hstops : Stops p rest)
    (hclass : ∀ v, IsLexeme v → v <+: word ++ rest → ∀ x ∈ v, p x = true) :
    Longest word (word ++ rest) where
  lexeme := hword
  isPrefix := List.prefix_append word rest
  longest := fun v hv hfront => length_le_of_stops hfront hstops (hclass v hv hfront)

theorem longest_nameRun (hrun : isNameRun word = true) (hstops : Stops isNamePart rest) :
    Longest word (word ++ rest) := by
  refine longest_of_stops (isLexeme_nameRun hrun) hstops fun v hv hfront => ?_
  obtain ⟨x, others, rfl⟩ : ∃ x others, word = x :: others := by
    cases word with
    | nil => cases hrun
    | cons x others => exact ⟨x, others, rfl⟩
  have hx := isNameStart_of_isNameRun hrun
  obtain ⟨more, rfl⟩ := List.head?_eq_some_iff.mp (hv.head?_eq hfront)
  rcases hv.cases_first with ⟨-, -, hname, -⟩ | ⟨rfl, -⟩ | hdigits | hrun'
  · rw [hname] at hx
    cases hx
  · exact absurd hx (by decide)
  · have hdigit := isDigit_eq_false_of_isNameStart hx
    rw [hdigits x List.mem_cons_self] at hdigit
    cases hdigit
  · exact all_isNamePart_of_isNameRun hrun'

theorem longest_digits (hne : word ≠ []) (hdigits : ∀ x ∈ word, x.isDigit = true)
    (hstops : Stops Char.isDigit rest) : Longest word (word ++ rest) := by
  refine longest_of_stops (isLexeme_digits hne hdigits) hstops fun v hv hfront => ?_
  obtain ⟨x, others, rfl⟩ := List.exists_cons_of_ne_nil hne
  have hx := hdigits x List.mem_cons_self
  obtain ⟨more, rfl⟩ := List.head?_eq_some_iff.mp (hv.head?_eq hfront)
  rcases hv.cases_first with ⟨-, hdigit, -⟩ | ⟨rfl, -⟩ | hdigits' | hrun
  · rw [hdigit] at hx
    cases hx
  · exact absurd hx (by decide)
  · exact hdigits'
  · rw [isDigit_eq_false_of_isNameStart (isNameStart_of_isNameRun hrun)] at hx
    cases hx

theorem longest_symbol (s : Symbol) (hstops : Stops s.joins rest) :
    Longest s.spelling.toList (s.spelling.toList ++ rest) where
  lexeme := isLexeme_symbol s
  isPrefix := List.prefix_append _ rest
  longest := by
    intro v hv hfront
    by_contra hlonger
    obtain ⟨left, rfl⟩ := List.prefix_of_prefix_length_le (List.prefix_append _ rest) hfront
      (Nat.le_of_not_le hlonger)
    obtain ⟨x, others, hs⟩ := List.exists_cons_of_ne_nil (Spells.symbol s).ne_nil
    obtain ⟨hgap, hdigit, hname⟩ := Symbol.first_of_spelling hs
    -- The longer lexeme is a symbol as well, so it has just one character more.
    have hsymbol : ∃ t : Symbol, t.spelling.toList = s.spelling.toList ++ left := by
      rw [hs, List.cons_append] at hv ⊢
      rcases hv.cases_first with ⟨-, -, -, ht⟩ | ⟨rfl, -⟩ | hdigits | hrun
      · exact ht
      · exact absurd hgap (by decide)
      · rw [hdigits x List.mem_cons_self] at hdigit
        cases hdigit
      · rw [isNameStart_of_isNameRun hrun] at hname
        cases hname
    obtain ⟨t, ht⟩ := hsymbol
    have hlength : left.length = 1 := by
      have htwo : t.spelling.toList.length ≤ 2 := by
        rcases t.spelling_cases with ⟨y, h⟩ | ⟨y, z, h⟩ <;> simp [h]
      rw [ht, hs] at htwo
      simp only [List.length_append, List.length_cons] at htwo hlonger
      omega
    obtain ⟨y, rfl⟩ := List.length_eq_one_iff.mp hlength
    obtain ⟨more, rfl⟩ := (List.prefix_append_right_inj _).mp hfront
    have hjoins := hstops y rfl
    rw [Symbol.joins_iff.mpr ⟨t, ht⟩] at hjoins
    cases hjoins

/-- Only numbers are refused where they begin: a letter follows, or they are too large. -/
theorem Faulty.of_longest (h : Faulty (word ++ rest) fault blamed)
    (hword : Longest word (word ++ rest)) :
    (∀ x ∈ word, x.isDigit = true) ∧
      ((∃ x ∈ rest.head?, isAlphabetic x = true) ∨
        0x7fffffffffffffff < Nat.ofDigitChars 10 word 0) := by
  generalize htext : word ++ rest = text at h hword
  cases h with
  | @loneAmpersand others hothers =>
    obtain ⟨more, rfl⟩ := List.head?_eq_some_iff.mp (hword.lexeme.head?_eq hword.isPrefix)
    rcases hword.lexeme.cases_first with ⟨-, -, -, s, hs⟩ | ⟨hx, -⟩ | hdigits | hrun
    · have hfront := hword.isPrefix
      have hdouble := Symbol.spelling_of_prefix_ampersand (hs ▸ hfront)
      rw [← hs, hdouble, List.cons_prefix_cons] at hfront
      obtain ⟨left, rfl⟩ := hfront.2
      exact absurd rfl hothers
    · exact absurd hx (by decide)
    · exact absurd (hdigits _ List.mem_cons_self) (by decide)
    · exact absurd (isNameStart_of_isNameRun hrun) (by decide)
  | @letterAfterNumber run left x hrun hdigits hx =>
    obtain rfl := hword.eq hrun
    obtain rfl := List.append_cancel_left htext
    exact ⟨hdigits, Or.inl ⟨x, rfl, hx⟩⟩
  | numberOutOfRange hrun hdigits _ hvalue =>
    obtain rfl := hword.eq hrun
    exact ⟨hdigits, Or.inr hvalue⟩
  | unrecognizedCharacter _ hx =>
    exact absurd (hword.lexeme.head?_eq hword.isPrefix) (hx word hword.lexeme)

/-- A lexeme is the next token just when no character behind it joins it. -/
theorem Spells.isNext_iff (h : Spells word kind literal)
    (hvalue : kind = .number → Nat.ofDigitChars 10 word 0 ≤ 0x7fffffffffffffff) :
    IsNext word (word ++ rest) ↔ Stops kind.joins rest := by
  have hsound : kind ≠ .number → Longest word (word ++ rest) → IsNext word (word ++ rest) := by
    intro hkind hlongest
    refine ⟨hlongest, fun fault blamed hfault => hkind ?_⟩
    have hnumber := (Spells.number h.ne_nil (hfault.of_longest hlongest).1)
    exact (h.unique hnumber).1
  cases h with
  | symbol s =>
    constructor
    · intro hnext
      apply hnext.longest.stops
      intro x hx
      obtain ⟨t, ht⟩ := Symbol.joins_iff.mp hx
      exact ht ▸ isLexeme_symbol t
    · exact fun hstops => hsound (by simp) (longest_symbol s hstops)
  | newline =>
    exact ⟨fun _ _ _ => rfl, fun _ => hsound (by simp) (longest_newline rest)⟩
  | number hne hdigits =>
    constructor
    · intro hnext x hx
      refine Bool.or_eq_false_iff.mpr ⟨hnext.longest.stops_digits hdigits x hx, ?_⟩
      obtain ⟨left, rfl⟩ := List.head?_eq_some_iff.mp hx
      exact Bool.eq_false_iff.mpr fun hletter =>
        hnext.sound _ _ (.letterAfterNumber hnext.longest hdigits hletter)
    · intro hstops
      have hboth : Stops Char.isDigit rest ∧ Stops isAlphabetic rest :=
        ⟨fun x hx => (Bool.or_eq_false_iff.mp (hstops x hx)).1,
          fun x hx => (Bool.or_eq_false_iff.mp (hstops x hx)).2⟩
      have hlongest := longest_digits hne hdigits hboth.1
      refine ⟨hlongest, fun fault blamed hfault => ?_⟩
      rcases (hfault.of_longest hlongest).2 with ⟨x, hx, hletter⟩ | hlarge
      · rw [hboth.2 x hx] at hletter
        cases hletter
      · exact absurd (hvalue rfl) (Nat.not_le_of_lt hlarge)
  | keyword k =>
    exact ⟨fun hnext => hnext.longest.stops_nameRun k.isNameRun_spelling,
      fun hstops => hsound (by simp) (longest_nameRun k.isNameRun_spelling hstops)⟩
  | name hrun _ =>
    exact ⟨fun hnext => hnext.longest.stops_nameRun hrun,
      fun hstops => hsound (by simp) (longest_nameRun hrun hstops)⟩

theorem Cuts.skip_gap {read gap : List Char} {ts : List Token}
    (h : Cuts text read ts (gap ++ rest)) (hgap : ∀ x ∈ gap, isGap x = true) :
    ∃ us, Cuts text (read ++ gap) (ts ++ us) rest ∧ Token.withoutNewlines us = [] := by
  induction gap generalizing read ts with
  | nil => exact ⟨[], by simpa using h, rfl⟩
  | cons x gap ih =>
    rw [List.forall_mem_cons] at hgap
    by_cases hx : isBlank x = true
    · obtain ⟨us, hus, hnone⟩ := ih (h.blank hx) hgap.2
      rw [List.append_assoc, List.singleton_append] at hus
      exact ⟨us, hus, hnone⟩
    · obtain rfl : x = '\n' := by simpa [isGap, hx] using hgap.1
      have hbreak : Cuts text read ts (['\n'] ++ (gap ++ rest)) := h
      obtain ⟨us, hus, hnone⟩ := ih (hbreak.token (longest_newline _) (not_faulty_newline _)
        .newline) hgap.2
      rw [List.append_assoc, List.append_assoc, List.singleton_append] at hus
      exact ⟨_, hus, hnone⟩

end Text

namespace Token

variable {t u : Token}

theorem IsSpelled.spells (ht : t.IsSpelled) : Text.Spells t.lexeme.toList t.kind t.literal := by
  obtain ⟨kind, lexeme, literal, span⟩ := t
  cases kind with
  | symbol s =>
    obtain ⟨rfl, rfl⟩ := ht
    exact .symbol s
  | keyword k =>
    obtain ⟨rfl, rfl⟩ := ht
    exact .keyword k
  | name =>
    obtain ⟨hrun, hword, rfl⟩ := ht
    refine .name hrun fun k hk => ?_
    rw [Keyword.ofSpelling?_eq_some_iff.mpr (String.toList_inj.mp hk)] at hword
    cases hword
  | number =>
    obtain ⟨hne, hdigits, -, hliteral⟩ := ht
    have hnumber := Text.Spells.number hne hdigits
    rwa [← hliteral] at hnumber
  | newline => exact ht.elim
  | endOfInput => exact ht.elim

theorem IsSpelled.value_le (ht : t.IsSpelled) (hkind : t.kind = .number) :
    Nat.ofDigitChars 10 t.lexeme.toList 0 ≤ 0x7fffffffffffffff := by
  unfold IsSpelled at ht
  rw [hkind] at ht
  exact ht.2.2.1

theorem IsSpelled.kind_ne_newline (ht : t.IsSpelled) : t.kind ≠ .newline := by
  intro hkind
  unfold IsSpelled at ht
  rw [hkind] at ht
  exact ht

theorem IsSpelled.isNext_iff {rest : List Char} (ht : t.IsSpelled) :
    IsNext t.lexeme.toList (t.lexeme.toList ++ rest) ↔ Stops t.kind.joins rest :=
  ht.spells.isNext_iff ht.value_le

/-- The first character of a word is one that can begin a name. -/
theorem IsSpelled.isNameStart (hu : u.IsSpelled) (hkind : u.kind = .name ∨ ∃ k, u.kind = .keyword k)
    {x : Char} {others : List Char} (hx : u.lexeme.toList = x :: others) :
    isNameStart x = true := by
  unfold IsSpelled at hu
  rcases hkind with hkind | ⟨k, hkind⟩
  · rw [hkind, hx] at hu
    exact isNameStart_of_isNameRun hu.1
  · rw [hkind] at hu
    have hrun := k.isNameRun_spelling
    rw [← hu.1, hx] at hrun
    exact isNameStart_of_isNameRun hrun

/-- Tokens glue if the first character of the second one joins the first one. -/
theorem glues_eq (hu : u.IsSpelled) :
    t.glues u = u.lexeme.toList.head?.any t.kind.joins := by
  obtain ⟨x, others, hx⟩ := List.exists_cons_of_ne_nil hu.spells.ne_nil
  have hword : (u.kind = .name ∨ ∃ k, u.kind = .keyword k) →
      isNamePart x = true ∧ x.isDigit = false := by
    intro hkind
    have hstart := hu.isNameStart hkind hx
    exact ⟨isNamePart_of_isNameStart hstart, isDigit_eq_false_of_isNameStart hstart⟩
  obtain ⟨k, lexeme', literal', span'⟩ := t
  obtain ⟨l, lexeme, literal, span⟩ := u
  change lexeme.toList = x :: others at hx
  unfold glues
  cases l with
  | symbol s' =>
    obtain ⟨hlexeme, -⟩ := hu
    change lexeme = s'.spelling at hlexeme
    subst hlexeme
    have hpart : isNamePart x = false := s'.isNamePart_eq_false (by rw [hx]; simp)
    have hdigit : x.isDigit = false :=
      Bool.eq_false_iff.mpr fun h => by simp [isNamePart_of_isDigit h] at hpart
    have hletter : isAlphabetic x = false := by
      unfold isNamePart at hpart
      simp_all
    cases k with
    | symbol s => exact Symbol.glues_eq s s'
    | _ => simp [TokenKind.joins, hx, hpart, hdigit, hletter]
  | number =>
    have hdigit : x.isDigit = true := hu.2.1 x (by simp [hx])
    have hpart := isNamePart_of_isDigit hdigit
    cases k with
    | symbol s => simp [TokenKind.joins, hx, Symbol.not_joins_of_isNamePart s hpart]
    | _ => simp [TokenKind.joins, hx, hdigit, hpart]
  | keyword l =>
    obtain ⟨hpart, hdigit⟩ := hword (Or.inr ⟨l, rfl⟩)
    cases k with
    | symbol s => simp [TokenKind.joins, hx, Symbol.not_joins_of_isNamePart s hpart]
    | _ => simp [TokenKind.joins, hx, hdigit, hpart]
  | name =>
    obtain ⟨hpart, hdigit⟩ := hword (Or.inl rfl)
    cases k with
    | symbol s => simp [TokenKind.joins, hx, Symbol.not_joins_of_isNamePart s hpart]
    | _ => simp [TokenKind.joins, hx, hdigit, hpart]
  | newline => exact hu.elim
  | endOfInput => exact hu.elim

/-- No two tokens that glue have nothing between them. -/
def Parted (gap : Nat → List Char) (ts : List Token) : Prop :=
  ∀ i t u, ts[i]? = some t → ts[i + 1]? = some u → t.glues u = true → gap (i + 1) ≠ []

/-- Tokens that are a row and an end of input, whatever line breaks and spans they have. -/
def GivesBack (ts us : List Token) : Prop :=
  (withoutNewlines us).map withoutSpan = ts.map withoutSpan ++ [endOfInput .origin]

variable {gap : Nat → List Char} {ts us : List Token}

theorem parted_cons : Parted gap (t :: ts) ↔
    (∀ u ∈ ts.head?, t.glues u = true → gap 1 ≠ []) ∧ Parted (fun i => gap (i + 1)) ts := by
  constructor
  · intro h
    refine ⟨fun u hu => h 0 t u rfl ?_, fun i => h (i + 1)⟩
    rwa [List.getElem?_cons_succ, ← List.head?_eq_getElem?]
  · rintro ⟨hfirst, hothers⟩ i v u hv hu
    cases i with
    | zero =>
      obtain rfl : t = v := Option.some.inj hv
      refine hfirst u ?_
      rwa [List.getElem?_cons_succ, ← List.head?_eq_getElem?] at hu
    | succ i => exact hothers i v u hv hu

theorem joins_eq_false_of_isGap (kind : TokenKind) {x : Char} (hx : isGap x = true) :
    kind.joins x = false := by
  cases kind with
  | symbol s =>
    refine Bool.eq_false_iff.mpr fun hjoins => ?_
    obtain ⟨t, ht⟩ := Symbol.joins_iff.mp hjoins
    rw [t.isGap_eq_false_of_mem (by rw [ht]; simp)] at hx
    cases hx
  | keyword k => exact isNamePart_eq_false_of_isGap hx
  | name => exact isNamePart_eq_false_of_isGap hx
  | number =>
    exact Bool.or_eq_false_iff.mpr
      ⟨isDigit_eq_false_of_isGap hx, isAlphabetic_eq_false_of_isGap hx⟩
  | newline => rfl
  | endOfInput => rfl

/-- What stands behind a token joins it just when the gap is empty and the next token glues. -/
theorem stops_layout (hts : ∀ u ∈ ts, u.IsSpelled) (hgap : ∀ x ∈ gap 0, isGap x = true) :
    Stops t.kind.joins (layout gap (ts.map .kept)) ↔
      ∀ u ∈ ts.head?, t.glues u = true → gap 0 ≠ [] := by
  cases hempty : gap 0 with
  | cons x more =>
    have hx := joins_eq_false_of_isGap t.kind (hgap x (by simp [hempty]))
    cases ts with
    | nil => simp [Stops, layout, hempty, hx]
    | cons u ts => simp [Stops, layout, hempty, hx]
  | nil =>
    cases ts with
    | nil => simp [Stops, layout, hempty]
    | cons u ts =>
      have hu : u.IsSpelled := hts u List.mem_cons_self
      have hglues := glues_eq (t := t) hu
      obtain ⟨x, others, hx⟩ := List.exists_cons_of_ne_nil hu.spells.ne_nil
      rw [hx] at hglues
      simp [Stops, layout, hempty, Slot.lexeme, hx, hglues]

theorem givesBack_append (hus : withoutNewlines us = []) {vs : List Token} :
    GivesBack ts (us ++ vs) ↔ GivesBack ts vs := by
  rw [GivesBack, GivesBack, withoutNewlines_append, hus, List.nil_append]

theorem givesBack_cons (hkind : u.kind ≠ .newline) :
    GivesBack (t :: ts) (u :: us) ↔ u.withoutSpan = t.withoutSpan ∧ GivesBack ts us := by
  have hcons : withoutNewlines (u :: us) = u :: withoutNewlines us :=
    List.filter_cons_of_pos (by simp [hkind])
  rw [GivesBack, GivesBack, hcons, List.map_cons, List.map_cons, List.cons_append, List.cons.injEq]

end Token

/-- Behind the tokens found so far, the scan of a text gives back a row. -/
def GoesOn (source : String) (us ts : List Token) : Prop :=
  ∃ vs, tokenize source = .ok (us ++ vs) ∧ Token.GivesBack ts vs

section Rows

variable {source : String} {read rest : List Char} {ts us vs : List Token} {t : Token}

theorem exists_append_of_cuts (h : Cuts source.toList read us rest)
    (hvs : tokenize source = .ok vs) : ∃ ws, vs = us ++ ws := by
  obtain ⟨rounds, c, -, -, hscan⟩ := exists_scanUpTo_of_cuts h
  rw [tokenize, hscan] at hvs
  cases hrest : c.scanUpTo rounds with
  | error e =>
    rw [hrest] at hvs
    cases hvs
  | ok ws =>
    rw [hrest] at hvs
    exact ⟨ws, (Except.ok.inj hvs).symm⟩

/-- Tokens that the scan has found further on are the first ones that it goes on with. -/
theorem goesOn_of_cuts {ws : List Token} (h : Cuts source.toList read (us ++ ws) rest) :
    GoesOn source us ts ↔
      ∃ vs, tokenize source = .ok (us ++ ws ++ vs) ∧ Token.GivesBack ts (ws ++ vs) := by
  constructor
  · rintro ⟨vs, hvs, hback⟩
    obtain ⟨vs', hvs'⟩ := exists_append_of_cuts h hvs
    rw [List.append_assoc, List.append_right_inj] at hvs'
    subst hvs'
    exact ⟨vs', by rw [List.append_assoc]; exact hvs, hback⟩
  · rintro ⟨vs, hvs, hback⟩
    rw [List.append_assoc] at hvs
    exact ⟨ws ++ vs, hvs, hback⟩

theorem goesOn_of_breaks {ws : List Token} (h : Cuts source.toList read (us ++ ws) rest)
    (hws : Token.withoutNewlines ws = []) :
    GoesOn source us ts ↔ GoesOn source (us ++ ws) ts := by
  rw [goesOn_of_cuts h]
  simp only [Token.givesBack_append hws]
  rfl

theorem goesOn_of_token {u : Token} (h : Cuts source.toList read (us ++ [u]) rest)
    (hkind : u.kind ≠ .newline) : GoesOn source us (t :: ts) ↔
      u.withoutSpan = t.withoutSpan ∧ GoesOn source (us ++ [u]) ts := by
  rw [goesOn_of_cuts h]
  simp only [List.singleton_append, Token.givesBack_cons hkind]
  constructor
  · rintro ⟨vs, hvs, hsame, hback⟩
    exact ⟨hsame, vs, hvs, hback⟩
  · rintro ⟨hsame, vs, hvs, hback⟩
    exact ⟨vs, hvs, hsame, hback⟩

/-- If the scan goes on with a token whose characters come next, it has taken just these. -/
theorem isNext_of_goesOn (h : Cuts source.toList read us (t.lexeme.toList ++ rest))
    (ht : t.IsSpelled) (hgoes : GoesOn source us (t :: ts)) :
    IsNext t.lexeme.toList (t.lexeme.toList ++ rest) := by
  have hsound : ∀ fault blamed, ¬ Faulty (t.lexeme.toList ++ rest) fault blamed := by
    intro fault blamed hfault
    obtain ⟨vs, hvs, -⟩ := hgoes
    rw [tokenize_of_faulty h hfault] at hvs
    cases hvs
  have hlexeme : IsLexeme t.lexeme.toList := ⟨_, _, ht.spells⟩
  obtain ⟨word, hword⟩ := exists_longest hlexeme (List.prefix_append _ rest)
  obtain ⟨kind, literal, hkind⟩ := hword.lexeme
  obtain ⟨left, hleft⟩ := hword.isPrefix
  have hline : kind ≠ .newline := by
    rintro rfl
    cases hkind
    have hfirst : t.lexeme.toList.head? = some '\n' := by
      rw [hlexeme.head?_eq (List.prefix_append _ rest), ← hleft]
      rfl
    exact ht.spells.not_mem_newline ht.kind_ne_newline (List.mem_of_mem_head? hfirst)
  rw [← hleft] at h hword hsound ⊢
  have hcuts := h.token hword hsound hkind
  obtain ⟨hsame, -⟩ := (goesOn_of_token hcuts hline).mp hgoes
  have hlexeme : String.ofList word = t.lexeme := congrArg Token.lexeme hsame
  rw [← hlexeme, String.toList_ofList]
  exact ⟨hword, hsound⟩

/-- Where the lexemes of a row come next, the scan gives back the row just when its tokens are
parted. -/
theorem goesOn_layout_iff {gap : Nat → List Char} (hts : ∀ t ∈ ts, t.IsSpelled)
    (hgap : ∀ i, ∀ x ∈ gap i, isGap x = true)
    (h : Cuts source.toList read us (layout gap (ts.map .kept))) :
    GoesOn source us ts ↔ Token.Parted gap ts := by
  induction ts generalizing gap read us with
  | nil =>
    rw [List.map_nil, layout, ← List.append_nil (gap 0)] at h
    obtain ⟨ws, hcuts, hbreaks⟩ := h.skip_gap (hgap 0)
    have htext := hcuts.text_eq
    rw [List.append_nil] at htext
    rw [goesOn_of_breaks hcuts hbreaks]
    rw [← htext] at hcuts
    refine ⟨fun _ => by simp [Token.Parted], fun _ => ⟨_, tokenize_of_cuts hcuts, rfl⟩⟩
  | cons t ts ih =>
    rw [List.forall_mem_cons] at hts
    obtain ⟨ht, hts⟩ := hts
    obtain ⟨ws, hcuts, hbreaks⟩ := h.skip_gap (hgap 0)
    -- The gaps of the other tokens are counted from the front of their own row.
    let gap' : Nat → List Char := fun i => gap (i + 1)
    have hgap' : ∀ i, ∀ x ∈ gap' i, isGap x = true := fun i => hgap (i + 1)
    have hbelow : IsNext t.lexeme.toList (t.lexeme.toList ++ layout gap' (ts.map .kept)) ↔
        ∀ u ∈ ts.head?, t.glues u = true → gap 1 ≠ [] :=
      ht.isNext_iff.trans (Token.stops_layout hts (hgap' 0))
    rw [goesOn_of_breaks hcuts hbreaks, Token.parted_cons, ← hbelow]
    have hgo : IsNext t.lexeme.toList (t.lexeme.toList ++ layout gap' (ts.map .kept)) →
        (GoesOn source (us ++ ws) (t :: ts) ↔ Token.Parted gap' ts) := by
      intro hnext
      have hcuts' := hcuts.token hnext.longest hnext.sound ht.spells
      rw [goesOn_of_token hcuts' ht.kind_ne_newline, ih hts hgap' hcuts', String.ofList_toList]
      exact and_iff_right rfl
    constructor
    · intro hgoes
      have hnext := isNext_of_goesOn hcuts ht hgoes
      exact ⟨hnext, (hgo hnext).mp hgoes⟩
    · rintro ⟨hnext, hparted⟩
      exact (hgo hnext).mpr hparted

/-- A row of tokens that is written down with any gaps is scanned back exactly when no two tokens
that glue have nothing between them. -/
theorem tokenize_layout_iff {gap : Nat → List Char} (hts : ∀ t ∈ ts, t.IsSpelled)
    (hgap : ∀ i, ∀ x ∈ gap i, isGap x = true) :
    (∃ us, tokenize (String.ofList (layout gap (ts.map .kept))) = .ok us ∧
      (Token.withoutNewlines us).map Token.withoutSpan =
        ts.map Token.withoutSpan ++ [.endOfInput .origin]) ↔
      ∀ i t u, ts[i]? = some t → ts[i + 1]? = some u → t.glues u = true → gap (i + 1) ≠ [] := by
  have hcuts : Cuts (String.ofList (layout gap (ts.map .kept))).toList [] []
      (layout gap (ts.map .kept)) := by
    rw [String.toList_ofList]
    exact .start
  exact goesOn_layout_iff hts hgap hcuts

/-- An integer needs no gap before a name that begins with a low line, and neither does `++` before
`+`, but `+` does before `++`. -/
theorem tokenize_layout_iff_increment :
    let one : Token := ⟨.number, "1", some 1, .origin⟩
    let x : Token := ⟨.name, "_x", none, .origin⟩
    let increment : Token := ⟨.symbol .increment, "++", none, .origin⟩
    let plus : Token := ⟨.symbol .plus, "+", none, .origin⟩
    let gap : Nat → List Char := fun _ => []
    (∀ t ∈ [one, x, increment, plus], t.IsSpelled) ∧ (∀ i, ∀ x ∈ gap i, isGap x = true) ∧
      (∃ us, tokenize "1_x+++" = .ok us ∧ (Token.withoutNewlines us).map Token.withoutSpan =
        [one, x, increment, plus, .endOfInput .origin]) ∧
      ¬ ∃ us, tokenize "+++" = .ok us ∧ (Token.withoutNewlines us).map Token.withoutSpan =
        [plus, increment, .endOfInput .origin] := by
  intro one x increment plus gap
  have hspelled : ∀ t ∈ [one, x, increment, plus], t.IsSpelled := by
    intro t ht
    obtain rfl | rfl | rfl | rfl : t = one ∨ t = x ∨ t = increment ∨ t = plus := by simpa using ht
    · exact ⟨by decide, List.all_eq_true.mp (by decide), by decide, by decide⟩
    · exact ⟨by decide, by decide, rfl⟩
    · exact ⟨rfl, rfl⟩
    · exact ⟨rfl, rfl⟩
  have hgap : ∀ i, ∀ x ∈ gap i, isGap x = true := fun _ => List.all_eq_true.mp (by decide)
  refine ⟨hspelled, hgap, ?_, ?_⟩
  · have hiff := tokenize_layout_iff hspelled hgap
    have htext : String.ofList (layout gap ([one, x, increment, plus].map .kept)) = "1_x+++" := by
      decide
    rw [htext] at hiff
    refine hiff.mpr fun i t u ht hu hglues => ?_
    have hi : i + 1 < 4 := (List.getElem?_eq_some_iff.mp hu).1
    obtain rfl | rfl | rfl : i = 0 ∨ i = 1 ∨ i = 2 := by omega
    all_goals
      cases ht
      cases hu
      exact absurd hglues (by decide)
  · intro hback
    have hpair : ∀ t ∈ [plus, increment], t.IsSpelled := by
      rw [List.forall_mem_cons, List.forall_mem_singleton]
      exact ⟨⟨rfl, rfl⟩, ⟨rfl, rfl⟩⟩
    have hiff := tokenize_layout_iff hpair hgap
    have htext : String.ofList (layout gap ([plus, increment].map .kept)) = "+++" := by decide
    rw [htext] at hiff
    exact hiff.mp hback 0 plus increment rfl rfl rfl rfl

end Rows
end Jam
