import Jam.Tree.Basic
import Mathlib.Data.List.Forall2

/-!
A row of places is the written form of a tree. A token that the tree keeps has its own place; the
symbols and keywords that the tree leaves out are implied by its shape, and only their kind is
known. A sequence of tokens fits a row if it has the kept tokens and the implied kinds, each in
its place.
-/
namespace Jam

inductive Slot where
  | kept (t : Token)
  | symbol (s : Symbol)
  | keyword (k : Keyword)
deriving DecidableEq, Repr

namespace Slot

def kind : Slot → TokenKind
  | kept t => t.kind
  | symbol s => .symbol s
  | keyword k => .keyword k

def Holds : Slot → Token → Prop
  | kept t, u => u = t
  | symbol s, u => u.kind = .symbol s
  | keyword k, u => u.kind = .keyword k

theorem Holds.kind_eq {s : Slot} {t : Token} (h : s.Holds t) : s.kind = t.kind := by
  cases s with
  | kept u => exact congrArg Token.kind h.symm
  | symbol s => exact h.symm
  | keyword k => exact h.symm

/-- Rows with commas between them. -/
def commas : List (List Slot) → List Slot
  | [] => []
  | first :: others => first ++ others.flatMap (symbol .comma :: ·)

/-- A row between brackets. -/
def bracketed (row : List Slot) : List Slot :=
  symbol .leftBracket :: (row ++ [symbol .rightBracket])

/-- A row between parentheses. -/
def grouped (row : List Slot) : List Slot :=
  symbol .leftParen :: (row ++ [symbol .rightParen])

/-- A row between braces. -/
def braced (row : List Slot) : List Slot :=
  symbol .leftBrace :: (row ++ [symbol .rightBrace])

theorem grouped_append (row others : List Slot) :
    grouped row ++ others = symbol .leftParen :: (row ++ symbol .rightParen :: others) := by
  rw [grouped, List.cons_append, List.append_assoc]
  rfl

/-- The word that announces dimensions, if there are any. -/
def arrayWord : Nat → List Slot
  | 0 => []
  | _ + 1 => [keyword .array]

section Kept

variable {t : Token} {row : List Slot}

@[simp]
theorem kept_mem_bracketed : kept t ∈ bracketed row ↔ kept t ∈ row := by
  simp [bracketed]

@[simp]
theorem kept_mem_grouped : kept t ∈ grouped row ↔ kept t ∈ row := by
  simp [grouped]

@[simp]
theorem kept_mem_braced : kept t ∈ braced row ↔ kept t ∈ row := by
  simp [braced]

@[simp]
theorem kept_mem_commas {rows : List (List Slot)} :
    kept t ∈ commas rows ↔ ∃ row ∈ rows, kept t ∈ row := by
  cases rows with
  | nil => simp [commas]
  | cons first others => simp [commas]

@[simp]
theorem kept_not_mem_arrayWord (rank : Nat) : kept t ∉ arrayWord rank := by
  cases rank with
  | zero => simp [arrayWord]
  | succ rank => simp [arrayWord]

end Kept

end Slot

def Fits (row : List Slot) (ts : List Token) : Prop := List.Forall₂ Slot.Holds row ts

namespace Fits

variable {row others : List Slot} {ts us : List Token}

theorem nil : Fits [] [] := List.Forall₂.nil

theorem cons {s : Slot} {t : Token} (h : s.Holds t) (hs : Fits row ts) :
    Fits (s :: row) (t :: ts) :=
  List.Forall₂.cons h hs

theorem kept (t : Token) (hs : Fits row ts) : Fits (.kept t :: row) (t :: ts) :=
  List.Forall₂.cons rfl hs

theorem symbol {s : Symbol} {t : Token} (h : t.kind = .symbol s) (hs : Fits row ts) :
    Fits (.symbol s :: row) (t :: ts) :=
  List.Forall₂.cons h hs

theorem keyword {k : Keyword} {t : Token} (h : t.kind = .keyword k) (hs : Fits row ts) :
    Fits (.keyword k :: row) (t :: ts) :=
  List.Forall₂.cons h hs

theorem append (h : Fits row ts) (h' : Fits others us) : Fits (row ++ others) (ts ++ us) :=
  List.rel_append h h'

/-- What stands between an opening and a closing symbol. -/
theorem enclosed {opening closing : Symbol} {t u : Token} (ht : t.kind = .symbol opening)
    (h : Fits row ts) (hu : u.kind = .symbol closing) :
    Fits (.symbol opening :: (row ++ [.symbol closing])) (t :: (ts ++ [u])) :=
  .symbol ht (h.append (.symbol hu .nil))

theorem nil_iff : Fits [] ts ↔ ts = [] := List.forall₂_nil_left_iff

theorem cons_iff {s : Slot} :
    Fits (s :: row) ts ↔ ∃ t us, ts = t :: us ∧ s.Holds t ∧ Fits row us := by
  constructor
  · intro h
    cases h with
    | cons ht hus => exact ⟨_, _, rfl, ht, hus⟩
  · intro h
    obtain ⟨t, us, rfl, ht, hus⟩ := h
    exact .cons ht hus

theorem cons_cons_iff {s : Slot} {t : Token} :
    Fits (s :: row) (t :: ts) ↔ s.Holds t ∧ Fits row ts :=
  List.forall₂_cons

theorem append_iff :
    Fits (row ++ others) ts ↔ ∃ us vs, ts = us ++ vs ∧ Fits row us ∧ Fits others vs := by
  constructor
  · intro h
    have htake := List.forall₂_take row.length h
    have hdrop := List.forall₂_drop row.length h
    rw [List.take_left] at htake
    rw [List.drop_left] at hdrop
    exact ⟨_, _, (List.take_append_drop row.length ts).symm, htake, hdrop⟩
  · intro h
    obtain ⟨us, vs, rfl, hus, hvs⟩ := h
    exact hus.append hvs

/-- What stands between parentheses, and what follows. -/
theorem grouped_append {t u : Token} (ht : t.kind = .symbol .leftParen) (h : Fits row ts)
    (hu : u.kind = .symbol .rightParen) (h' : Fits others us) :
    Fits (Slot.grouped row ++ others) (t :: (ts ++ u :: us)) := by
  rw [Slot.grouped_append]
  exact .symbol ht (h.append (.symbol hu h'))

theorem kinds_eq (h : Fits row ts) : row.map Slot.kind = ts.map (·.kind) := by
  induction h with
  | nil => rfl
  | cons ht _ ih => rw [List.map_cons, List.map_cons, ht.kind_eq, ih]

/-- A token that is kept stands at its place. -/
theorem getElem?_of_kept (h : Fits row ts) {i : Nat} {t : Token}
    (ht : row[i]? = some (.kept t)) : ts[i]? = some t := by
  induction h generalizing i with
  | nil => cases ht
  | cons hs _ ih =>
    cases i with
    | zero =>
      cases ht
      exact congrArg some hs
    | succ i => exact ih ht

/-- Every row is fitted by some tokens. -/
theorem exists_fits (row : List Slot) : ∃ ts, Fits row ts := by
  induction row with
  | nil => exact ⟨[], .nil⟩
  | cons s row ih =>
    obtain ⟨ts, hts⟩ := ih
    cases s with
    | kept t => exact ⟨t :: ts, hts.kept t⟩
    | symbol s => exact ⟨⟨.symbol s, s.spelling, none, .origin⟩ :: ts, .symbol rfl hts⟩
    | keyword k => exact ⟨⟨.keyword k, k.spelling, none, .origin⟩ :: ts, .keyword rfl hts⟩

end Fits
end Jam
