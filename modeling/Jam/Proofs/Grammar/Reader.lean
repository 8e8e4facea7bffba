import Jam.Proofs.Grammar.Viable
import Mathlib.Data.List.Induction

/-!
A reader is a sequence of tokens and a position in it. The sequence ends with an end of input, and
the position is moved by nothing but `advance`, which never passes an end of input. So the position
stays within the sequence, and the tokens from it to the first end of input are those that a parser
still has to read.
-/
namespace Jam

structure Reader where
  tokens : List Token
  position : Nat
deriving DecidableEq, Repr

namespace Reader

def ofTokens (ts : List Token) : Reader := ⟨Token.withEnd ts, 0⟩

/-- The next token. -/
def peek? (r : Reader) : Option Token := r.tokens[r.position]?

/-- The token before the position, or the first one. -/
def previous? (r : Reader) : Option Token := r.tokens[r.position - 1]?

def isAtEnd (r : Reader) : Bool := r.peek?.any (·.kind == .endOfInput)

/-- Moves past the next token, but not past an end of input. -/
def advance (r : Reader) : Reader := if r.isAtEnd then r else ⟨r.tokens, r.position + 1⟩

/-- Whether the next token is none that ends the input and belongs to a class. -/
def check (r : Reader) (k : KindClass) : Bool := !r.isAtEnd && r.peek?.any (k ·.kind)

/-- The tokens that are still to be read. -/
def rest (r : Reader) : List Token := Token.beforeEnd (r.tokens.drop r.position)

/-- The readers to which a reader of some tokens can be moved. -/
inductive Reached (ts : List Token) : Reader → Prop
  | start : Reached ts (ofTokens ts)
  | advance {r : Reader} (h : Reached ts r) : Reached ts r.advance

/-- The position is at most that of the first end of input, so there is a token at it, and one
before it or at it. -/
structure InRange (ts : List Token) (r : Reader) : Prop where
  tokens : r.tokens = Token.withEnd ts
  position : r.position ≤ (Token.withEnd ts).findIdx (·.kind == .endOfInput)
  peek : ∃ t, r.peek? = some t
  previous : ∃ t, r.previous? = some t

/-- Where a reader stands among the tokens before the first end of input. -/
structure Stands (ts : List Token) (r : Reader) (read rest : List Token) : Prop where
  tokens : r.tokens = Token.withEnd ts
  split : Token.beforeEnd ts = read ++ rest
  position : r.position = read.length

section

variable {ts read rest : List Token} {r : Reader} {t : Token}

theorem Stands.start : Stands ts (ofTokens ts) [] (Token.beforeEnd ts) := ⟨rfl, rfl, rfl⟩

/-- Behind the tokens to be read comes an end of input, and none is among them. -/
theorem Stands.drop_eq (h : Stands ts r read rest) : (∀ t ∈ rest, t.kind ≠ .endOfInput) ∧
    ∃ t us, r.tokens.drop r.position = rest ++ t :: us ∧ t.kind = .endOfInput ∧
      t.span = Token.endSpan ts := by
  constructor
  · intro u hu
    have hmem : u ∈ Token.beforeEnd ts := by
      rw [h.split]
      exact List.mem_append_right read hu
    exact Token.kind_ne_of_mem_beforeEnd hmem
  · obtain ⟨t, us, hend, ht, hspan⟩ := Token.exists_withEnd_eq ts
    refine ⟨t, us, ?_, ht, hspan⟩
    rw [h.tokens, h.position, hend, h.split, List.append_assoc, List.drop_left]

theorem Stands.rest_eq (h : Stands ts r read rest) : r.rest = rest := by
  obtain ⟨hne, t, us, hdrop, ht, -⟩ := h.drop_eq
  rw [Reader.rest, hdrop, Token.beforeEnd_append hne, Token.beforeEnd_cons_of_end ht,
    List.append_nil]

theorem peek?_eq (r : Reader) : r.peek? = (r.tokens.drop r.position).head? := by
  rw [peek?, List.head?_drop]

theorem Stands.peek_of_nil (h : Stands ts r read []) :
    ∃ t, r.peek? = some t ∧ t.kind = .endOfInput ∧ t.span = Token.endSpan ts := by
  obtain ⟨-, t, us, hdrop, ht⟩ := h.drop_eq
  exact ⟨t, by rw [peek?_eq, hdrop]; rfl, ht⟩

theorem Stands.peek_of_cons (h : Stands ts r read (t :: rest)) :
    r.peek? = some t ∧ t.kind ≠ .endOfInput := by
  obtain ⟨hne, u, us, hdrop, -⟩ := h.drop_eq
  exact ⟨by rw [peek?_eq, hdrop]; rfl, hne t List.mem_cons_self⟩

theorem Stands.advance_of_nil (h : Stands ts r read []) : r.advance = r := by
  obtain ⟨t, ht, hkind, -⟩ := h.peek_of_nil
  rw [Reader.advance, if_pos]
  simp [isAtEnd, ht, hkind]

theorem Stands.advance_of_cons (h : Stands ts r read (t :: rest)) :
    Stands ts r.advance (read ++ [t]) rest := by
  obtain ⟨ht, hkind⟩ := h.peek_of_cons
  have hmoves : r.advance = ⟨r.tokens, r.position + 1⟩ := by
    rw [Reader.advance, if_neg]
    simp [isAtEnd, ht, hkind]
  rw [hmoves]
  exact ⟨h.tokens, by rw [h.split]; simp, by simp [h.position]⟩

theorem Stands.check_eq (h : Stands ts r read rest) (k : KindClass) :
    r.check k = rest.head?.any (k ·.kind) := by
  cases rest with
  | nil =>
    obtain ⟨t, ht, hkind, -⟩ := h.peek_of_nil
    simp [check, isAtEnd, ht, hkind]
  | cons t rest =>
    obtain ⟨ht, hkind⟩ := h.peek_of_cons
    simp [check, isAtEnd, ht, hkind]

/-- A failure before the tokens to be read is an error at the next token. -/
theorem Stands.error_eq (h : Stands ts r read rest) (fault : SyntaxFault) :
    ∃ t, r.peek? = some t ∧ Failure.error ⟨fault, rest⟩ (Token.endSpan ts) = .at fault t := by
  cases rest with
  | nil =>
    obtain ⟨t, ht, hkind, hspan⟩ := h.peek_of_nil
    exact ⟨t, ht, by simp [Failure.error, SyntaxError.at, hkind, hspan]⟩
  | cons t rest =>
    obtain ⟨ht, hkind⟩ := h.peek_of_cons
    exact ⟨t, ht, by simp [Failure.error, SyntaxError.at, hkind]⟩

theorem Stands.eq (h : Stands ts r read rest) : r = ⟨Token.withEnd ts, read.length⟩ := by
  cases r
  exact congr (congrArg Reader.mk h.tokens) h.position

theorem Reached.stands (h : Reached ts r) : ∃ read rest, Stands ts r read rest := by
  induction h with
  | start => exact ⟨[], _, Stands.start⟩
  | @advance r _ ih =>
    obtain ⟨read, rest, hr⟩ := ih
    cases rest with
    | nil =>
      rw [hr.advance_of_nil]
      exact ⟨read, [], hr⟩
    | cons t rest => exact ⟨read ++ [t], rest, hr.advance_of_cons⟩

/-- Every place before the first end of input or at it is reached. -/
theorem reached_of_split (hsplit : Token.beforeEnd ts = read ++ rest) :
    Reached ts ⟨Token.withEnd ts, read.length⟩ := by
  induction read using List.reverseRecOn generalizing rest with
  | nil => exact .start
  | append_singleton read t ih =>
    rw [List.append_assoc, List.singleton_append] at hsplit
    have hstands : Stands ts ⟨Token.withEnd ts, read.length⟩ read (t :: rest) := ⟨rfl, hsplit, rfl⟩
    rw [← hstands.advance_of_cons.eq]
    exact (ih hsplit).advance

/-- The position of the first end of input. -/
theorem findIdx_withEnd (ts : List Token) :
    (Token.withEnd ts).findIdx (·.kind == .endOfInput) = (Token.beforeEnd ts).length := by
  obtain ⟨t, us, hend, ht, -⟩ := Token.exists_withEnd_eq ts
  have hnone : (Token.beforeEnd ts).findIdx (·.kind == .endOfInput) =
      (Token.beforeEnd ts).length := by
    rw [List.findIdx_eq_length]
    intro u hu
    simpa using Token.kind_ne_of_mem_beforeEnd hu
  rw [hend, List.findIdx_append, hnone]
  simp [List.findIdx_cons, ht]

theorem Reached.position_add_length (h : Reached ts r) :
    r.position + r.rest.length = (Token.beforeEnd ts).length := by
  obtain ⟨read, rest, hr⟩ := h.stands
  rw [hr.rest_eq, hr.position, hr.split, List.length_append]

theorem Reached.inRange (h : Reached ts r) : InRange ts r := by
  obtain ⟨read, rest, hr⟩ := h.stands
  have hposition : r.position ≤ (Token.beforeEnd ts).length := by
    rw [← h.position_add_length]
    exact Nat.le_add_right _ _
  have hpeek : ∃ t, r.peek? = some t := by
    cases rest with
    | nil =>
      obtain ⟨t, ht, -⟩ := hr.peek_of_nil
      exact ⟨t, ht⟩
    | cons t rest => exact ⟨t, hr.peek_of_cons.1⟩
  refine ⟨hr.tokens, by rwa [findIdx_withEnd], hpeek, ?_⟩
  obtain ⟨t, ht⟩ := hpeek
  have hlength := (List.getElem?_eq_some_iff.mp ht).1
  exact ⟨_, List.getElem?_eq_getElem (Nat.lt_of_le_of_lt (Nat.sub_le _ _) hlength)⟩

end

end Reader
end Jam
