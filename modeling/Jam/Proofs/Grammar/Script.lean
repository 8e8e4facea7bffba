import Jam.Grammar.Equations
import Jam.Proofs.Grammar.Reader

/-!
What a parser does, step by step. A script says which uses of a reader follow one another: whether
the next token belongs to a class is found out, and such a token may be taken. What a script comes
to as a parser is what it comes to when it is run on a reader, and in all its states the reader
stands where `advance` can move it to.
-/
namespace Jam

open Jam.Parser

inductive Script (α : Type) where
  | done (a : α)
  | fail (fault : SyntaxFault)
  | failAt (t : Token) (fault : SyntaxFault)
  | look (k : KindClass) (next : Bool → Script α)
  | take (k : KindClass) (next : Option Token → Script α)

namespace Reader

variable {ts : List Token} {r : Reader}

theorem Reached.nextIn_eq (h : r.Reached ts) (k : KindClass) :
    nextIn k r.rest = .ok (r.check k, r.rest) := by
  obtain ⟨read, rest, hr⟩ := h.stands
  rw [hr.rest_eq, hr.check_eq]
  rfl

theorem Reached.take?_eq (h : r.Reached ts) (k : KindClass) :
    take? k r.rest = .ok (if r.check k then (r.peek?, r.advance.rest) else (none, r.rest)) := by
  obtain ⟨read, rest, hr⟩ := h.stands
  rw [hr.rest_eq, hr.check_eq]
  cases rest with
  | nil => rfl
  | cons t rest =>
    rw [hr.peek_of_cons.1, hr.advance_of_cons.rest_eq, take?]
    cases hk : k t.kind with
    | true => simp [hk]
    | false => simp [hk]

end Reader

namespace Script

variable {α β : Type}

/-- A script as a parser. -/
def parser : Script α → Parser α
  | done a => pure a
  | fail fault => Parser.fail fault
  | failAt t fault => Parser.failAt t fault
  | look k next => nextIn k >>= fun b => (next b).parser
  | take k next => take? k >>= fun t? => (next t?).parser

/-- Runs a script on a reader. The reader that is left comes with the result. There is no outcome
at all if the script fails at a token and the position is outside the sequence. -/
def run : Script α → Reader → Option (Except SyntaxError (α × Reader))
  | done a, r => some (.ok (a, r))
  | fail fault, r => r.peek?.map fun t => .error (.at fault t)
  | failAt t fault, _ => some (.error ⟨fault, some t, t.span.line, t.span.colStart⟩)
  | look k next, r => (next (r.check k)).run r
  | take k next, r => if r.check k then (next r.peek?).run r.advance else (next none).run r

/-- The states in which a script uses a reader, and the one that it leaves. -/
def states : Script α → Reader → List Reader
  | done _, r | fail _, r | failAt _ _, r => [r]
  | look k next, r => r :: (next (r.check k)).states r
  | take k next, r =>
    r :: if r.check k then (next r.peek?).states r.advance else (next none).states r

def bind : Script α → (α → Script β) → Script β
  | done a, f => f a
  | fail fault, _ => fail fault
  | failAt t fault, _ => failAt t fault
  | look k next, f => look k fun b => (next b).bind f
  | take k next, f => take k fun t? => (next t?).bind f

theorem parser_bind (s : Script α) (f : α → Script β) :
    (s.bind f).parser = s.parser >>= fun a => (f a).parser := by
  induction s with
  | done a => rfl
  | fail fault => rfl
  | failAt t fault => rfl
  | look k next ih => simp only [bind, parser, ih, bind_assoc]
  | take k next ih => simp only [bind, parser, ih, bind_assoc]

theorem keeps (s : Script α) : Keeps s.parser := by
  induction s with
  | done a => exact keeps_pure a
  | fail fault => exact (shrinks_fail fault).keeps
  | failAt t fault => exact (shrinks_failAt t fault).keeps
  | look k next ih => exact (keeps_nextIn k).bind ih
  | take k next ih => exact .take_bind (fun t => ih (some t)) (ih none)

variable {ts : List Token} {r : Reader}

/-- A script moves a reader by `advance` only. -/
theorem reached_of_mem_states (s : Script α) (h : r.Reached ts) :
    ∀ r' ∈ s.states r, r'.Reached ts := by
  induction s generalizing r with
  | done a => simpa [states] using h
  | fail fault => simpa [states] using h
  | failAt t fault => simpa [states] using h
  | look k next ih =>
    rw [states, List.forall_mem_cons]
    exact ⟨h, ih _ h⟩
  | take k next ih =>
    rw [states, List.forall_mem_cons]
    refine ⟨h, ?_⟩
    split
    · exact ih _ h.advance
    · exact ih _ h

/-- The outcome of a run is a result with the reader that is left, or an error. -/
structure Ends (s : Script α) (ts : List Token) (r : Reader)
    (outcome : Except Failure (α × List Token)) : Prop where
  ok : ∀ a rest, outcome = .ok (a, rest) →
    ∃ r' ∈ s.states r, s.run r = some (.ok (a, r')) ∧ r'.rest = rest
  error : ∀ f, outcome = .error f → s.run r = some (.error (f.error (Token.endSpan ts)))

theorem Ends.of_eq {s s' : Script α} {r' : Reader} {outcome : Except Failure (α × List Token)}
    (h : s'.Ends ts r' outcome) (hrun : s.run r = s'.run r')
    (hstates : ∀ x ∈ s'.states r', x ∈ s.states r) : s.Ends ts r outcome where
  ok a rest e := by
    obtain ⟨x, hx, hend, hrest⟩ := h.ok a rest e
    exact ⟨x, hstates x hx, hrun.trans hend, hrest⟩
  error f e := hrun.trans (h.error f e)

/-- The parser of a script does to the tokens that a reader has not read what the script does to
the reader. -/
theorem ends (s : Script α) (h : r.Reached ts) : s.Ends ts r (s.parser r.rest) := by
  induction s generalizing r with
  | done a =>
    constructor
    · intro b rest e
      cases e
      exact ⟨r, List.mem_cons_self, rfl, rfl⟩
    · intro f e
      cases e
  | fail fault =>
    constructor
    · intro b rest e
      cases e
    · intro f e
      cases e
      obtain ⟨read, rest, hr⟩ := h.stands
      obtain ⟨t, ht, herror⟩ := hr.error_eq fault
      rw [run, ht, hr.rest_eq, herror]
      rfl
  | failAt t fault =>
    constructor
    · intro b rest e
      cases e
    · intro f e
      cases e
      rfl
  | look k next ih =>
    rw [parser, bind_apply, h.nextIn_eq]
    exact (ih _ h).of_eq rfl fun x hx => List.mem_cons_of_mem _ hx
  | take k next ih =>
    rw [parser, bind_apply, h.take?_eq]
    cases hk : r.check k with
    | true =>
      refine (ih r.peek? h.advance).of_eq (by rw [run, hk]; rfl) fun x hx => ?_
      rw [states, hk]
      exact List.mem_cons_of_mem _ hx
    | false =>
      refine (ih none h).of_eq (by rw [run, hk]; rfl) fun x hx => ?_
      rw [states, hk]
      exact List.mem_cons_of_mem _ hx

/-- The outcome of a run, with the position that the reader is left at. -/
def outcome (s : Script α) (r : Reader) : Option (Except SyntaxError (α × Nat)) :=
  (s.run r).map fun result => result.map fun (a, left) => (a, left.position)

theorem map_outcome (s : Script α) (r : Reader) :
    (s.outcome r).map (Except.map Prod.fst) = (s.run r).map (Except.map Prod.fst) := by
  unfold outcome
  cases s.run r with
  | none => rfl
  | some result => cases result <;> rfl

/-- Of two sequences that agree up to where the input ends, no script can tell which one its reader
reads. -/
theorem outcome_eq_of_stands {us read rest : List Token} {r' : Reader}
    (hend : Token.endSpan us = Token.endSpan ts) (s : Script α) (h : r.Stands ts read rest)
    (h' : r'.Stands us read rest) : s.outcome r' = s.outcome r := by
  -- By induction on the script; the readers stand at the same place in all its states.
  induction s generalizing r r' read rest with
  | done a =>
    have hposition : r'.position = r.position := h'.position.trans h.position.symm
    simp [outcome, run, Except.map, hposition]
  | fail fault =>
    obtain ⟨t, ht, herror⟩ := h.error_eq fault
    obtain ⟨t', ht', herror'⟩ := h'.error_eq fault
    have hsame : SyntaxError.at fault t' = .at fault t := by
      rw [← herror', ← herror, hend]
    simp [outcome, run, Except.map, ht, ht', hsame]
  | failAt t fault => rfl
  | look k next ih =>
    have hcheck : r'.check k = r.check k := (h'.check_eq k).trans (h.check_eq k).symm
    simpa only [outcome, run, hcheck] using ih (r.check k) h h'
  | take k next ih =>
    have hcheck : r'.check k = r.check k := (h'.check_eq k).trans (h.check_eq k).symm
    cases rest with
    | nil =>
      have hnone : r.check k = false := h.check_eq k
      simpa [outcome, run, hcheck, hnone] using ih none h h'
    | cons t rest =>
      cases hk : r.check k with
      | false => simpa [outcome, run, hcheck, hk] using ih none h h'
      | true =>
        have hnext := ih (some t) h.advance_of_cons h'.advance_of_cons
        simpa [outcome, run, hcheck, hk, h.peek_of_cons.1, h'.peek_of_cons.1] using hnext

end Script
end Jam
