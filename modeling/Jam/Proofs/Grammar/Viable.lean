import Jam.Proofs.Grammar.Accepted
import Jam.Proofs.Tree.Kept
import Mathlib.Data.List.TakeWhile

/-!
Where a syntax error is met. The tokens before it begin some program, and with it they begin none:
whatever comes after the token at fault, the same error is reported. If no token is at fault, it is
the end of input that comes too early.
-/
namespace Jam

namespace Token

/-- The sequence with an end of input at its end, which is supplied if it is missing. -/
def withEnd (ts : List Token) : List Token :=
  match ts.getLast? with
  | none => [.endOfInput .origin]
  | some t => if t.kind = .endOfInput then ts else ts ++ [.endOfInput t.span.next]

variable {ts us w : List Token} {t : Token}

theorem kind_ne_of_mem_beforeEnd (ht : t ∈ beforeEnd ts) : t.kind ≠ .endOfInput := by
  simpa using List.mem_takeWhile_imp ht

theorem beforeEnd_append (hw : ∀ t ∈ w, t.kind ≠ .endOfInput) (us : List Token) :
    beforeEnd (w ++ us) = w ++ beforeEnd us :=
  List.takeWhile_append_of_pos fun t ht => by simpa using hw t ht

theorem beforeEnd_cons_of_end (ht : t.kind = .endOfInput) (us : List Token) :
    beforeEnd (t :: us) = [] := by
  simp [beforeEnd, ht]

theorem beforeEnd_cons_of_ne (ht : t.kind ≠ .endOfInput) (us : List Token) :
    beforeEnd (t :: us) = t :: beforeEnd us := by
  simp [beforeEnd, ht]

theorem beforeEnd_eq_self (hw : ∀ t ∈ w, t.kind ≠ .endOfInput) : beforeEnd w = w := by
  have h := beforeEnd_append hw []
  rwa [List.append_nil, show beforeEnd [] = [] from rfl, List.append_nil] at h

/-- A sequence without an end of input, or one that stands before the first of them. -/
theorem eq_beforeEnd_or (ts : List Token) :
    ts = beforeEnd ts ∨ ∃ t us, t.kind = .endOfInput ∧ ts = beforeEnd ts ++ t :: us := by
  induction ts with
  | nil => exact Or.inl rfl
  | cons u us ih =>
    by_cases hu : u.kind = .endOfInput
    · rw [beforeEnd_cons_of_end hu]
      exact Or.inr ⟨u, us, hu, rfl⟩
    · rw [beforeEnd_cons_of_ne hu]
      rcases ih with ih | ⟨t, vs, ht, ih⟩
      · exact Or.inl (congrArg (List.cons u) ih)
      · exact Or.inr ⟨t, vs, ht, congrArg (List.cons u) ih⟩

/-- What stands behind an end of input is not among the tokens before the first one. -/
theorem beforeEnd_append_end (ht : t.kind = .endOfInput) (ts us : List Token) :
    beforeEnd (ts ++ t :: us) = beforeEnd (ts ++ [t]) := by
  induction ts with
  | nil => rw [List.nil_append, List.nil_append, beforeEnd_cons_of_end ht, beforeEnd_cons_of_end ht]
  | cons u ts ih =>
    by_cases hu : u.kind = .endOfInput
    · rw [List.cons_append, List.cons_append, beforeEnd_cons_of_end hu, beforeEnd_cons_of_end hu]
    · rw [List.cons_append, List.cons_append, beforeEnd_cons_of_ne hu, beforeEnd_cons_of_ne hu, ih]

theorem find?_end_eq_none (hw : ∀ t ∈ w, t.kind ≠ .endOfInput) :
    w.find? (·.kind == .endOfInput) = none := by
  simpa using hw

/-- The input ends at an end of input, unless one comes before it. -/
theorem endSpan_append_end (ht : t.kind = .endOfInput) (ts us : List Token) :
    endSpan (ts ++ t :: us) = ((ts.find? (·.kind == .endOfInput)).getD t).span := by
  have hfirst : (t :: us).find? (·.kind == .endOfInput) = some t :=
    List.find?_cons_of_pos (beq_iff_eq.mpr ht)
  rw [endSpan, List.find?_append, hfirst]
  cases ts.find? (·.kind == .endOfInput) with
  | none => rfl
  | some u => rfl

theorem endSpan_append (hw : ∀ t ∈ w, t.kind ≠ .endOfInput) (ht : t.kind = .endOfInput)
    (us : List Token) : endSpan (w ++ t :: us) = t.span := by
  rw [endSpan_append_end ht, find?_end_eq_none hw]
  rfl

/-- If none is there, the input ends just behind the last token. -/
theorem endSpan_of_getLast? (hw : ∀ t ∈ w, t.kind ≠ .endOfInput) (hlast : w.getLast? = some t) :
    endSpan w = t.span.next := by
  rw [endSpan, find?_end_eq_none hw, hlast]
  rfl

/-- An end of input comes first behind the tokens before it, and says where the input ends. -/
theorem exists_withEnd_eq (ts : List Token) :
    ∃ t us, withEnd ts = beforeEnd ts ++ t :: us ∧ t.kind = .endOfInput ∧ t.span = endSpan ts := by
  have hw : ∀ t ∈ beforeEnd ts, t.kind ≠ .endOfInput := fun t => kind_ne_of_mem_beforeEnd
  rcases eq_beforeEnd_or ts with hts | ⟨t, us, ht, hts⟩
  · have hne : ∀ t ∈ ts, t.kind ≠ .endOfInput := by rwa [← hts] at hw
    rw [← hts, withEnd, endSpan, find?_end_eq_none hne]
    cases hlast : ts.getLast? with
    | none =>
      rw [List.getLast?_eq_none_iff] at hlast
      subst hlast
      exact ⟨_, [], rfl, rfl, rfl⟩
    | some u =>
      have hu := hne u (List.mem_of_getLast? hlast)
      exact ⟨.endOfInput u.span.next, [], by simp [hu], rfl, rfl⟩
  · have hspan : endSpan ts = t.span := by
      rw [hts]
      exact endSpan_append hw ht us
    -- What is supplied behind this end of input is never looked at.
    have htail : ∃ vs, withEnd ts = ts ++ vs := by
      unfold withEnd
      split
      · next hlast =>
        rw [List.getLast?_eq_none_iff] at hlast
        exact ⟨_, by rw [hlast, List.nil_append]⟩
      · next u hlast =>
        split
        · exact ⟨[], (List.append_nil ts).symm⟩
        · exact ⟨_, rfl⟩
    obtain ⟨vs, hvs⟩ := htail
    refine ⟨t, us ++ vs, ?_, ht, hspan.symm⟩
    rw [hvs]
    conv_lhs => rw [hts]
    rw [List.append_assoc, List.cons_append]

end Token

/-- The error with a fault at a token. -/
def SyntaxError.at (fault : SyntaxFault) (t : Token) : SyntaxError :=
  ⟨fault, if t.kind = .endOfInput then none else some t, t.span.line, t.span.colStart⟩

namespace Program

open Grammar Jam.Parser

variable {ts w : List Token} {t : Token} {fault : SyntaxFault}

/-- Tokens that can be completed to what a tree is written as begin a program. -/
theorem exists_ofTokens_append {p : Program} {us : List Token}
    (h : Written Program.WellFormed Program.unparse p (w ++ us)) : ofTokens (w ++ us) = .ok p := by
  obtain ⟨hp, hfits⟩ := h
  have hword := hfits.isWord (Program.keepsWords hp)
  rw [← Token.beforeEnd_eq_self fun t ht => (hword t ht).2.1] at hfits
  exact ofTokens_eq_ok_iff.mpr ⟨hp, hfits⟩

/-- The parser looks no further than at the token at fault. -/
theorem ofTokens_append_cons (hw : ∀ u ∈ w, u.kind ≠ .endOfInput)
    (hlocal : ∀ us, us.head? = [t].head? → program (w ++ us) = .error ⟨fault, us⟩)
    (ht : t.kind ≠ .endOfInput) (us : List Token) :
    ofTokens (w ++ t :: us) = .error (.at fault t) := by
  have hprogram := hlocal (t :: Token.beforeEnd us) rfl
  rw [ofTokens, Token.beforeEnd_append hw, Token.beforeEnd_cons_of_ne ht, hprogram]
  simp [Failure.error, SyntaxError.at, ht]

theorem ofTokens_append_end (hw : ∀ u ∈ w, u.kind ≠ .endOfInput)
    (hend : program w = .error ⟨fault, []⟩) (ht : t.kind = .endOfInput) (us : List Token) :
    ofTokens (w ++ t :: us) = .error (.at fault t) := by
  rw [ofTokens, Token.beforeEnd_append hw, Token.beforeEnd_cons_of_end ht, List.append_nil, hend,
    Token.endSpan_append hw ht]
  simp [Failure.error, SyntaxError.at, ht]

/-- The token at fault stands behind the tokens read so far. It may be the end of input. -/
theorem exists_fault {rest : List Token} (hw : Token.beforeEnd ts = w ++ rest)
    (hlocal : ∀ us, us.head? = rest.head? → program (w ++ us) = .error ⟨fault, us⟩) :
    ∃ t us, Token.withEnd ts = w ++ t :: us ∧
      Failure.error ⟨fault, rest⟩ (Token.endSpan ts) = .at fault t ∧
      ∀ us, ofTokens (w ++ t :: us) = .error (.at fault t) := by
  obtain ⟨eof, us, hend, heof, hspan⟩ := Token.exists_withEnd_eq ts
  have hne : ∀ u ∈ w ++ rest, u.kind ≠ .endOfInput := by
    rw [← hw]
    exact fun u => Token.kind_ne_of_mem_beforeEnd
  rw [List.forall_mem_append] at hne
  rw [hw] at hend
  cases rest with
  | nil =>
    rw [List.append_nil] at hend
    have hprogram := hlocal [] rfl
    rw [List.append_nil] at hprogram
    refine ⟨eof, us, hend, ?_, ofTokens_append_end hne.1 hprogram heof⟩
    simp [Failure.error, SyntaxError.at, heof, hspan]
  | cons t rest =>
    have ht := hne.2 t List.mem_cons_self
    rw [List.append_assoc, List.cons_append] at hend
    refine ⟨t, rest ++ eof :: us, hend, ?_, ofTokens_append_cons hne.1 hlocal ht⟩
    simp [Failure.error, SyntaxError.at, ht]

/-- A syntax error names the first token at which the input stops being the beginning of a
program. The tokens before it can be completed to a program. With it, whatever follows, the error
stays the same. -/
theorem viable_of_ofTokens_error {e : SyntaxError} (h : ofTokens ts = .error e) :
    ∃ k t, (Token.withEnd ts)[k]? = some t ∧ e = .at e.fault t ∧
      (∃ us p, ofTokens ((Token.withEnd ts).take k ++ us) = .ok p) ∧
      ∀ us, ofTokens ((Token.withEnd ts).take (k + 1) ++ us) = .error e := by
  unfold ofTokens at h
  split at h
  · cases h
  · next failure hprogram =>
    obtain ⟨fault, rest⟩ := failure
    -- The word before the fault can be completed, and the fault depends on the next token only.
    obtain ⟨w, hw, ⟨p, us, hviable⟩, hlocal⟩ := reads_program.error _ _ hprogram
    obtain ⟨t, vs, hend, herror, hstays⟩ := exists_fault hw hlocal
    obtain rfl : SyntaxError.at fault t = e := herror ▸ Except.error.inj h
    rw [hend]
    refine ⟨w.length, t, by simp, rfl, ⟨us, p, ?_⟩, ?_⟩
    · rw [List.take_left]
      exact exists_ofTokens_append hviable
    · intro us
      have htake : (w ++ t :: vs).take (w.length + 1) = w ++ [t] := by
        rw [List.take_length_add_append, List.take_succ_cons, List.take_zero]
      rw [htake, List.append_assoc]
      exact hstays us

theorem viable_of_ofTokens_error_declaration :
    let ts : List Token := [⟨.keyword (.scalar .int), "int", none, ⟨1, 1, 3⟩⟩,
      ⟨.name, "x", none, ⟨1, 5, 5⟩⟩]
    let e : SyntaxError := ⟨.declarationEnd, none, 1, 6⟩
    ofTokens ts = .error e ∧
      ∃ k t, (Token.withEnd ts)[k]? = some t ∧ e = .at e.fault t ∧
        (∃ us p, ofTokens ((Token.withEnd ts).take k ++ us) = .ok p) ∧
        ∀ us, ofTokens ((Token.withEnd ts).take (k + 1) ++ us) = .error e := by
  intro ts e
  have h : ofTokens ts = .error e := rfl
  exact ⟨h, viable_of_ofTokens_error h⟩

end Program
end Jam
