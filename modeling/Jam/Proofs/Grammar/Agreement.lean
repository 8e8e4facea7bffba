import Jam.Proofs.Grammar.Mirrors
import Jam.Proofs.Grammar.Viable

/-!
Two runs of the parser on tokens that agree in their kinds and literals. Whatever the tokens are
spelled as and wherever they stand, both sequences are programs, with trees of the same shape that
keep the tokens of the same places, or both have the same fault at the same place.
-/
namespace Jam

namespace Token

/-- The same to the parser: of the same kind and with the same literal. -/
def Agrees (t u : Token) : Prop := t.kind = u.kind ∧ t.literal = u.literal

/-- What the parser sees of a token. -/
def bare (t : Token) : Token := { t with lexeme := "", span := .origin }

theorem Agrees.bare_eq {t u : Token} (h : t.Agrees u) : t.bare = u.bare := by
  rw [bare, bare, h.1, h.2]

variable {ts us : List Token}

theorem map_bare_of_agrees (h : List.Forall₂ Agrees ts us) : ts.map bare = us.map bare := by
  induction h with
  | nil => rfl
  | cons ht _ ih => rw [List.map_cons, List.map_cons, ht.bare_eq, ih]

/-- An end of input can be told by what the parser sees. -/
theorem beforeEnd_map_bare (ts : List Token) : beforeEnd (ts.map bare) = (beforeEnd ts).map bare :=
  List.takeWhile_map

theorem map_bare_beforeEnd (h : List.Forall₂ Agrees ts us) :
    (beforeEnd ts).map bare = (beforeEnd us).map bare := by
  rw [← beforeEnd_map_bare, ← beforeEnd_map_bare, map_bare_of_agrees h]

end Token

/-- The place with another token, if a token is kept there. -/
def Slot.holding : Slot → Token → Slot
  | kept _, u => kept u
  | s, _ => s

/-- Two rows of one shape: the tokens of the second are put in the kept places of the first. -/
theorem Fits.zipWith_holding {row row' : List Slot} {us : List Token} (h : Fits row' us)
    (hshape : row'.map (Slot.relabel Token.bare) = row.map (Slot.relabel Token.bare))
    (vs : List Token) : row' = List.zipWith Slot.holding row (us ++ vs) := by
  induction h generalizing row with
  | nil =>
    obtain rfl : row = [] := List.map_eq_nil_iff.mp hshape.symm
    rfl
  | @cons s' u row' us hs _ ih =>
    cases row with
    | nil => cases hshape
    | cons s row =>
      rw [List.map_cons, List.map_cons, List.cons.injEq] at hshape
      rw [List.cons_append, List.zipWith_cons_cons, ← ih hshape.2]
      congr 1
      have hhead := hshape.1
      cases s with
      | kept t =>
        cases s' with
        | kept t' => exact congrArg Slot.kept (Eq.symm hs)
        | symbol _ => cases hhead
        | keyword _ => cases hhead
      | symbol _ =>
        cases s' with
        | kept _ => cases hhead
        | symbol _ => exact hhead
        | keyword _ => cases hhead
      | keyword _ =>
        cases s' with
        | kept _ => cases hhead
        | symbol _ => cases hhead
        | keyword _ => exact hhead

namespace Program

open Grammar Jam.Parser

/-- The second tree is the first with each token that it keeps, which is that of its place in the
first sequence, replaced by the token at that place of the second sequence. -/
structure Replaces (ts us : List Token) (p q : Program) : Prop where
  shape : q.relabel Token.bare = p.relabel Token.bare
  stored : ∀ (i : Nat) (t : Token), p.unparse[i]? = some (.kept t) → ts[i]? = some t
  replaced : q.unparse = List.zipWith Slot.holding p.unparse us

variable {ts us rest : List Token} {p q : Program} {fault : SyntaxFault}

/-- There is only one such tree that is well-formed. -/
theorem Replaces.unique {q' : Program} (h : Replaces ts us p q) (h' : Replaces ts us p q')
    (hq : q.WellFormed) (hq' : q'.WellFormed) : q = q' :=
  unparse_injective hq hq' (h.replaced.trans h'.replaced.symm)

theorem replaces_of_ofTokens (hp : ofTokens ts = .ok p) (hq : ofTokens us = .ok q)
    (hshape : q.relabel Token.bare = p.relabel Token.bare) : Replaces ts us p q := by
  have hpfits := (ofTokens_eq_ok_iff.mp hp).2
  have hqfits := (ofTokens_eq_ok_iff.mp hq).2
  have hrows : q.unparse.map (Slot.relabel Token.bare) =
      p.unparse.map (Slot.relabel Token.bare) := by
    rw [← unparse_relabel, ← unparse_relabel, hshape]
  refine ⟨hshape, ?_, ?_⟩
  · intro i t ht
    obtain ⟨vs, hvs⟩ : Token.beforeEnd ts <+: ts := List.takeWhile_prefix _
    have hi := hpfits.getElem?_of_kept ht
    rw [← hvs, List.getElem?_append_left (List.getElem?_eq_some_iff.mp hi).1, hi]
  · obtain ⟨vs, hvs⟩ : Token.beforeEnd us <+: us := List.takeWhile_prefix _
    have h := hqfits.zipWith_holding hrows vs
    rwa [hvs] at h

/-- The parser has read the first `k` tokens and reports a fault at the next one. -/
structure FaultsAt (ts : List Token) (fault : SyntaxFault) (k : Nat) (t : Token) : Prop where
  token : (Token.withEnd ts)[k]? = some t
  left : program (Token.beforeEnd ts) = .error ⟨fault, (Token.beforeEnd ts).drop k⟩
  error : ofTokens ts = .error (.at fault t)

theorem exists_faultsAt (h : program (Token.beforeEnd ts) = .error ⟨fault, rest⟩) :
    ∃ t, FaultsAt ts fault ((Token.beforeEnd ts).length - rest.length) t := by
  obtain ⟨w, hw, -, hlocal⟩ := reads_program.error _ _ h
  obtain ⟨t, us, hend, herror, -⟩ := exists_fault hw hlocal
  have hk : (Token.beforeEnd ts).length - rest.length = w.length := by
    rw [hw, List.length_append, Nat.add_sub_cancel]
  rw [hk]
  refine ⟨t, ?_, ?_, ?_⟩
  · rw [hend]
    simp
  · rw [h, hw, List.drop_left]
  · rw [ofTokens, h]
    exact congrArg Except.error herror

/-- Parsing looks at kinds and literals only. Two sequences that agree in them, place by place,
have trees of the same shape with the tokens of the same places in them, or the same fault at the
same place, which may be the end of input. -/
theorem ofTokens_of_agrees (h : List.Forall₂ Token.Agrees ts us) :
    (∃ p q, ofTokens ts = .ok p ∧ ofTokens us = .ok q ∧ Replaces ts us p q) ∨
      ∃ fault k t u, FaultsAt ts fault k t ∧ FaultsAt us fault k u := by
  have hsame : ∀ t : Token, t.bare.kind = t.kind ∧ t.bare.literal = t.literal :=
    fun _ => ⟨rfl, rfl⟩
  have hbare := Token.map_bare_beforeEnd h
  -- On what it sees of them, the parser does the same for both sequences.
  have hruns := mirrors_program hsame (Token.beforeEnd ts)
  rw [hbare, mirrors_program hsame (Token.beforeEnd us)] at hruns
  cases hts : program (Token.beforeEnd ts) with
  | ok result =>
    obtain ⟨p, restp⟩ := result
    cases hus : program (Token.beforeEnd us) with
    | error failure =>
      rw [hts, hus] at hruns
      cases hruns
    | ok result =>
      obtain ⟨q, restq⟩ := result
      rw [hts, hus] at hruns
      have hshape := congrArg Prod.fst (Except.ok.inj hruns)
      have hp : ofTokens ts = .ok p := by rw [ofTokens, hts]
      have hq : ofTokens us = .ok q := by rw [ofTokens, hus]
      exact Or.inl ⟨p, q, hp, hq, replaces_of_ofTokens hp hq hshape⟩
  | error failure =>
    obtain ⟨fault, restp⟩ := failure
    cases hus : program (Token.beforeEnd us) with
    | ok result =>
      rw [hts, hus] at hruns
      cases hruns
    | error failure =>
      obtain ⟨fault', restq⟩ := failure
      rw [hts, hus] at hruns
      have hfailure := Except.error.inj hruns
      obtain rfl : fault' = fault := congrArg Failure.fault hfailure
      have hrest : restq.length = restp.length := by
        have hrests : restq.map Token.bare = restp.map Token.bare :=
          congrArg Failure.rest hfailure
        simpa using congrArg List.length hrests
      have hlength : (Token.beforeEnd us).length = (Token.beforeEnd ts).length := by
        simpa using (congrArg List.length hbare).symm
      obtain ⟨t, ht⟩ := exists_faultsAt hts
      obtain ⟨u, hu⟩ := exists_faultsAt hus
      rw [hrest, hlength] at hu
      exact Or.inr ⟨fault', _, t, u, ht, hu⟩

theorem ofTokens_of_agrees_declaration :
    let ts : List Token := [⟨.keyword (.scalar .int), "int", none, ⟨1, 1, 3⟩⟩,
      ⟨.name, "x", none, ⟨1, 5, 5⟩⟩, ⟨.symbol .semicolon, ";", none, ⟨1, 6, 6⟩⟩]
    let us : List Token := [⟨.keyword (.scalar .int), "", none, .origin⟩,
      ⟨.name, "other", none, ⟨7, 2, 6⟩⟩, ⟨.symbol .semicolon, "?", none, ⟨3, 1, 1⟩⟩]
    List.Forall₂ Token.Agrees ts us ∧
      ((∃ p q, ofTokens ts = .ok p ∧ ofTokens us = .ok q ∧ Replaces ts us p q) ∨
        ∃ fault k t u, FaultsAt ts fault k t ∧ FaultsAt us fault k u) := by
  intro ts us
  have h : List.Forall₂ Token.Agrees ts us :=
    .cons ⟨rfl, rfl⟩ (.cons ⟨rfl, rfl⟩ (.cons ⟨rfl, rfl⟩ .nil))
  exact ⟨h, ofTokens_of_agrees h⟩

end Program
end Jam
