import Jam.Proofs.Grammar.Completeness.Statement
import Jam.Proofs.Grammar.Soundness.Statement

/-!
The sequences of tokens that are programs. A sequence is read as a tree exactly when the tree is
well-formed and the tokens before the end of input fit what the tree is written as. Hence the tree
loses nothing, repeats nothing and keeps the order.
-/
namespace Jam

open Grammar Jam.Parser

/-- Items are read until no token is left. -/
theorem Parser.rest_eq_nil_of_manyWithin {α : Type} {item : Parser α} (h : Shrinks item)
    {rounds ts rest : List Token} {as : List α} (hts : ts.length ≤ rounds.length)
    (hmany : manyWithin (ifNext (fun _ => true) item) rounds ts = .ok (as, rest)) : rest = [] := by
  induction rounds generalizing ts as with
  | nil =>
    obtain rfl := List.length_eq_zero_iff.mp (Nat.le_zero.mp hts)
    cases hmany
    rfl
  | cons _ rounds ih =>
    obtain ⟨a?, mid, hitem, hrest⟩ := exists_of_bind hmany
    cases ts with
    | nil =>
      cases hitem
      cases hrest
      rfl
    | cons t ts =>
      have hitem' : (item >>= fun a => pure (some a)) (t :: ts) = .ok (a?, mid) := hitem
      obtain ⟨a, mid', hfirst, hsome⟩ := exists_of_bind hitem'
      cases hsome
      -- The item takes a token, so the rounds that are left are enough for the tokens that are.
      have hlt := h _ a mid hfirst
      obtain ⟨as', rest', hothers, hend⟩ := exists_of_bind hrest
      cases hend
      refine ih ?_ hothers
      simp only [List.length_cons] at hts hlt
      omega

theorem Grammar.rest_eq_nil_of_program {ts rest : List Token} {p : Program}
    (h : program ts = .ok (p, rest)) : rest = [] := by
  obtain ⟨items, mid, hitems, hend⟩ := exists_of_bind h
  cases hend
  exact rest_eq_nil_of_manyWithin shrinks_item (Nat.le_refl _) hitems

namespace Program

/-- A sequence of tokens is a program exactly when a well-formed tree is written so, and the tree
is the one that is read. -/
theorem ofTokens_eq_ok_iff {ts : List Token} {p : Program} :
    ofTokens ts = .ok p ↔ p.WellFormed ∧ Fits p.unparse (Token.beforeEnd ts) := by
  constructor
  · intro h
    unfold ofTokens at h
    split at h
    · next q rest hprogram =>
      cases h
      obtain rfl := rest_eq_nil_of_program hprogram
      obtain ⟨w, hw, hfits, -⟩ := reads_program.ok _ _ _ hprogram
      rw [List.append_nil] at hw
      rw [hw]
      exact hfits
    · cases h
  · intro h
    obtain ⟨hp, hfits⟩ := h
    have h := takes_program hp _ [] hfits (clear_nil _)
    rw [List.append_nil] at h
    rw [ofTokens, h]

/-- No tokens fit two well-formed programs. -/
theorem eq_of_fits {p q : Program} {w : List Token} (hp : p.WellFormed) (hq : q.WellFormed)
    (hpfits : Fits p.unparse w) (hqfits : Fits q.unparse w) : p = q := by
  have hleft := takes_program hp w [] hpfits (clear_nil _)
  have hright := takes_program hq w [] hqfits (clear_nil _)
  rw [hleft] at hright
  cases hright
  rfl

/-- Different well-formed programs are written differently. -/
theorem unparse_injective {p q : Program} (hp : p.WellFormed) (hq : q.WellFormed)
    (h : p.unparse = q.unparse) : p = q := by
  obtain ⟨w, hw⟩ := Fits.exists_fits p.unparse
  exact eq_of_fits hp hq hw (h ▸ hw)

/-- The tree of a program loses, repeats and reorders nothing. What it is written as has the kinds
of the tokens before the end of input, place by place, and each token that the tree keeps is the
one at its place. -/
theorem unparse_of_ofTokens {ts : List Token} {p : Program} (h : ofTokens ts = .ok p) :
    p.unparse.length = (Token.beforeEnd ts).length ∧
      p.unparse.map Slot.kind = (Token.beforeEnd ts).map (·.kind) ∧
      ∀ (i : Nat) (t : Token), p.unparse[i]? = some (.kept t) →
        (Token.beforeEnd ts)[i]? = some t := by
  have hfits := (ofTokens_eq_ok_iff.mp h).2
  exact ⟨List.Forall₂.length_eq hfits, hfits.kinds_eq, fun _ _ => hfits.getElem?_of_kept⟩

theorem unparse_of_ofTokens_declaration :
    let int : Token := ⟨.keyword (.scalar .int), "int", none, ⟨1, 1, 3⟩⟩
    let x : Token := ⟨.name, "x", none, ⟨1, 5, 5⟩⟩
    let ts : List Token :=
      [int, x, ⟨.symbol .semicolon, ";", none, ⟨1, 6, 6⟩⟩, .endOfInput (.point 1 7)]
    let p : Program := ⟨[.declare ⟨⟨.scalar .int, some int, 0⟩, [], [x], none⟩]⟩
    ofTokens ts = .ok p ∧ p.unparse.length = (Token.beforeEnd ts).length ∧
      p.unparse.map Slot.kind = (Token.beforeEnd ts).map (·.kind) ∧
      ∀ (i : Nat) (t : Token), p.unparse[i]? = some (.kept t) →
        (Token.beforeEnd ts)[i]? = some t := by
  intro int x ts p
  have h : ofTokens ts = .ok p := rfl
  exact ⟨h, unparse_of_ofTokens h⟩

end Program
end Jam
