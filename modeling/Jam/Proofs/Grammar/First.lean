import Jam.Grammar.Program
import Jam.Proofs.Tree.Unparse
import Jam.Proofs.Tree.WellFormed

/-!
The first token of a well-formed tree. The grammar chooses between its rules by this token alone,
so the kinds with which the rules can begin have to tell them apart.
-/
namespace Jam

open Grammar

/-- A sequence begins with a token of a class. -/
def StartsIn (k : KindClass) (w : List Token) : Prop := ∃ t u, w = t :: u ∧ k t.kind = true

theorem StartsIn.mono {k l : KindClass} {w : List Token} (h : StartsIn k w)
    (hkl : ∀ kind, k kind = true → l kind = true) : StartsIn l w := by
  obtain ⟨t, u, hw, ht⟩ := h
  exact ⟨t, u, hw, hkl _ ht⟩

theorem StartsIn.append {k : KindClass} {w : List Token} (h : StartsIn k w) (v : List Token) :
    StartsIn k (w ++ v) := by
  obtain ⟨t, u, rfl, ht⟩ := h
  exact ⟨t, u ++ v, rfl, ht⟩

theorem startsIn_cons {k : KindClass} {t : Token} {w : List Token} :
    StartsIn k (t :: w) ↔ k t.kind = true := by
  constructor
  · rintro ⟨_, _, h, ht⟩
    cases h
    exact ht
  · exact fun ht => ⟨t, w, rfl, ht⟩

theorem not_startsIn_nil (k : KindClass) : ¬ StartsIn k [] := by
  intro hstarts
  obtain ⟨t, u, h, -⟩ := hstarts
  cases h

theorem Fits.startsIn {s : Slot} {row : List Slot} {w : List Token} {k : KindClass}
    (h : Fits (s :: row) w) (hk : k s.kind = true) : StartsIn k w := by
  obtain ⟨t, u, rfl, ht, -⟩ := Fits.cons_iff.mp h
  exact ⟨t, u, rfl, ht.kind_eq ▸ hk⟩

theorem Fits.startsIn_append {row others : List Slot} {w : List Token} {k : KindClass}
    (h : Fits (row ++ others) w) (hrow : ∀ u, Fits row u → StartsIn k u) : StartsIn k w := by
  obtain ⟨u, v, rfl, hu, -⟩ := Fits.append_iff.mp h
  exact (hrow u hu).append v

/-- Calls are written with their keyword, and all other expressions begin as operations do. -/
def Expr.IsCall : Expr → Prop
  | .call .. => True
  | _ => False

instance : DecidablePred Expr.IsCall := fun e => by
  cases e <;> unfold Expr.IsCall <;> infer_instance

theorem Expr.startsIn_of_isCall {e : Expr} {w : List Token} (hc : e.IsCall) (he : e.WellFormed)
    (hw : Fits e.unparse w) : StartsIn (.keyword .call) w := by
  cases e with
  | call word callee args =>
    rw [Expr.unparse_call] at hw
    exact hw.startsIn (beq_iff_eq.mpr he.1)
  | _ => exact hc.elim

theorem Expr.startsIn_of_isOperand {e : Expr} {w : List Token} (ho : e.IsOperand)
    (he : e.WellFormed) (hw : Fits e.unparse w) : StartsIn operationStarts w := by
  cases e with
  | literal t value => exact hw.startsIn (by rw [Slot.kind, he.1]; rfl)
  | name t => exact hw.startsIn (by rw [Slot.kind, show t.kind = .name from he]; rfl)
  | element t indices => exact hw.startsIn (by rw [Slot.kind, he.1]; rfl)
  | group inner => exact hw.startsIn rfl
  | call word callee args => exact ho.elim
  | binary left op right => exact ho.elim

theorem Expr.startsIn_of_not_isCall {e : Expr} {w : List Token} (hc : ¬ e.IsCall)
    (he : e.WellFormed) (hw : Fits e.unparse w) : StartsIn operationStarts w := by
  cases e with
  | call word callee args => exact absurd trivial hc
  | binary left op right =>
    obtain ⟨-, ⟨hleft, hleft'⟩, -⟩ := he
    exact hw.startsIn_append fun u hu => Expr.startsIn_of_isOperand hleft hleft' hu
  | _ => exact Expr.startsIn_of_isOperand (by trivial) he hw

/-- The kinds with which an expression can begin. -/
def expressionStarts : KindClass := fun k => operationStarts k || KindClass.keyword .call k

theorem Expr.startsIn {e : Expr} {w : List Token} (he : e.WellFormed) (hw : Fits e.unparse w) :
    StartsIn expressionStarts w := by
  by_cases hc : e.IsCall
  · exact (Expr.startsIn_of_isCall hc he hw).mono fun k hk => by simp [expressionStarts, hk]
  · exact (Expr.startsIn_of_not_isCall hc he hw).mono fun k hk => by simp [expressionStarts, hk]

/-- A type of values is written with the word for its kind, after `array` if it has dimensions. -/
theorem TypeRef.startsIn {t : TypeRef} {row : List Slot} {w : List Token} (ht : t.IsOfValue)
    (hw : Fits (Slot.arrayWord t.rank ++ t.word.toList.map .kept ++ row) w) :
    StartsIn typeWords w := by
  obtain ⟨s, word, -, hword, hs⟩ := ht
  rw [hword] at hw
  cases hrank : t.rank with
  | zero =>
    rw [hrank] at hw
    exact hw.startsIn (by rw [Slot.kind, hs]; rfl)
  | succ n =>
    rw [hrank] at hw
    exact hw.startsIn rfl

theorem Decl.startsIn {d : Decl} {w : List Token} (hd : d.WellFormed) (hw : Fits d.unparse w) :
    StartsIn typeWords w := by
  unfold Decl.unparse at hw
  simp only [List.append_assoc] at hw
  rw [← List.append_assoc] at hw
  exact TypeRef.startsIn hd.type hw

/-- The kinds with which a statement of this sort can begin. -/
def Stmt.starts : Stmt → KindClass
  | .declare _ => typeWords
  | .ret _ => .keyword .return_
  | .assign a => if a.value.IsCall then .keyword .call else operationStarts
  | .call _ => .keyword .call
  | .branch .. => .keyword .if_
  | .rangeLoop .. => .keyword .for_
  | .stepLoop .. => .keyword .for_
  | .whileLoop .. => .keyword .while_

theorem Stmt.startsIn {s : Stmt} {w : List Token} (hs : s.WellFormed) (hw : Fits s.unparse w) :
    StartsIn s.starts w := by
  cases s with
  | declare d => exact Decl.startsIn hs hw
  | assign a =>
    refine hw.startsIn_append fun u hu => hu.startsIn_append fun v hv => ?_
    rw [Stmt.starts]
    by_cases hc : a.value.IsCall
    · rw [if_pos hc]
      exact Expr.startsIn_of_isCall hc hs.value hv
    · rw [if_neg hc]
      exact Expr.startsIn_of_not_isCall hc hs.value hv
  | call c =>
    exact hw.startsIn_append fun u hu => Expr.startsIn_of_isCall (by trivial) hs hu
  | _ => exact hw.startsIn (by rfl)

theorem eq_of_operationStarts {k : TokenKind} (h : operationStarts k = true) :
    k = .number ∨ k = .name ∨ k = .symbol .leftParen := by
  simpa [operationStarts] using h

/-- No class of first tokens but that of declarations holds a word for a type, and `return` begins
nothing but its own statements. -/
theorem Stmt.starts_iff_isOuter {s : Stmt} {k : TokenKind} (h : s.starts k = true) :
    s.IsOuter ↔ outerStatementStarts k = true ∧ typeWords k = false := by
  cases s with
  | declare d =>
    have hk : typeWords k = true := h
    simp [Stmt.IsOuter, hk]
  | ret value =>
    obtain rfl := beq_iff_eq.mp h
    exact ⟨fun hs => hs.elim, fun hk => absurd hk.1 (by decide)⟩
  | assign a =>
    refine ⟨fun _ => ?_, fun _ => trivial⟩
    rw [Stmt.starts] at h
    split at h
    · obtain rfl := beq_iff_eq.mp h
      decide
    · rcases eq_of_operationStarts h with rfl | rfl | rfl <;> decide
  | _ =>
    -- Each of the others has a word of its own.
    obtain rfl := beq_iff_eq.mp h
    exact ⟨fun _ => by decide, fun _ => trivial⟩

theorem Stmt.statementStarts_of_starts {s : Stmt} {k : TokenKind} (h : s.starts k = true) :
    statementStarts k = true := by
  cases s with
  | declare d =>
    have hk : typeWords k = true := h
    simp [statementStarts, hk]
  | ret value =>
    obtain rfl := beq_iff_eq.mp h
    rfl
  | _ =>
    have hk := ((Stmt.starts_iff_isOuter h).mp trivial).1
    exact (Bool.and_eq_true_iff.mp hk).1

end Jam
