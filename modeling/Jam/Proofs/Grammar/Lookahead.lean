import Jam.Grammar.Equations

/-!
A parser decides by the kind of the next token. An input is clear of a class if its next token,
should there be one, does not belong to the class.
-/
namespace Jam.Parser

variable {α : Type}

def Clear (k : KindClass) (ts : List Token) : Prop := ∀ t ∈ ts.head?, k t.kind = false

theorem clear_nil (k : KindClass) : Clear k [] := by simp [Clear]

theorem clear_cons {k : KindClass} {t : Token} {ts : List Token} :
    Clear k (t :: ts) ↔ k t.kind = false := by simp [Clear]

theorem Clear.of_head?_eq {k : KindClass} {ts us : List Token} (h : Clear k ts)
    (hus : us.head? = ts.head?) : Clear k us := by
  unfold Clear at *
  rwa [hus]

theorem Clear.mono {k l : KindClass} {ts : List Token} (h : Clear l ts)
    (hkl : ∀ kind, l kind = false → k kind = false) : Clear k ts :=
  fun t ht => hkl _ (h t ht)

/-- A token of a class is not of a kind that the class lacks. -/
theorem beq_eq_false_of_lacks {k : KindClass} {other kind : TokenKind} (hother : k other = false)
    (hkind : k kind = true) : (kind == other) = false := by
  apply beq_eq_false_iff_ne.mpr
  intro heq
  subst heq
  rw [hother] at hkind
  cases hkind

theorem nextIn_bind_cons (k : KindClass) (f : Bool → Parser α) (t : Token) (ts : List Token) :
    (nextIn k >>= f) (t :: ts) = f (k t.kind) (t :: ts) := rfl

theorem nextIn_bind_of_clear {k : KindClass} (f : Bool → Parser α) {ts : List Token}
    (h : Clear k ts) : (nextIn k >>= f) ts = f false ts := by
  cases ts with
  | nil => rfl
  | cons t ts => rw [nextIn_bind_cons, clear_cons.mp h]

theorem take_bind_cons {k : KindClass} (f : Option Token → Parser α) {t : Token}
    (h : k t.kind = true) (ts : List Token) : (take? k >>= f) (t :: ts) = f (some t) ts := by
  rw [bind_apply, take?]
  simp [h]

theorem take_bind_of_clear {k : KindClass} (f : Option Token → Parser α) {ts : List Token}
    (h : Clear k ts) : (take? k >>= f) ts = f none ts := by
  rw [bind_apply]
  cases ts with
  | nil => rfl
  | cons t ts =>
    rw [take?]
    simp [clear_cons.mp h]

end Jam.Parser
