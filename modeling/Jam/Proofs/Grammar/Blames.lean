import Jam.Proofs.Grammar.First
import Jam.Proofs.Grammar.Lookahead

/-!
With which failures a parser can end, given how its input begins. A rule that is entered only by
certain kinds of tokens has a fault for the case that it begins with another one; started as it is
entered, it never ends with this fault. What the choice of a rule tells of the next token is handed
on to the rule.
-/
namespace Jam.Parser

variable {α β : Type} {S T : List Token → Prop} {A B : Failure → Prop} {k : KindClass}

/-- Started on tokens of some sort, a parser ends with failures of some sort only. -/
def Blames (S : List Token → Prop) (p : Parser α) (A : Failure → Prop) : Prop :=
  ∀ ts, S ts → ∀ f, p ts = .error f → A f

/-- No matter how the input begins. -/
abbrev Anywhere : List Token → Prop := fun _ => True

namespace Blames

variable {p q item : Parser α} {fault : SyntaxFault}

theorem mono (h : Blames S p A) (hA : ∀ f, A f → B f) : Blames S p B :=
  fun ts hts f e => hA f (h ts hts f e)

theorem restrict (h : Blames S p A) (hS : ∀ ts, T ts → S ts) : Blames T p A :=
  fun ts hts => h ts (hS ts hts)

theorem of_anywhere (h : Blames Anywhere p A) : Blames S p A := h.restrict fun _ _ => trivial

theorem pure (a : α) : Blames S (Pure.pure a) A := by
  intro ts _ f e
  cases e

theorem fail (h : ∀ ts, S ts → A ⟨fault, ts⟩) : Blames S (fail fault : Parser α) A := by
  intro ts hts f e
  cases e
  exact h ts hts

theorem failAt {t : Token} (h : ∀ ts, A ⟨fault, t :: ts⟩) :
    Blames S (failAt t fault : Parser α) A := by
  intro ts _ f e
  cases e
  exact h ts

/-- Behind the first step of a sequence any token may come. -/
theorem bind {g : α → Parser β} (hp : Blames S p A) (hg : ∀ a, Blames Anywhere (g a) A) :
    Blames S (p >>= g) A := by
  intro ts hts f e
  rw [bind_apply] at e
  cases hfirst : p ts with
  | ok result =>
    rw [hfirst] at e
    exact hg result.1 result.2 trivial f e
  | error failure =>
    rw [hfirst] at e
    cases e
    exact hp ts hts f hfirst

/-- The last step of a sequence only makes a result of what was read. -/
theorem bind_pure (g : α → β) (hp : Blames S p A) :
    Blames S (p >>= fun a => Pure.pure (g a)) A :=
  hp.bind fun a => pure (g a)

/-- What is chosen by the next token is started on such a token, and what is not chosen leaves an
input that does not begin with one. -/
theorem nextIn_bind (hp : Blames (StartsIn k) p A)
    (hq : Blames (fun ts => S ts ∧ Clear k ts) q A) :
    Blames S (nextIn k >>= fun b => if b then p else q) A := by
  intro ts hts f e
  cases ts with
  | nil => exact hq [] ⟨hts, clear_nil k⟩ f e
  | cons t us =>
    rw [nextIn_bind_cons] at e
    cases hk : k t.kind with
    | true =>
      rw [hk] at e
      exact hp (t :: us) (startsIn_cons.mpr hk) f e
    | false =>
      rw [hk] at e
      exact hq (t :: us) ⟨hts, clear_cons.mpr hk⟩ f e

theorem take_bind {g : Option Token → Parser β}
    (hs : ∀ t, k t.kind = true → Blames Anywhere (g (some t)) A) (hn : Blames S (g none) A) :
    Blames S (take? k >>= g) A := by
  intro ts hts f e
  cases ts with
  | nil => exact hn [] hts f e
  | cons t us =>
    cases hk : k t.kind with
    | true =>
      rw [take_bind_cons g hk] at e
      exact hs t hk us trivial f e
    | false =>
      rw [take_bind_of_clear g (clear_cons.mpr hk)] at e
      exact hn (t :: us) hts f e

theorem expect (h : ∀ ts, S ts → A ⟨fault, ts⟩) : Blames S (expect k fault) A :=
  take_bind (fun t _ => pure t) (fail h)

/-- A token that is known to come next is not missed. -/
theorem expect_of_startsIn : Blames (StartsIn k) (Parser.expect k fault) A := by
  rintro _ ⟨t, us, rfl, hk⟩ f e
  rw [Parser.expect, take_bind_cons _ hk] at e
  cases e

theorem ifNext (h : Blames (StartsIn k) item A) : Blames S (ifNext k item) A :=
  nextIn_bind (h.bind_pure some) (pure none)

theorem led (h : Blames Anywhere item A) : Blames S (led k item) A :=
  take_bind (fun _ _ => h.bind_pure some) (pure none)

theorem manyWithin {item? : Parser (Option α)} (h : Blames Anywhere item? A)
    (rounds : List Token) : Blames Anywhere (manyWithin item? rounds) A := by
  induction rounds with
  | nil => exact pure []
  | cons _ rounds ih =>
    apply h.bind
    intro a?
    cases a? with
    | some a => exact ih.bind_pure (a :: ·)
    | none => exact pure []

theorem many {item? : Parser (Option α)} (h : Blames Anywhere item? A) :
    Blames Anywhere (many item?) A :=
  fun ts => h.manyWithin ts ts

theorem oneOrMore (h : Blames Anywhere item A) : Blames Anywhere (oneOrMore k item) A :=
  h.bind fun a => (ifNext h.of_anywhere).many.bind_pure (a :: ·)

theorem commaSeparated (h : Blames Anywhere item A) : Blames Anywhere (commaSeparated item) A :=
  h.bind fun a => h.led.many.bind_pure (a :: ·)

theorem listUntil {close : Symbol} (h : Blames Anywhere item A) :
    Blames Anywhere (listUntil close item) A :=
  nextIn_bind (pure []) h.commaSeparated.of_anywhere

/-- A rule in terms of itself ends with failures of some sort if it does so whenever its parts do.
It depends on its parts for shorter inputs only. -/
theorem of_rule {rule : Parser α → Parser α} (hfix : p = rule p)
    (hagree : ∀ n nested, AgreeBelow n p nested → AgreeBelow (n + 1) (rule p) (rule nested))
    (hrule : ∀ nested, Blames S nested A → Blames S (rule nested) A) (h : ∀ ts, A ⟨fault, ts⟩) :
    Blames S p A := by
  have hbelow : ∀ n, Blames (fun ts => S ts ∧ ts.length < n) p A := by
    intro n
    induction n with
    | zero => exact fun ts hts => absurd hts.2 (Nat.not_lt_zero _)
    | succ n ih =>
      -- For the parts it is enough to do what the rule does to inputs below the bound.
      let short : Parser α := fun ts => if ts.length < n then p ts else .error ⟨fault, ts⟩
      have hshort : Blames S short A := by
        intro ts hts f e
        by_cases hlt : ts.length < n
        · exact ih ts ⟨hts, hlt⟩ f (by simpa [short, hlt] using e)
        · have hf : Failure.mk fault ts = f := by simpa [short, hlt] using e
          exact hf ▸ h ts
      have hsame : AgreeBelow (n + 1) (rule p) (rule short) :=
        hagree n short fun ts hts => by simp [short, hts]
      rintro ts ⟨hts, hlt⟩ f e
      have hp : p ts = rule short ts := (congrFun hfix ts).trans (hsame ts hlt)
      exact hrule short hshort ts hts f (hp ▸ e)
  exact fun ts hts => hbelow (ts.length + 1) ts ⟨hts, Nat.lt_succ_self _⟩

end Blames
end Jam.Parser
