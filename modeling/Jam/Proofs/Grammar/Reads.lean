import Jam.Proofs.Grammar.Lookahead
import Jam.Proofs.Tree.Row

/-!
What a parser reads, as a relation between results and words. A parser reads a relation if every
result is related to the word that was taken for it, and every failure leaves a word that can be
completed. In both cases the parser has looked no further than at the next token: whatever stands
behind that token, it does the same.
-/
namespace Jam.Parser

variable {α β : Type}

structure Reads (p : Parser α) (P : α → List Token → Prop) : Prop where
  ok : ∀ ts a rest, p ts = .ok (a, rest) → ∃ w, ts = w ++ rest ∧ P a w ∧
    ∀ us, us.head? = rest.head? → p (w ++ us) = .ok (a, us)
  error : ∀ ts e, p ts = .error e → ∃ w, ts = w ++ e.rest ∧ (∃ a us, P a (w ++ us)) ∧
    ∀ us, us.head? = e.rest.head? → p (w ++ us) = .error ⟨e.fault, us⟩

private theorem head?_append_eq {w us rest : List Token} (h : us.head? = rest.head?) :
    (w ++ us).head? = (w ++ rest).head? := by
  rw [List.head?_append, List.head?_append, h]

namespace Reads

variable {p q : Parser α} {P Q : α → List Token → Prop} {R : β → List Token → Prop}

/-- Whatever is read has a word. -/
theorem exists_word (h : Reads p P) : ∃ a w, P a w := by
  cases e : p [] with
  | ok result =>
    obtain ⟨w, -, hw, -⟩ := h.ok [] result.1 result.2 e
    exact ⟨_, w, hw⟩
  | error failure =>
    obtain ⟨w, -, ⟨a, us, hw⟩, -⟩ := h.error [] failure e
    exact ⟨a, _, hw⟩

theorem mono (h : Reads p P) (hPQ : ∀ a w, P a w → Q a w) : Reads p Q where
  ok ts a rest e := by
    obtain ⟨w, hw, hP, hlocal⟩ := h.ok ts a rest e
    exact ⟨w, hw, hPQ a w hP, hlocal⟩
  error ts failure e := by
    obtain ⟨w, hw, ⟨a, us, hP⟩, hlocal⟩ := h.error ts failure e
    exact ⟨w, hw, ⟨a, us, hPQ a _ hP⟩, hlocal⟩

theorem pure {a : α} (h : P a []) : Reads (Pure.pure a) P where
  ok ts b rest e := by
    cases e
    exact ⟨[], rfl, h, fun us _ => rfl⟩
  error ts failure e := by cases e

theorem fail {fault : SyntaxFault} (h : ∃ a w, P a w) : Reads (fail fault) P where
  ok ts a rest e := by cases e
  error ts failure e := by
    cases e
    exact ⟨[], rfl, h, fun us _ => rfl⟩

theorem ite {c : Prop} [Decidable c] (hp : Reads p P) (hq : Reads q P) :
    Reads (if c then p else q) P := by
  split
  · exact hp
  · exact hq

/-- A sequence of two parsers. What the second one reads continues the word of the first. -/
theorem bind {f : α → Parser β} (hp : Reads p P)
    (hf : ∀ a u, P a u → Reads (f a) fun b v => R b (u ++ v)) : Reads (p >>= f) R where
  ok ts b rest e := by
    obtain ⟨a, mid, hfirst, hsecond⟩ := exists_of_bind e
    obtain ⟨u, rfl, hP, hlocal⟩ := hp.ok ts a mid hfirst
    obtain ⟨v, rfl, hR, hlocal'⟩ := (hf a u hP).ok mid b rest hsecond
    refine ⟨u ++ v, (List.append_assoc u v rest).symm, hR, ?_⟩
    intro us hus
    rw [List.append_assoc, bind_apply, hlocal _ (head?_append_eq hus)]
    exact hlocal' us hus
  error ts failure e := by
    rw [bind_apply] at e
    cases hfirst : p ts with
    | ok result =>
      obtain ⟨a, mid⟩ := result
      rw [hfirst] at e
      obtain ⟨u, rfl, hP, hlocal⟩ := hp.ok ts a mid hfirst
      obtain ⟨v, rfl, ⟨b, us, hR⟩, hlocal'⟩ := (hf a u hP).error mid failure e
      refine ⟨u ++ v, (List.append_assoc u v _).symm, ⟨b, us, ?_⟩, ?_⟩
      · rw [List.append_assoc]
        exact hR
      · intro us hus
        rw [List.append_assoc, bind_apply, hlocal _ (head?_append_eq hus)]
        exact hlocal' us hus
    | error failure' =>
      rw [hfirst] at e
      cases e
      obtain ⟨w, hw, ⟨a, us, hP⟩, hlocal⟩ := hp.error ts failure hfirst
      -- What completes the first word is followed by any word of the second parser.
      obtain ⟨b, v, hR⟩ := (hf a _ hP).exists_word
      refine ⟨w, hw, ⟨b, us ++ v, ?_⟩, ?_⟩
      · rw [← List.append_assoc]
        exact hR
      · intro us hus
        rw [bind_apply, hlocal us hus]

/-- The last step of a sequence only makes a result of what was read. -/
theorem bind_pure {g : α → β} (hp : Reads p P) (hg : ∀ a w, P a w → R (g a) w) :
    Reads (p >>= fun a => Pure.pure (g a)) R := by
  refine hp.bind fun a u hu => pure ?_
  rw [List.append_nil]
  exact hg a u hu

theorem nextIn_bind {k : KindClass} {f : Bool → Parser β} (h : ∀ b, Reads (f b) R) :
    Reads (nextIn k >>= f) R := by
  have hnext : Reads (nextIn k) fun _ w => w = [] := by
    constructor
    · intro ts b rest e
      cases e
      refine ⟨[], rfl, rfl, ?_⟩
      intro us hus
      change Except.ok (us.head?.any (k ·.kind), us) = _
      rw [hus]
    · intro ts failure e
      cases e
  apply hnext.bind
  intro b u hu
  subst hu
  exact h b

/-- Takes a token of a class if one is next. The token just taken may be found at fault. -/
theorem take_bind_or_failAt {k : KindClass} {f : Option Token → Parser β}
    (hs : ∀ t, k t.kind = true → Reads (f (some t)) (fun b v => R b (t :: v)) ∨
      ∃ fault, f (some t) = failAt t fault)
    (hn : Reads (f none) R) : Reads (take? k >>= f) R := by
  have hclear : ∀ ts, Clear k ts ∨ ∃ t us, ts = t :: us ∧ k t.kind = true := by
    intro ts
    cases ts with
    | nil => exact Or.inl (clear_nil k)
    | cons t us =>
      cases hk : k t.kind with
      | true => exact Or.inr ⟨t, us, rfl, hk⟩
      | false => exact Or.inl (clear_cons.mpr hk)
  constructor
  · intro ts b rest e
    rcases hclear ts with hts | ⟨t, us, rfl, hk⟩
    · rw [take_bind_of_clear f hts] at e
      obtain ⟨w, rfl, hR, hlocal⟩ := hn.ok ts b rest e
      refine ⟨w, rfl, hR, ?_⟩
      intro us hus
      rw [take_bind_of_clear f (hts.of_head?_eq (head?_append_eq hus))]
      exact hlocal us hus
    · rw [take_bind_cons f hk] at e
      rcases hs t hk with h | ⟨fault, hfail⟩
      · obtain ⟨w, rfl, hR, hlocal⟩ := h.ok us b rest e
        refine ⟨t :: w, rfl, hR, ?_⟩
        intro vs hvs
        rw [List.cons_append, take_bind_cons f hk]
        exact hlocal vs hvs
      · rw [hfail] at e
        cases e
  · intro ts failure e
    rcases hclear ts with hts | ⟨t, us, rfl, hk⟩
    · rw [take_bind_of_clear f hts] at e
      obtain ⟨w, hw, hR, hlocal⟩ := hn.error ts failure e
      refine ⟨w, hw, hR, ?_⟩
      intro us hus
      rw [hw] at hts
      rw [take_bind_of_clear f (hts.of_head?_eq (head?_append_eq hus))]
      exact hlocal us hus
    · rw [take_bind_cons f hk] at e
      rcases hs t hk with h | ⟨fault, hfail⟩
      · obtain ⟨w, hw, hR, hlocal⟩ := h.error us failure e
        refine ⟨t :: w, congrArg (List.cons t) hw, hR, ?_⟩
        intro vs hvs
        rw [List.cons_append, take_bind_cons f hk]
        exact hlocal vs hvs
      · rw [hfail] at e
        cases e
        -- The fault is at the token just taken, so it is no part of the word.
        refine ⟨[], rfl, hn.exists_word, ?_⟩
        rintro (_ | ⟨u, vs⟩) hvs
        · cases hvs
        · obtain rfl := Option.some.inj hvs
          rw [List.nil_append, take_bind_cons f hk, hfail]
          rfl

/-- Inputs with the same next token may share a parser of their own. What it reads is related to
its results whenever the word begins with that token. -/
theorem of_head (h : ∀ ts : List Token, ∃ r T, Reads r T ∧
      (∀ us : List Token, us.head? = ts.head? → p us = r us) ∧
      (∀ a, ¬ T a []) ∧ ∀ a t w, ts.head? = some t → T a (t :: w) → P a (t :: w))
    (hne : ∃ a w, P a w) : Reads p P where
  ok ts a rest e := by
    obtain ⟨r, T, hr, happly, hnil, hT⟩ := h ts
    rw [happly ts rfl] at e
    obtain ⟨w, rfl, hTw, hlocal⟩ := hr.ok ts a rest e
    cases w with
    | nil => exact absurd hTw (hnil a)
    | cons t w =>
      refine ⟨t :: w, rfl, hT a t w rfl hTw, ?_⟩
      intro us hus
      rw [happly (t :: w ++ us) rfl]
      exact hlocal us hus
  error ts failure e := by
    obtain ⟨r, T, hr, happly, -, hT⟩ := h ts
    rw [happly ts rfl] at e
    obtain ⟨w, hw, ⟨a, us, hTw⟩, hlocal⟩ := hr.error ts failure e
    refine ⟨w, hw, ?_, ?_⟩
    · cases w with
      | nil => exact hne
      | cons t w => exact ⟨a, us, hT a t _ (by rw [hw]; rfl) hTw⟩
    · intro us hus
      rw [happly _ (by rw [hw]; exact head?_append_eq hus)]
      exact hlocal us hus

/-- A choice by the next token, with what this token says of the words read on either side. -/
theorem nextIn_bind_head {k : KindClass} (hp : Reads p P) (hq : Reads q Q)
    {S : α → List Token → Prop} (hP : ∀ a t w, P a (t :: w) → k t.kind = true → S a (t :: w))
    (hQ : ∀ a t w, Q a (t :: w) → k t.kind = false → S a (t :: w))
    (hP₀ : ∀ a, ¬ P a []) (hQ₀ : ∀ a, ¬ Q a []) (hne : ∃ a w, S a w) :
    Reads (nextIn k >>= fun b => if b then p else q) S := by
  refine of_head (fun ts => ?_) hne
  have happly : ∀ us : List Token, us.head? = ts.head? →
      (nextIn k >>= fun b => if b then p else q) us =
        (if ts.head?.any (k ·.kind) then p else q) us := by
    intro us hus
    rw [← hus]
    rfl
  cases hb : ts.head?.any (k ·.kind) with
  | true =>
    rw [hb] at happly
    refine ⟨p, P, hp, happly, hP₀, ?_⟩
    intro a t w ht hw
    rw [ht] at hb
    exact hP a t w hw hb
  | false =>
    rw [hb] at happly
    refine ⟨q, Q, hq, happly, hQ₀, ?_⟩
    intro a t w ht hw
    rw [ht] at hb
    exact hQ a t w hw hb

theorem take_bind {k : KindClass} {f : Option Token → Parser β}
    (hs : ∀ t, k t.kind = true → Reads (f (some t)) fun b v => R b (t :: v))
    (hn : Reads (f none) R) : Reads (take? k >>= f) R :=
  take_bind_or_failAt (fun t ht => Or.inl (hs t ht)) hn

theorem expect {k : KindClass} {fault : SyntaxFault} (hk : ∃ kind, k kind = true) :
    Reads (expect k fault) fun t w => k t.kind = true ∧ w = [t] := by
  obtain ⟨kind, hkind⟩ := hk
  refine take_bind (fun t ht => pure ⟨ht, rfl⟩) (fail ?_)
  exact ⟨⟨kind, "", none, .origin⟩, _, hkind, rfl⟩

theorem expect_bind {k : KindClass} {fault : SyntaxFault} {f : Token → Parser β}
    (hk : ∃ kind, k kind = true)
    (h : ∀ t, k t.kind = true → Reads (f t) fun b v => R b (t :: v)) :
    Reads (Parser.expect k fault >>= f) R := by
  refine (expect hk).bind fun t u ht => ?_
  obtain ⟨ht, hu⟩ := ht
  subst hu
  exact h t ht

theorem symbol_bind {s : Symbol} {fault : SyntaxFault} {f : Token → Parser β}
    (h : ∀ t, t.kind = .symbol s → Reads (f t) fun b v => R b (t :: v)) :
    Reads (symbol s fault >>= f) R :=
  expect_bind ⟨.symbol s, beq_self_eq_true _⟩ fun t ht => h t (beq_iff_eq.mp ht)

theorem keyword_bind {k : Keyword} {fault : SyntaxFault} {f : Token → Parser β}
    (h : ∀ t, t.kind = .keyword k → Reads (f t) fun b v => R b (t :: v)) :
    Reads (keyword k fault >>= f) R :=
  expect_bind ⟨.keyword k, beq_self_eq_true _⟩ fun t ht => h t (beq_iff_eq.mp ht)

theorem name_bind {fault : SyntaxFault} {f : Token → Parser β}
    (h : ∀ t, t.kind = .name → Reads (f t) fun b v => R b (t :: v)) :
    Reads (name fault >>= f) R :=
  expect_bind ⟨.name, rfl⟩ fun t ht => h t (beq_iff_eq.mp ht)

/-- It is enough to agree, up to any length of the input, with some parser that reads a relation. -/
theorem of_agreeBelow (h : ∀ n, ∃ q, AgreeBelow n p q ∧ Reads q P) : Reads p P where
  ok ts a rest e := by
    obtain ⟨q, hpq, hq⟩ := h (ts.length + 1)
    obtain ⟨w, rfl, hP, -⟩ := hq.ok ts a rest (hpq ts (Nat.lt_succ_self _) ▸ e)
    refine ⟨w, rfl, hP, ?_⟩
    intro us hus
    -- The bound now has to cover the other input as well.
    obtain ⟨q', hpq', hq'⟩ := h ((w ++ rest).length + (w ++ us).length + 1)
    rw [hpq' _ (by omega)] at e ⊢
    obtain ⟨w', hw, -, hlocal⟩ := hq'.ok _ a rest e
    rw [List.append_cancel_right hw]
    exact hlocal us hus
  error ts failure e := by
    obtain ⟨q, hpq, hq⟩ := h (ts.length + 1)
    obtain ⟨w, hw, hP, -⟩ := hq.error ts failure (hpq ts (Nat.lt_succ_self _) ▸ e)
    refine ⟨w, hw, hP, ?_⟩
    intro us hus
    obtain ⟨q', hpq', hq'⟩ := h (ts.length + (w ++ us).length + 1)
    rw [hpq' _ (by omega)] at e ⊢
    obtain ⟨w', hw', -, hlocal⟩ := hq'.error _ failure e
    rw [List.append_cancel_right (hw.symm.trans hw')]
    exact hlocal us hus

end Reads

/-- A result with some property, and the words that fit its row. -/
def Written (good : α → Prop) (row : α → List Slot) (a : α) (w : List Token) : Prop :=
  good a ∧ Fits (row a) w

/-- An item that may be absent. -/
abbrev WrittenOption (good : α → Prop) (row : α → List Slot) : Option α → List Token → Prop :=
  Written (fun a? => ∀ a ∈ a?, good a) fun a? => a?.elim [] row

abbrev WrittenList (good : α → Prop) (row : α → List Slot) : List α → List Token → Prop :=
  Written (fun as => ∀ a ∈ as, good a) fun as => as.flatMap row

theorem holds_symbol {s : Symbol} (t : Token) (h : KindClass.symbol s t.kind = true) :
    (Slot.symbol s).Holds t := beq_iff_eq.mp h

theorem holds_keyword {k : Keyword} (t : Token) (h : KindClass.keyword k t.kind = true) :
    (Slot.keyword k).Holds t := beq_iff_eq.mp h

namespace Reads

variable {item : Parser α} {good : α → Prop} {row : α → List Slot}

theorem ifNext {k : KindClass} (h : Reads item (Written good row)) :
    Reads (ifNext k item) (WrittenOption good row) := by
  refine nextIn_bind fun _ => ite (h.bind_pure fun a u hu => ?_) (pure ⟨by simp, .nil⟩)
  exact ⟨by simpa using hu.1, hu.2⟩

theorem led {k : KindClass} {s : Slot} (hs : ∀ t : Token, k t.kind = true → s.Holds t)
    (h : Reads item (Written good row)) :
    Reads (led k item) (WrittenOption good fun a => s :: row a) := by
  refine take_bind (fun t ht => h.bind_pure fun a u hu => ?_) (pure ⟨by simp, .nil⟩)
  exact ⟨by simpa using hu.1, .cons (hs t ht) hu.2⟩

theorem manyWithin {item? : Parser (Option α)} (h : Reads item? (WrittenOption good row))
    (rounds : List Token) : Reads (manyWithin item? rounds) (WrittenList good row) := by
  induction rounds with
  | nil => exact pure ⟨by simp, .nil⟩
  | cons _ rounds ih =>
    apply h.bind
    rintro (_ | a) u ⟨hgood, hu⟩
    · obtain rfl := Fits.nil_iff.mp hu
      exact pure ⟨by simp, .nil⟩
    · refine ih.bind_pure fun as v hv => ?_
      exact ⟨List.forall_mem_cons.mpr ⟨hgood a rfl, hv.1⟩, hu.append hv.2⟩

theorem many {item? : Parser (Option α)} (h : Reads item? (WrittenOption good row))
    (hs : ItemShrinks item?) (hnil : item? [] = .ok (none, [])) :
    Reads (many item?) (WrittenList good row) := by
  refine of_agreeBelow fun n => ?_
  obtain ⟨rounds, hrounds⟩ := exists_manyWithin hs hnil n
  exact ⟨_, hrounds, h.manyWithin rounds⟩

theorem manyLed {k : KindClass} {s : Slot} (hs : ∀ t : Token, k t.kind = true → s.Holds t)
    (h : Reads item (Written good row)) (hk : Keeps item) :
    Reads (Parser.many (Parser.led k item)) (WrittenList good fun a => s :: row a) :=
  (h.led hs).many hk.itemShrinks_led (led_nil k item)

theorem manyIfNext {k : KindClass} (h : Reads item (Written good row)) (hk : Shrinks item) :
    Reads (Parser.many (Parser.ifNext k item)) (WrittenList good row) :=
  h.ifNext.many hk.itemShrinks_ifNext (ifNext_nil k item)

theorem oneOrMore {k : KindClass} (h : Reads item (Written good row)) (hk : Shrinks item) :
    Reads (oneOrMore k item)
      (Written (fun as => as ≠ [] ∧ ∀ a ∈ as, good a) fun as => as.flatMap row) := by
  refine h.bind fun a u hu => (h.manyIfNext hk).bind_pure fun as v hv => ?_
  have hall := List.forall_mem_cons.mpr ⟨hu.1, hv.1⟩
  exact ⟨⟨List.cons_ne_nil a as, hall⟩, hu.2.append hv.2⟩

theorem commaSeparated (h : Reads item (Written good row)) (hk : Shrinks item) :
    Reads (commaSeparated item)
      (Written (fun as => as ≠ [] ∧ ∀ a ∈ as, good a) fun as => Slot.commas (as.map row)) := by
  refine h.bind fun a u hu => (h.manyLed holds_symbol hk.keeps).bind_pure fun as v hv => ?_
  have hall := List.forall_mem_cons.mpr ⟨hu.1, hv.1⟩
  refine ⟨⟨List.cons_ne_nil a as, hall⟩, ?_⟩
  show Fits (row a ++ (as.map row).flatMap (.symbol .comma :: ·)) (u ++ v)
  rw [List.flatMap_map]
  exact hu.2.append hv.2

theorem listUntil {close : Symbol} (h : Reads item (Written good row)) (hk : Shrinks item) :
    Reads (listUntil close item)
      (Written (fun as => ∀ a ∈ as, good a) fun as => Slot.commas (as.map row)) := by
  refine nextIn_bind fun _ => ite (pure ⟨by simp, .nil⟩) ?_
  exact (h.commaSeparated hk).mono fun as w hw => ⟨hw.1.2, hw.2⟩

end Reads
end Jam.Parser
