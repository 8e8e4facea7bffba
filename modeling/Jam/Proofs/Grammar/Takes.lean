import Jam.Grammar.Equations
import Jam.Proofs.Grammar.First
import Jam.Proofs.Grammar.Lookahead

/-!
What a parser takes, given the row of its result. Whatever tokens fit the row are taken and
nothing more, unless the token behind them belongs to a class by which the parser would go on.
-/
namespace Jam.Parser

variable {α β : Type} {s stop stop' : KindClass} {row others : List Slot}

/-- A row keeps out a class: what fits it begins with no token of the class. Where the row is
empty, this rests on the class that is kept out behind it. -/
def Bars (s : KindClass) (row : List Slot) (stop : KindClass) : Prop :=
  ∀ w rest, Fits row w → Clear stop rest → Clear s (w ++ rest)

/-- The class that keeps out no token. -/
def never : KindClass := fun _ => false

theorem clear_never (ts : List Token) : Clear never ts := fun _ _ => rfl

namespace Bars

theorem nil (h : ∀ k, stop k = false → s k = false) : Bars s [] stop := by
  intro w rest hw hrest
  obtain rfl := Fits.nil_iff.mp hw
  exact hrest.mono h

theorem cons {slot : Slot} (h : s slot.kind = false) : Bars s (slot :: row) stop := by
  intro w rest hw _
  obtain ⟨t, u, rfl, ht, -⟩ := Fits.cons_iff.mp hw
  rw [List.cons_append, clear_cons, ← ht.kind_eq]
  exact h

theorem append (h : Bars s row stop') (h' : Bars stop' others stop) :
    Bars s (row ++ others) stop := by
  intro w rest hw hrest
  obtain ⟨u, v, rfl, hu, hv⟩ := Fits.append_iff.mp hw
  rw [List.append_assoc]
  exact h u _ hu (h' v rest hv hrest)

theorem flatMap {f : α → List Slot} {as : List α} (h : ∀ a ∈ as, Bars s (f a) s)
    (hend : ∀ k, stop k = false → s k = false) : Bars s (as.flatMap f) stop := by
  induction as with
  | nil => exact nil hend
  | cons a as ih =>
    rw [List.forall_mem_cons] at h
    exact h.1.append (ih h.2)

/-- A row that is never empty keeps out a class by itself. -/
theorem of_startsIn {k : KindClass} (h : ∀ w, Fits row w → StartsIn k w)
    (hk : ∀ kind, k kind = true → s kind = false) : Bars s row never := by
  intro w rest hw _
  obtain ⟨t, u, rfl, ht⟩ := h w hw
  exact clear_cons.mpr (hk _ ht)

theorem of_never (h : Bars s row never) : Bars s row stop :=
  fun w rest hw _ => h w rest hw (clear_never rest)

theorem append_right (h : Bars s row never) : Bars s (row ++ others) stop :=
  h.append fun _ _ _ _ => clear_never _

end Bars

def Takes (p : Parser α) (stop : KindClass) (a : α) (row : List Slot) : Prop :=
  ∀ w rest, Fits row w → Clear stop rest → p (w ++ rest) = .ok (a, rest)

namespace Takes

variable {p : Parser α} {f : α → Parser β} {a : α} {b : β} {k : KindClass}

theorem mono (h : Takes p stop a row) (hs : ∀ k, stop' k = false → stop k = false) :
    Takes p stop' a row :=
  fun w rest hw hrest => h w rest hw (hrest.mono hs)

/-- What is taken whatever stands behind it. -/
theorem of_never (h : Takes p never a row) : Takes p stop a row := h.mono fun _ _ => rfl

theorem pure : Takes (Pure.pure a : Parser α) stop a [] := by
  intro w rest hw _
  obtain rfl := Fits.nil_iff.mp hw
  rfl

theorem bind (hp : Takes p s a row) (hf : Takes (f a) stop b others)
    (hs : Bars s others stop) : Takes (p >>= f) stop b (row ++ others) := by
  intro w rest hw hrest
  obtain ⟨u, v, rfl, hu, hv⟩ := Fits.append_iff.mp hw
  rw [List.append_assoc, bind_apply, hp u _ hu (hs v rest hv hrest)]
  exact hf v rest hv hrest

/-- The last step of a sequence hands on what it is given. -/
theorem bind_pure (hp : Takes p stop a row) {g : α → β} :
    Takes (p >>= fun a => Pure.pure (g a)) stop (g a) row := by
  have h := hp.bind (f := fun a => Pure.pure (g a)) pure (Bars.nil fun _ hk => hk)
  rwa [List.append_nil] at h

theorem nextIn_bind {f : Bool → Parser β} {c : Bool} {slot : Slot} (hc : k slot.kind = c)
    (h : Takes (f c) stop b (slot :: row)) : Takes (nextIn k >>= f) stop b (slot :: row) := by
  intro w rest hw hrest
  have hw' := hw
  obtain ⟨t, u, rfl, ht, -⟩ := Fits.cons_iff.mp hw'
  rw [List.cons_append, nextIn_bind_cons, ← ht.kind_eq, hc]
  exact h _ rest hw hrest

theorem nextIn_bind_of_startsIn {f : Bool → Parser β} (hk : ∀ w, Fits row w → StartsIn k w)
    (h : Takes (f true) stop b row) : Takes (nextIn k >>= f) stop b row := by
  intro w rest hw hrest
  obtain ⟨t, u, rfl, ht⟩ := hk w hw
  rw [List.cons_append, nextIn_bind_cons, ht]
  exact h _ rest hw hrest

theorem nextIn_bind_of_bars {f : Bool → Parser β} (hk : Bars k row stop)
    (h : Takes (f false) stop b row) : Takes (nextIn k >>= f) stop b row := by
  intro w rest hw hrest
  rw [nextIn_bind_of_clear f (hk w rest hw hrest)]
  exact h w rest hw hrest

theorem take_bind {f : Option Token → Parser β} {slot : Slot} (hk : k slot.kind = true)
    (h : ∀ t, slot.Holds t → Takes (f (some t)) stop b row) :
    Takes (take? k >>= f) stop b (slot :: row) := by
  intro w rest hw hrest
  obtain ⟨t, u, rfl, ht, hu⟩ := Fits.cons_iff.mp hw
  rw [List.cons_append, take_bind_cons f (by rw [← ht.kind_eq]; exact hk)]
  exact h t ht u rest hu hrest

theorem take_bind_of_bars {f : Option Token → Parser β} (hk : Bars k row stop)
    (h : Takes (f none) stop b row) : Takes (take? k >>= f) stop b row := by
  intro w rest hw hrest
  rw [take_bind_of_clear f (hk w rest hw hrest)]
  exact h w rest hw hrest

theorem expect_bind {f : Token → Parser β} {fault : SyntaxFault} {slot : Slot}
    (hk : k slot.kind = true) (h : ∀ t, slot.Holds t → Takes (f t) stop b row) :
    Takes (expect k fault >>= f) stop b (slot :: row) := by
  intro w rest hw hrest
  obtain ⟨t, u, rfl, ht, hu⟩ := Fits.cons_iff.mp hw
  have hexpect : expect k fault (t :: (u ++ rest)) = .ok (t, u ++ rest) := by
    rw [expect, take_bind_cons _ (by rw [← ht.kind_eq]; exact hk)]
    rfl
  rw [List.cons_append, bind_apply, hexpect]
  exact h t ht u rest hu hrest

theorem kept {fault : SyntaxFault} {t : Token} (hk : k t.kind = true) :
    Takes (expect k fault) stop t [.kept t] := by
  intro w rest hw _
  obtain ⟨u, v, rfl, rfl, hv⟩ := Fits.cons_iff.mp hw
  obtain rfl := Fits.nil_iff.mp hv
  rw [List.cons_append, expect, take_bind_cons _ hk]
  rfl

theorem kept_bind {f : Token → Parser β} {fault : SyntaxFault} {t : Token}
    (hk : k t.kind = true) (h : Takes (f t) stop b row) :
    Takes (expect k fault >>= f) stop b (.kept t :: row) := by
  refine expect_bind hk ?_
  rintro _ rfl
  exact h

theorem name_bind {f : Token → Parser β} {fault : SyntaxFault} {t : Token}
    (ht : t.kind = .name) (h : Takes (f t) stop b row) :
    Takes (name fault >>= f) stop b (.kept t :: row) :=
  kept_bind (beq_iff_eq.mpr ht) h

theorem symbol_bind {f : Token → Parser β} {fault : SyntaxFault} {c : Symbol}
    (h : ∀ t, Takes (f t) stop b row) :
    Takes (symbol c fault >>= f) stop b (.symbol c :: row) :=
  expect_bind (beq_self_eq_true _) fun t _ => h t

theorem keyword_bind {f : Token → Parser β} {fault : SyntaxFault} {c : Keyword}
    (h : ∀ t, Takes (f t) stop b row) :
    Takes (keyword c fault >>= f) stop b (.keyword c :: row) :=
  expect_bind (beq_self_eq_true _) fun t _ => h t

section

variable {item : Parser α} {slot : Slot}

theorem led_some (hk : k slot.kind = true) (h : Takes item stop a row) :
    Takes (led k item) stop (some a) (slot :: row) :=
  take_bind hk fun _ _ => h.bind_pure

theorem led_none (hk : ∀ kind, stop kind = false → k kind = false) :
    Takes (led k item) stop none [] :=
  take_bind_of_bars (.nil hk) pure

/-- An item is led by a token, or there is none and the class of that token is kept out. -/
theorem led {row : α → List Slot} {a? : Option α} (hk : k slot.kind = true)
    (hend : ∀ kind, stop kind = false → k kind = false)
    (h : ∀ a ∈ a?, Takes item stop a (row a)) :
    Takes (Parser.led k item) stop a? (a?.elim [] fun a => slot :: row a) := by
  cases a? with
  | none => exact led_none hend
  | some a => exact led_some hk (h a rfl)

/-- A repetition takes its items in turn. Behind each of them stands the next one or the end. -/
theorem many {item? : Parser (Option α)} {row : α → List Slot} {as : List α}
    (hs : ItemShrinks item?) (hnil : item? [] = .ok (none, []))
    (hitems : ∀ a ∈ as, Takes item? s (some a) (row a)) (hbars : ∀ a ∈ as, Bars s (row a) s)
    (hend : ∀ kind, stop kind = false → s kind = false) (hnone : Takes item? stop none []) :
    Takes (many item?) stop as (as.flatMap row) := by
  induction as with
  | nil =>
    rw [many_eq hs hnil]
    exact hnone.bind pure (.nil fun _ hk => hk)
  | cons a as ih =>
    rw [List.forall_mem_cons] at hitems hbars
    rw [many_eq hs hnil]
    exact hitems.1.bind (ih hitems.2 hbars.2).bind_pure (.flatMap hbars.2 hend)

theorem manyLed {row : α → List Slot} {as : List α} (hshrinks : Keeps item)
    (hk : k slot.kind = true) (hslot : s slot.kind = false)
    (hitems : ∀ a ∈ as, Takes item s a (row a))
    (hend : ∀ kind, stop kind = false → s kind = false ∧ k kind = false) :
    Takes (Parser.many (Parser.led k item)) stop as (as.flatMap fun a => slot :: row a) :=
  many hshrinks.itemShrinks_led (led_nil k item) (fun a ha => led_some hk (hitems a ha))
    (fun _ _ => .cons hslot) (fun kind h => (hend kind h).1)
    (led_none fun kind h => (hend kind h).2)

theorem manyIfNext {row : α → List Slot} {as : List α} (hshrinks : Shrinks item)
    (hstarts : ∀ a ∈ as, ∀ w, Fits (row a) w → StartsIn k w)
    (hbars : ∀ a ∈ as, Bars s (row a) s) (hitems : ∀ a ∈ as, Takes item s a (row a))
    (hend : ∀ kind, stop kind = false → s kind = false ∧ k kind = false) :
    Takes (Parser.many (ifNext k item)) stop as (as.flatMap row) := by
  refine many hshrinks.itemShrinks_ifNext (ifNext_nil k item) (fun a ha => ?_) hbars
    (fun kind h => (hend kind h).1) ?_
  · exact nextIn_bind_of_startsIn (hstarts a ha) (hitems a ha).bind_pure
  · exact nextIn_bind_of_bars (.nil fun kind h => (hend kind h).2) pure

theorem oneOrMore {row : α → List Slot} {as : List α} (hshrinks : Shrinks item) (hne : as ≠ [])
    (hstarts : ∀ a ∈ as, ∀ w, Fits (row a) w → StartsIn k w)
    (hbars : ∀ a ∈ as, Bars s (row a) s) (hitems : ∀ a ∈ as, Takes item s a (row a))
    (hend : ∀ kind, stop kind = false → s kind = false ∧ k kind = false) :
    Takes (oneOrMore k item) stop as (as.flatMap row) := by
  cases as with
  | nil => exact absurd rfl hne
  | cons first others =>
    rw [List.forall_mem_cons] at hstarts hbars hitems
    exact hitems.1.bind (manyIfNext hshrinks hstarts.2 hbars.2 hitems.2 hend).bind_pure
      (.flatMap hbars.2 fun kind h => (hend kind h).1)

theorem commaSeparated {row : α → List Slot} {as : List α} (hshrinks : Shrinks item)
    (hcomma : s (.symbol .comma) = false) (hne : as ≠ [])
    (hitems : ∀ a ∈ as, Takes item s a (row a))
    (hend : ∀ kind, stop kind = false → s kind = false ∧ kind ≠ .symbol .comma) :
    Takes (commaSeparated item) stop as (Slot.commas (as.map row)) := by
  cases as with
  | nil => exact absurd rfl hne
  | cons first others =>
    rw [List.forall_mem_cons] at hitems
    rw [List.map_cons, Slot.commas, List.flatMap_map]
    have hothers : Takes (Parser.many (Parser.led (.symbol .comma) item)) stop others
        (others.flatMap fun a => .symbol .comma :: row a) := by
      refine manyLed hshrinks.keeps (beq_self_eq_true _) hcomma hitems.2 fun kind h => ?_
      exact ⟨(hend kind h).1, beq_eq_false_iff_ne.mpr (hend kind h).2⟩
    exact hitems.1.bind hothers.bind_pure
      (.flatMap (fun _ _ => .cons hcomma) fun kind h => (hend kind h).1)

/-- A list is closed at once, or it has items none of which begins with what closes it. -/
theorem listUntil_bind {row : α → List Slot} {others : List Slot} {as : List α} {close : Symbol}
    {f : List α → Parser β} (hshrinks : Shrinks item) (hcomma : s (.symbol .comma) = false)
    (hclose : s (.symbol close) = false) (hne : close ≠ .comma)
    (hitems : ∀ a ∈ as, Takes item s a (row a))
    (hbars : ∀ a ∈ as, Bars (.symbol close) (row a) never)
    (h : Takes (f as) stop b (.symbol close :: others)) :
    Takes (listUntil close item >>= f) stop b
      (Slot.commas (as.map row) ++ .symbol close :: others) := by
  have heq : listUntil close item >>= f = nextIn (.symbol close) >>= fun c =>
      if c then f [] else Parser.commaSeparated item >>= f := by
    rw [listUntil, bind_assoc]
    refine congrArg _ (funext fun c => ?_)
    cases c with
    | false => rfl
    | true => exact pure_bind [] f
  rw [heq]
  cases as with
  | nil => exact nextIn_bind (c := true) (beq_self_eq_true _) h
  | cons first as =>
    have hsome : Takes (Parser.commaSeparated item >>= f) stop b
        (Slot.commas ((first :: as).map row) ++ .symbol close :: others) := by
      refine (commaSeparated hshrinks hcomma (List.cons_ne_nil _ _) hitems ?_).bind
        (s := fun kind => s kind || kind == .symbol .comma) h (.cons ?_)
      · intro kind hkind
        simpa using hkind
      · simpa [hclose, Slot.kind] using hne
    -- The first item alone decides that the list is not closed at once.
    refine nextIn_bind_of_bars ?_ hsome
    rw [List.map_cons, Slot.commas, List.append_assoc]
    exact (hbars first List.mem_cons_self).append_right

end

end Takes
end Jam.Parser
