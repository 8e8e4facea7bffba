import Jam.Proofs.Grammar.Agreement
import Jam.Proofs.Token.LineBreak

/-!
Programs one behind the other. Items end where they are written to end, but for a branch, which
looks for a further arm or for what is done otherwise. So the tokens of a program are read as its
items whatever follows them, unless what follows begins with a word by which a branch goes on.
-/
namespace Jam

open Grammar Jam.Parser

namespace Grammar

variable {items : List Item} {w rest : List Token}

/-- The items of a program, up to the last token. -/
theorem program_eq : program = do
    match ← ifNext (fun _ => true) item with
    | some i => do
      let p ← program
      return ⟨i :: p.items⟩
    | none => return ⟨[]⟩ := by
  funext ts
  conv_lhs => rw [program, many_eq shrinks_item.itemShrinks_ifNext (ifNext_nil _ _)]
  simp only [bind_apply]
  match ifNext (fun _ => true) item ts with
  | .error e => rfl
  | .ok (none, us) => rfl
  | .ok (some i, us) =>
    simp only [bind_apply, program]
    match many (ifNext (fun _ => true) item) us with
    | .error e => rfl
    | .ok (is, vs) => rfl

theorem clear_of_fits_items (hitems : ∀ i ∈ items, i.WellFormed)
    (hw : Fits (items.flatMap Item.unparse) w) (hrest : Clear branchGoesOn rest) :
    Clear branchGoesOn (w ++ rest) := by
  cases items with
  | nil =>
    obtain rfl := Fits.nil_iff.mp hw
    exact hrest
  | cons i items =>
    rw [List.flatMap_cons] at hw
    obtain ⟨t, u, rfl, ht⟩ := hw.startsIn_append fun u hu =>
      startsIn_of_item (hitems i List.mem_cons_self) hu
    rw [List.cons_append, clear_cons]
    simpa using ht

/-- The items that are written first come first, and then those of the rest. -/
theorem program_append_items (hitems : ∀ i ∈ items, i.WellFormed)
    (hw : Fits (items.flatMap Item.unparse) w) (hrest : Clear branchGoesOn rest) :
    program (w ++ rest) = (program rest).map fun (p, left) => (⟨items ++ p.items⟩, left) := by
  induction items generalizing w with
  | nil =>
    obtain rfl := Fits.nil_iff.mp hw
    rw [List.nil_append]
    cases program rest with
    | error e => rfl
    | ok result => rfl
  | cons i items ih =>
    rw [List.forall_mem_cons] at hitems
    rw [List.flatMap_cons] at hw
    obtain ⟨u, v, rfl, hu, hv⟩ := Fits.append_iff.mp hw
    have hfirst : item (u ++ (v ++ rest)) = .ok (i, v ++ rest) :=
      takes_item hitems.1 u _ hu (clear_of_fits_items hitems.2 hv hrest)
    have hnext : ifNext (fun _ => true) item (u ++ (v ++ rest)) = .ok (some i, v ++ rest) := by
      obtain ⟨t, u', rfl, -⟩ := startsIn_of_item hitems.1 hu
      rw [List.cons_append] at hfirst ⊢
      rw [ifNext, nextIn_bind_cons, if_pos rfl, bind_apply, hfirst]
      rfl
    have hstep : program (u ++ (v ++ rest)) =
        (program >>= fun p => pure ⟨i :: p.items⟩) (v ++ rest) := by
      conv_lhs => rw [program_eq, bind_apply, hnext]
    rw [List.append_assoc, hstep, bind_apply, ih hitems.2 hv]
    cases program rest with
    | error e => rfl
    | ok result => rfl

end Grammar

/-- The end of a sequence is the end of what comes last in it. -/
theorem Token.endSpan_append_of_ne_nil {w us : List Token} (hw : ∀ t ∈ w, t.kind ≠ .endOfInput)
    (hus : us ≠ []) : endSpan (w ++ us) = endSpan us := by
  rw [endSpan, endSpan, List.find?_append, find?_end_eq_none hw, Option.none_or,
    List.getLast?_append_of_ne_nil _ hus]

namespace Program

variable {p : Program} {w us : List Token}

/-- The items of a program, and behind them those of the tokens that follow, or their error. -/
theorem ofTokens_append (hp : p.WellFormed) (hw : Fits p.unparse w) (hus : us ≠ [])
    (hclear : Clear branchGoesOn (Token.beforeEnd us)) :
    ofTokens (w ++ us) = (ofTokens us).map fun q => ⟨p.items ++ q.items⟩ := by
  have hne : ∀ t ∈ w, t.kind ≠ .endOfInput :=
    fun t ht => (hw.isWord (Program.keepsWords hp) t ht).2.1
  rw [ofTokens, ofTokens, Token.beforeEnd_append hne, Token.endSpan_append_of_ne_nil hne hus,
    program_append_items hp hw hclear]
  cases program (Token.beforeEnd us) with
  | error e => rfl
  | ok result => rfl

end Program
end Jam
