import Jam.Json.Value

/-!
The values inside a JSON value, at every depth. That all objects inside a value satisfy some
condition is settled by the outermost value and what it is built from.
-/
namespace Jam.Json

/-- The values that are met inside a value, the value itself included. -/
inductive Within (v : Json) : Json → Prop
  | self : Within v v
  | item {items : List Json} {x : Json} (hx : x ∈ items) (h : Within v x) :
      Within v (.array items)
  | field {fields : List (String × Json)} {key : String} {x : Json} (hx : (key, x) ∈ fields)
      (h : Within v x) : Within v (.object fields)

/-- All objects inside a value have fields that satisfy a condition. -/
def AllObjects (P : List (String × Json) → Prop) (v : Json) : Prop :=
  ∀ fields, Within (.object fields) v → P fields

section AllObjects

variable {P : List (String × Json) → Prop}

@[simp]
theorem allObjects_null : AllObjects P .null := by
  intro fields h
  cases h

@[simp]
theorem allObjects_number (n : Int) : AllObjects P (.number n) := by
  intro fields h
  cases h

@[simp]
theorem allObjects_string (s : String) : AllObjects P (.string s) := by
  intro fields h
  cases h

@[simp]
theorem allObjects_array {items : List Json} :
    AllObjects P (.array items) ↔ ∀ x ∈ items, AllObjects P x := by
  constructor
  · intro h x hx fields hfields
    exact h fields (.item hx hfields)
  · intro h fields hfields
    cases hfields with
    | item hx hfields => exact h _ hx fields hfields

@[simp]
theorem allObjects_object {fields : List (String × Json)} :
    AllObjects P (.object fields) ↔ P fields ∧ ∀ field ∈ fields, AllObjects P field.2 := by
  constructor
  · intro h
    refine ⟨h fields .self, ?_⟩
    rintro ⟨key, x⟩ hx inner hinner
    exact h inner (.field hx hinner)
  · rintro ⟨hfields, hall⟩ inner hinner
    cases hinner with
    | self => exact hfields
    | field hx hinner => exact hall _ hx inner hinner

end AllObjects

end Jam.Json
