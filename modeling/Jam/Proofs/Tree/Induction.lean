import Jam.Tree.Basic

/-!
Induction on expressions, initializers and statements. They hold lists of their own kind, so what
is assumed of the parts of a list is assumed of each of its members. The tail of a branch is read
as the arms that are tried in order and the block that is left for the end.
-/
namespace Jam

/-- What one map tells of the members of two lists another map tells as well, if it does so of
single members. -/
theorem map_eq_map_of_map_eq {α β γ : Type} {f : α → β} {g : α → γ} {as bs : List α}
    (h : ∀ a ∈ as, ∀ b ∈ bs, f a = f b → g a = g b) (hmap : as.map f = bs.map f) :
    as.map g = bs.map g := by
  induction as generalizing bs with
  | nil =>
    obtain rfl := List.map_eq_nil_iff.mp hmap.symm
    rfl
  | cons a as ih =>
    cases bs with
    | nil => cases hmap
    | cons b bs =>
      obtain ⟨hhead, htail⟩ := List.cons.inj hmap
      rw [List.map_cons, List.map_cons, h a List.mem_cons_self b List.mem_cons_self hhead,
        ih (fun a ha b hb => h a (List.mem_cons_of_mem _ ha) b (List.mem_cons_of_mem _ hb)) htail]

theorem Expr.induction {P : Expr → Prop} (literal : ∀ t value, P (.literal t value))
    (name : ∀ t, P (.name t))
    (element : ∀ t indices, (∀ e ∈ indices, P e) → P (.element t indices))
    (group : ∀ inner, P inner → P (.group inner))
    (call : ∀ keyword callee args, (∀ e ∈ args, P e) → P (.call keyword callee args))
    (binary : ∀ left op right, P left → P right → P (.binary left op right)) (e : Expr) : P e := by
  refine @Expr.rec P (fun es => ∀ e ∈ es, P e) literal name element group call binary ?_ ?_ e
  · intro e he
    cases he
  · intro first others hfirst hothers e he
    rcases List.mem_cons.mp he with rfl | he
    · exact hfirst
    · exact hothers e he

theorem Init.induction {P : Init → Prop} (value : ∀ e, P (.value e))
    (braces : ∀ items, (∀ i ∈ items, P i) → P (.braces items)) (i : Init) : P i := by
  refine @Init.rec P (fun is => ∀ i ∈ is, P i) value braces ?_ ?_ i
  · intro i hi
    cases hi
  · intro first others hfirst hothers i hi
    rcases List.mem_cons.mp hi with rfl | hi
    · exact hfirst
    · exact hothers i hi

namespace Tail

/-- The further conditions with their blocks, in order. -/
def arms : Tail → List (Expr × List Stmt)
  | nothing => []
  | otherwise _ => []
  | orIf condition body tail => (condition, body) :: tail.arms

/-- The block for the case that no condition holds. -/
def last : Tail → Option (List Stmt)
  | nothing => none
  | otherwise body => some body
  | orIf _ _ tail => tail.last

/-- A tail is its arms and its last block. -/
theorem ofArms_arms_last (tail : Tail) : ofArms tail.arms tail.last = tail := by
  cases tail with
  | nothing => rfl
  | otherwise body => rfl
  | orIf condition body tail =>
    have ih := ofArms_arms_last tail
    rw [ofArms] at ih
    rw [arms, last, ofArms, List.foldr_cons, ih]

end Tail

theorem Stmt.induction {P : Stmt → Prop} (declare : ∀ decl, P (.declare decl))
    (ret : ∀ value, P (.ret value)) (assign : ∀ a, P (.assign a)) (call : ∀ c, P (.call c))
    (branch : ∀ condition body tail, (∀ s ∈ body, P s) →
      (∀ arm ∈ tail.arms, ∀ s ∈ arm.2, P s) → (∀ block ∈ tail.last, ∀ s ∈ block, P s) →
      P (.branch condition body tail))
    (rangeLoop : ∀ var start stop body, (∀ s ∈ body, P s) → P (.rangeLoop var start stop body))
    (stepLoop : ∀ init condition step body, (∀ s ∈ body, P s) →
      P (.stepLoop init condition step body))
    (whileLoop : ∀ condition body, (∀ s ∈ body, P s) → P (.whileLoop condition body))
    (s : Stmt) : P s := by
  refine @Stmt.rec P
    (fun tail => (∀ arm ∈ tail.arms, ∀ s ∈ arm.2, P s) ∧ ∀ block ∈ tail.last, ∀ s ∈ block, P s)
    (fun body => ∀ s ∈ body, P s) declare ret assign call ?_ rangeLoop stepLoop whileLoop
    ?_ ?_ ?_ ?_ ?_ s
  · intro condition body tail hbody htail
    exact branch condition body tail hbody htail.1 htail.2
  · simp [Tail.arms, Tail.last]
  · intro body hbody
    simpa [Tail.arms, Tail.last] using hbody
  · intro condition body tail hbody htail
    obtain ⟨harms, hlast⟩ := htail
    refine ⟨?_, hlast⟩
    intro arm harm
    rcases List.mem_cons.mp harm with rfl | harm
    · exact hbody
    · exact harms arm harm
  · intro s hs
    cases hs
  · intro first others hfirst hothers s hs
    rcases List.mem_cons.mp hs with rfl | hs
    · exact hfirst
    · exact hothers s hs

end Jam
