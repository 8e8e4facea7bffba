import Jam.Proofs.Tree.Outline

/-!
What a listing writes, told without a listing. A tree of labels has a preorder, in which each label
stands with its distance from the root, and the text of the tree has one line for each label, in
that order, the further in the greater its distance. A listing keeps its text and its depth while
it writes; but whatever it has written before and however deep it stands, it adds the text of the
tree and comes back to its depth. A listing that is used again is therefore as good as a new one.
-/
namespace Jam

inductive LabelTree where
  | node (label : String) (parts : List LabelTree)

namespace LabelTree

open Outline

def further (line : Nat × String) : Nat × String := (line.1 + 1, line.2)

mutual

/-- The labels in preorder, each with its distance from the root. -/
def preorder : LabelTree → List (Nat × String)
  | node label parts => (0, label) :: (preorderAll parts).map further

/-- The labels of several trees that stand side by side, each with its distance from its root. -/
def preorderAll : List LabelTree → List (Nat × String)
  | [] => []
  | t :: rest => t.preorder ++ preorderAll rest

end

theorem preorderAll_append (ts others : List LabelTree) :
    preorderAll (ts ++ others) = preorderAll ts ++ preorderAll others := by
  induction ts with
  | nil => rfl
  | cons t ts ih => rw [List.cons_append, preorderAll, preorderAll, ih, List.append_assoc]

/-- The lines of labels whose roots stand at a depth. -/
def render (depth : Nat) (labels : List (Nat × String)) : String :=
  String.ofList (labels.flatMap fun (distance, label) => lineText (depth + distance, label))

theorem render_cons (depth distance : Nat) (label : String) (labels : List (Nat × String)) :
    render depth ((distance, label) :: labels) =
      String.ofList (List.replicate (2 * (depth + distance)) ' ') ++ label ++ "\n" ++
        render depth labels := by
  simp [render, lineText, String.ofList_append, String.append_assoc]

theorem render_append (depth : Nat) (labels others : List (Nat × String)) :
    render depth (labels ++ others) = render depth labels ++ render depth others := by
  rw [render, List.flatMap_append, String.ofList_append, render, render]

/-- What is further from the root is further in. -/
theorem render_map_further (depth : Nat) (labels : List (Nat × String)) :
    render depth (labels.map further) = render (depth + 1) labels := by
  simp only [render, List.flatMap_map, further, Nat.add_assoc, Nat.add_comm 1]

end LabelTree

namespace Outline

open LabelTree

mutual

def labels : Outline → LabelTree
  | node heading detail parts => .node (label heading detail) (labelsAll parts)

def labelsAll : List Outline → List LabelTree
  | [] => []
  | o :: rest => o.labels :: labelsAll rest

end

theorem labelsAll_eq_map (os : List Outline) : labelsAll os = os.map labels := by
  induction os with
  | nil => rfl
  | cons o os ih => rw [labelsAll, List.map_cons, ih]

mutual

/-- Depths count from where the outline stands, distances from its root. -/
theorem lines_eq_map_preorder (depth : Nat) : (o : Outline) →
    o.lines depth = o.labels.preorder.map fun line => (depth + line.1, line.2)
  | node heading detail parts => by
    rw [lines, labels, preorder, linesAll_eq_map_preorderAll (depth + 1) parts]
    simp [further, Nat.add_assoc, Nat.add_comm 1]

theorem linesAll_eq_map_preorderAll (depth : Nat) : (os : List Outline) →
    linesAll depth os = (preorderAll (labelsAll os)).map fun line => (depth + line.1, line.2)
  | [] => rfl
  | o :: rest => by
    rw [linesAll, labelsAll, preorderAll, lines_eq_map_preorder depth o,
      linesAll_eq_map_preorderAll depth rest, List.map_append]

end

end Outline

namespace Listing

open LabelTree Outline

/-- A writer of trees adds their text to whatever has been written, and ends at the depth at which
it began. -/
def Adds (write : Listing → Listing) (ts : List LabelTree) : Prop :=
  ∀ l : Listing, write l = ⟨l.text ++ render l.depth (preorderAll ts), l.depth⟩

namespace Adds

variable {first second write : Listing → Listing} {ts others : List LabelTree}

/-- Trees that are written one after another. -/
theorem comp (hfirst : Adds first ts) (hsecond : Adds second others) :
    Adds (fun l => second (first l)) (ts ++ others) := by
  intro l
  show second (first l) = _
  rw [hfirst l, hsecond, preorderAll_append, render_append, String.append_assoc]

/-- A label with the trees of its parts, which stand one level further in. -/
theorem node (label : String) (h : Adds write ts) : Adds (·.node label write) [.node label ts] := by
  intro l
  have hlabel : preorderAll [.node label ts] = (0, label) :: (preorderAll ts).map further := by
    rw [preorderAll, preorderAll, preorder, List.append_nil]
  show l.node label write = _
  rw [Listing.node, line, h, hlabel, render_cons, render_map_further]
  simp only [Nat.add_zero, Nat.add_sub_cancel, String.append_assoc]

/-- What writes the lines of outlines adds their trees of labels. -/
theorem of_eq_write {os : List Outline}
    (h : ∀ l : Listing, write l = l.write (linesAll l.depth os)) :
    Adds write (os.map Outline.labels) := by
  intro l
  rw [h, Listing.write, linesAll_eq_map_preorderAll, labelsAll_eq_map, render, List.flatMap_map]

theorem of_eq_write_one {o : Outline} (h : ∀ l : Listing, write l = l.write (o.lines l.depth)) :
    Adds write [o.labels] := by
  have hlines : ∀ l : Listing, write l = l.write (linesAll l.depth [o]) := by
    intro l
    rw [h, linesAll, linesAll, List.append_nil]
  have hadds : Adds write ([o].map Outline.labels) := of_eq_write hlines
  rwa [List.map_cons, List.map_nil] at hadds

end Adds

/-- The parts of a program that a listing writes on their own. A block and the arm of a condition
are written under any label. -/
inductive Part where
  | program (p : Program)
  | item (i : Item)
  | func (f : Func)
  | param (p : Param)
  | block (label : String) (body : List Stmt)
  | decl (d : Decl)
  | init (i : Init)
  | assign (a : Assign)
  | target (t : Target)
  | arm (label : String) (condition : Expr) (body : List Stmt)
  | stmt (s : Stmt)
  | call (c : Call)
  | expr (e : Expr)

namespace Part

def list : Part → Listing → Listing
  | program p => p.list
  | item i => i.list
  | func f => f.list
  | param p => p.list
  | block label body => (·.node label (Stmt.lists body))
  | decl d => d.list
  | init i => i.list
  | assign a => a.list
  | target t => t.list
  | arm label condition body => listArm label condition (Stmt.lists body)
  | stmt s => s.list
  | call c => c.expr.list
  | expr e => e.list

def labels : Part → LabelTree
  | program p => p.outline.labels
  | item i => i.outline.labels
  | func f => f.outline.labels
  | param p => p.outline.labels
  | block label body => .node label (body.map (·.outline.labels))
  | decl d => d.outline.labels
  | init i => i.outline.labels
  | assign a => a.outline.labels
  | target t => t.outline.labels
  | arm label condition body =>
    .node label [condition.outline.labels, .node "Then" (body.map (·.outline.labels))]
  | stmt s => s.outline.labels
  | call c => c.expr.outline.labels
  | expr e => e.outline.labels

theorem adds_block (label : String) (body : List Stmt) :
    Adds (·.node label (Stmt.lists body)) [.node label (body.map (·.outline.labels))] := by
  have hbody : Adds (Stmt.lists body) ((body.map Stmt.outline).map Outline.labels) :=
    Adds.of_eq_write (Stmt.lists_eq_write_of fun s _ => s.list_eq_write)
  rw [List.map_map] at hbody
  exact hbody.node label

theorem adds_arm (label : String) (condition : Expr) (body : List Stmt) :
    Adds (listArm label condition (Stmt.lists body))
      [.node label [condition.outline.labels, .node "Then" (body.map (·.outline.labels))]] := by
  have hcondition : Adds condition.list [condition.outline.labels] :=
    Adds.of_eq_write_one condition.list_eq_write
  exact (hcondition.comp (adds_block "Then" body)).node label

/-- Every part is written as its tree of labels. -/
theorem adds_labels (part : Part) : Adds part.list [part.labels] := by
  cases part with
  | program p => exact Adds.of_eq_write_one p.list_eq_write
  | item i => exact Adds.of_eq_write_one i.list_eq_write
  | func f => exact Adds.of_eq_write_one f.list_eq_write
  | param p => exact Adds.of_eq_write_one p.list_eq_write
  | block label body => exact adds_block label body
  | decl d => exact Adds.of_eq_write_one d.list_eq_write
  | init i => exact Adds.of_eq_write_one i.list_eq_write
  | assign a => exact Adds.of_eq_write_one a.list_eq_write
  | target t => exact Adds.of_eq_write_one t.list_eq_write
  | arm label condition body => exact adds_arm label condition body
  | stmt s => exact Adds.of_eq_write_one s.list_eq_write
  | call c => exact Adds.of_eq_write_one c.expr.list_eq_write
  | expr e => exact Adds.of_eq_write_one e.list_eq_write

end Part

/-- The texts of programs that are written onto one listing, one after another. -/
def emitAll : List Program → Listing → List String
  | [], _ => []
  | p :: rest, l => (l.emit p).1 :: emitAll rest (l.emit p).2

/-- The text of a program does not depend on the listing. -/
theorem emit_eq_render (p : Program) (l : Listing) :
    (l.emit p).1 = render 0 p.outline.labels.preorder := by
  have hadds := (Part.program p).adds_labels { l with text := "", depth := 0 }
  show (p.list { l with text := "", depth := 0 }).text = _
  rw [show p.list = (Part.program p).list from rfl, hadds, preorderAll, preorderAll,
    List.append_nil, String.empty_append]
  rfl

example (t : Token) (l : Listing) :
    (l.emit ⟨[.stmt (.ret (.literal t 7))]⟩).1 = "Program\n  Return\n    Literal 7\n" :=
  rfl

theorem emitAll_eq_map (ps : List Program) (l : Listing) :
    l.emitAll ps = ps.map fun p => render 0 p.outline.labels.preorder := by
  induction ps generalizing l with
  | nil => rfl
  | cons p ps ih => rw [emitAll, ih, emit_eq_render, List.map_cons]

/-- Writing refines the preorder. Each part of any program is written as one line for each label
of its tree, in preorder and two blanks further in for each level of distance, behind what stands
already; the depth is restored. One listing writes any programs as so many new listings would. -/
theorem list_refines_preorder :
    (∀ (part : Part) (l : Listing),
      part.list l = ⟨l.text ++ render l.depth part.labels.preorder, l.depth⟩) ∧
    ∀ (ps : List Program) (l : Listing),
      l.emitAll ps = ps.map fun p => (empty.emit p).1 := by
  constructor
  · intro part l
    have hadds := part.adds_labels l
    rwa [preorderAll, preorderAll, List.append_nil] at hadds
  · intro ps l
    have hfresh : ∀ p : Program, (empty.emit p).1 = render 0 p.outline.labels.preorder :=
      fun p => emit_eq_render p empty
    simp only [emitAll_eq_map, hfresh]

end Listing

end Jam
