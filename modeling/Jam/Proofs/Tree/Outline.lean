import Jam.Proofs.Tree.Induction
import Jam.Tree.Listing

/-!
The outline of a tree, apart from the way in which it is written. An outline is a tree of labels;
it is written from the top, one line for each label, and a line is the further in the deeper its
label is. A listing writes just the outline of each node, from the depth at which it stands, and
comes back to that depth.
-/
namespace Jam

/-- The word with which a line begins. -/
inductive Heading where
  | program | funcDef | param | body
  | varDecl | dims | init | list
  | ret | assign | target | callStmt
  | branch | arm | then_ | orIf | else_
  | for_ | from_ | to_ | forClassic | while_
  | literal | ident | index | group | call | binary
deriving DecidableEq, Repr

def Heading.word : Heading → String
  | program => "Program"
  | funcDef => "FuncDef"
  | param => "Param"
  | body => "Body"
  | varDecl => "VarDecl"
  | dims => "Dims"
  | init => "Init"
  | list => "List"
  | ret => "Return"
  | assign => "Assign"
  | target => "Target"
  | callStmt => "CallStmt"
  | branch => "If"
  | arm => "Arm"
  | then_ => "Then"
  | orIf => "OrIf"
  | else_ => "Else"
  | for_ => "For"
  | from_ => "From"
  | to_ => "To"
  | forClassic => "ForClassic"
  | while_ => "While"
  | literal => "Literal"
  | ident => "Ident"
  | index => "Index"
  | group => "Group"
  | call => "Call"
  | binary => "Binary"

/-- A label is a heading, with a detail behind a blank if there is one. -/
inductive Outline where
  | node (heading : Heading) (detail : Option String) (parts : List Outline)

namespace Outline

def label (heading : Heading) (detail : Option String) : String :=
  detail.elim heading.word (heading.word ++ " " ++ ·)

/-- A detail of two parts with a separator between them. -/
theorem label_pair (heading : Heading) (first sep second : String) :
    heading.word ++ " " ++ first ++ sep ++ second =
      label heading (some (first ++ sep ++ second)) := by
  simp only [label, Option.elim_some, String.append_assoc]

mutual

/-- The labels from the top, each with its depth. -/
def lines (depth : Nat) : Outline → List (Nat × String)
  | node heading detail parts => (depth, label heading detail) :: linesAll (depth + 1) parts

def linesAll (depth : Nat) : List Outline → List (Nat × String)
  | [] => []
  | o :: rest => o.lines depth ++ linesAll depth rest

end

theorem linesAll_append (depth : Nat) (os others : List Outline) :
    linesAll depth (os ++ others) = linesAll depth os ++ linesAll depth others := by
  induction os with
  | nil => rfl
  | cons o os ih => rw [List.cons_append, linesAll, linesAll, ih, List.append_assoc]

/-- The characters of a line: two blanks for each level, the label and a line feed. -/
def lineText (line : Nat × String) : List Char :=
  List.replicate (2 * line.1) ' ' ++ (line.2.toList ++ ['\n'])

end Outline

open Outline

mutual

def Expr.outline : Expr → Outline
  | .literal _ value => .node .literal (some (toString value)) []
  | .name t => .node .ident (some t.lexeme) []
  | .element t indices => .node .index (some t.lexeme) (Expr.outlines indices)
  | .group inner => .node .group none [inner.outline]
  | .call _ callee args => .node .call (some callee.lexeme) (Expr.outlines args)
  | .binary left op right => .node .binary (some op.lexeme) [left.outline, right.outline]

def Expr.outlines : List Expr → List Outline
  | [] => []
  | e :: rest => e.outline :: Expr.outlines rest

end

mutual

def Init.outline : Init → Outline
  | .value e => e.outline
  | .braces items => .node .list none (Init.outlines items)

def Init.outlines : List Init → List Outline
  | [] => []
  | i :: rest => i.outline :: Init.outlines rest

end

/-- The names of a declaration behind its type. -/
def Decl.detail (d : Decl) : String :=
  d.type.label ++ " " ++ String.intercalate ", " (d.names.map (·.lexeme))

def Decl.outline (d : Decl) : Outline :=
  .node .varDecl (some d.detail)
    ((if d.dims.isEmpty then [] else [.node .dims none (d.dims.map Expr.outline)]) ++
      d.init.toList.map fun i => .node .init none [i.outline])

def Target.outline (t : Target) : Outline :=
  .node .target (some t.name.lexeme) (t.indices.map Expr.outline)

def Assign.outline (a : Assign) : Outline := .node .assign none [a.value.outline, a.target.outline]

/-- A block that is carried out under a condition. -/
def armOutline (heading : Heading) (condition : Expr) (body : List Outline) : Outline :=
  .node heading none [condition.outline, .node .then_ none body]

mutual

def Stmt.outline : Stmt → Outline
  | .declare d => d.outline
  | .ret value => .node .ret none [value.outline]
  | .assign a => a.outline
  | .call c => .node .callStmt none [c.expr.outline]
  | .branch condition body tail =>
    .node .branch none (armOutline .arm condition (Stmt.outlines body) :: tail.outlines)
  | .rangeLoop var start stop body =>
    .node .for_ (some var.lexeme) [.node .from_ none [start.outline],
      .node .to_ none [stop.outline], .node .body none (Stmt.outlines body)]
  | .stepLoop init condition step body =>
    .node .forClassic none
      [init.outline, condition.outline, step.outline, .node .body none (Stmt.outlines body)]
  | .whileLoop condition body =>
    .node .while_ none [condition.outline, .node .body none (Stmt.outlines body)]

def Stmt.outlines : List Stmt → List Outline
  | [] => []
  | s :: rest => s.outline :: Stmt.outlines rest

def Tail.outlines : Tail → List Outline
  | .nothing => []
  | .otherwise body => [.node .else_ none (Stmt.outlines body)]
  | .orIf condition body tail => armOutline .orIf condition (Stmt.outlines body) :: tail.outlines

end

def Param.outline (p : Param) : Outline :=
  .node .param (some (p.name.lexeme ++ ": " ++ p.type.label)) []

def Func.outline (f : Func) : Outline :=
  .node .funcDef (some (f.name.lexeme ++ " -> " ++ f.returns.label))
    (f.params.map Param.outline ++ [.node .body none (f.body.map Stmt.outline)])

def Item.outline : Item → Outline
  | .declare d => d.outline
  | .stmt s => s.outline
  | .func f => f.outline

def Program.outline (p : Program) : Outline := .node .program none (p.items.map Item.outline)

theorem Expr.outlines_eq_map (es : List Expr) : Expr.outlines es = es.map Expr.outline := by
  induction es with
  | nil => rfl
  | cons e es ih => rw [Expr.outlines, List.map_cons, ih]

theorem Init.outlines_eq_map (is : List Init) : Init.outlines is = is.map Init.outline := by
  induction is with
  | nil => rfl
  | cons i is ih => rw [Init.outlines, List.map_cons, ih]

theorem Stmt.outlines_eq_map (ss : List Stmt) : Stmt.outlines ss = ss.map Stmt.outline := by
  induction ss with
  | nil => rfl
  | cons s ss ih => rw [Stmt.outlines, List.map_cons, ih]

namespace Listing

/-- The listing with lines added to its text. -/
def write (lines : List (Nat × String)) (l : Listing) : Listing :=
  { l with text := l.text ++ String.ofList (lines.flatMap lineText) }

@[simp]
theorem depth_write (lines : List (Nat × String)) (l : Listing) : (l.write lines).depth = l.depth :=
  rfl

@[simp]
theorem write_nil (l : Listing) : l.write [] = l := by
  simp [write]

@[simp]
theorem write_write (lines others : List (Nat × String)) (l : Listing) :
    (l.write lines).write others = l.write (lines ++ others) := by
  simp [write, String.append_assoc, String.ofList_append]

theorem line_eq_write (label : String) (l : Listing) :
    l.line label = l.write [(l.depth, label)] := by
  simp [line, write, lineText, String.append_assoc, String.ofList_append]

/-- A node is its own line and its parts, one level further in. -/
theorem node_eq_write (heading : Heading) (detail : Option String) {parts : Listing → Listing}
    {os : List Outline} (hparts : ∀ l : Listing, parts l = l.write (linesAll l.depth os))
    (l : Listing) :
    l.node (Outline.label heading detail) parts =
      l.write ((Outline.node heading detail os).lines l.depth) := by
  rw [node, line_eq_write, hparts, lines]
  simp [write, String.append_assoc, String.ofList_append]

/-- What is written piece by piece is one outline after another. -/
theorem foldl_eq_write {α : Type} {as : List α} {f : α → Listing → Listing} {outline : α → Outline}
    (h : ∀ a ∈ as, ∀ l : Listing, f a l = l.write ((outline a).lines l.depth)) (l : Listing) :
    as.foldl (fun l a => f a l) l = l.write (linesAll l.depth (as.map outline)) := by
  induction as generalizing l with
  | nil => simp [linesAll]
  | cons a as ih =>
    rw [List.forall_mem_cons] at h
    rw [List.foldl_cons, h.1, ih h.2, write_write, depth_write, List.map_cons, linesAll]

end Listing

open Listing

theorem Expr.lists_eq_foldl (es : List Expr) (l : Listing) :
    Expr.lists es l = es.foldl (fun l e => e.list l) l := by
  induction es generalizing l with
  | nil => rfl
  | cons e es ih => rw [Expr.lists, ih, List.foldl_cons]

theorem Init.lists_eq_foldl (is : List Init) (l : Listing) :
    Init.lists is l = is.foldl (fun l i => i.list l) l := by
  induction is generalizing l with
  | nil => rfl
  | cons i is ih => rw [Init.lists, ih, List.foldl_cons]

theorem Stmt.lists_eq_foldl (ss : List Stmt) (l : Listing) :
    Stmt.lists ss l = ss.foldl (fun l s => s.list l) l := by
  induction ss generalizing l with
  | nil => rfl
  | cons s ss ih => rw [Stmt.lists, ih, List.foldl_cons]

theorem Expr.list_eq_write (e : Expr) (l : Listing) :
    e.list l = l.write (e.outline.lines l.depth) := by
  induction e using Expr.induction generalizing l with
  | literal t value =>
    rw [list, outline, lines, linesAll, line_eq_write]
    rfl
  | name t =>
    rw [list, outline, lines, linesAll, line_eq_write]
    rfl
  | element t indices ih =>
    rw [list, outline, outlines_eq_map]
    refine node_eq_write .index (some t.lexeme) (fun l => ?_) l
    rw [lists_eq_foldl, foldl_eq_write ih]
  | group inner ih =>
    rw [list, outline]
    refine node_eq_write .group none (fun l => ?_) l
    simp [ih, linesAll]
  | call word callee args ih =>
    rw [list, outline, outlines_eq_map]
    refine node_eq_write .call (some callee.lexeme) (fun l => ?_) l
    rw [lists_eq_foldl, foldl_eq_write ih]
  | binary left op right ihleft ihright =>
    rw [list, outline]
    refine node_eq_write .binary (some op.lexeme) (fun l => ?_) l
    simp [ihleft, ihright, linesAll]

theorem Expr.lists_eq_write (es : List Expr) (l : Listing) :
    Expr.lists es l = l.write (linesAll l.depth (es.map Expr.outline)) := by
  rw [lists_eq_foldl, foldl_eq_write fun e _ => e.list_eq_write]

theorem Init.list_eq_write (i : Init) (l : Listing) :
    i.list l = l.write (i.outline.lines l.depth) := by
  induction i using Init.induction generalizing l with
  | value e => exact e.list_eq_write l
  | braces items ih =>
    rw [list, outline, outlines_eq_map]
    refine node_eq_write .list none (fun l => ?_) l
    rw [lists_eq_foldl, foldl_eq_write ih]

theorem Decl.label_eq (d : Decl) : d.label = Outline.label .varDecl (some d.detail) :=
  label_pair .varDecl _ _ _

theorem Decl.list_eq_write (d : Decl) (l : Listing) :
    d.list l = l.write (d.outline.lines l.depth) := by
  rw [list, outline, label_eq]
  refine node_eq_write .varDecl (some d.detail) (fun l => ?_) l
  have hdims : ∀ l : Listing, l.node "Dims" (Expr.lists d.dims) =
      l.write ((Outline.node .dims none (d.dims.map Expr.outline)).lines l.depth) :=
    node_eq_write .dims none (Expr.lists_eq_write d.dims)
  have hinit : ∀ (i : Init) (l : Listing), l.node "Init" i.list =
      l.write ((Outline.node .init none [i.outline]).lines l.depth) := by
    intro i
    refine node_eq_write .init none fun l => ?_
    simp [i.list_eq_write, linesAll]
  rw [linesAll_append]
  by_cases hempty : d.dims.isEmpty = true
  · cases d.init <;> simp [hempty, hinit, linesAll]
  · cases d.init <;> simp [hempty, hdims, hinit, linesAll]

theorem Target.list_eq_write (t : Target) (l : Listing) :
    t.list l = l.write (t.outline.lines l.depth) :=
  node_eq_write .target (some t.name.lexeme) (Expr.lists_eq_write t.indices) l

theorem Assign.list_eq_write (a : Assign) (l : Listing) :
    a.list l = l.write (a.outline.lines l.depth) := by
  rw [list, outline]
  refine node_eq_write .assign none (fun l => ?_) l
  simp [Expr.list_eq_write, Target.list_eq_write, linesAll]

/-- The statements of a block, each of which is written as its outline. -/
theorem Stmt.lists_eq_write_of {body : List Stmt}
    (h : ∀ s ∈ body, ∀ l : Listing, s.list l = l.write (s.outline.lines l.depth)) (l : Listing) :
    Stmt.lists body l = l.write (linesAll l.depth (body.map Stmt.outline)) := by
  rw [lists_eq_foldl, foldl_eq_write h]

theorem blockOutline_eq_write {label : String} {heading : Heading} {body : List Stmt}
    (hlabel : label = heading.word)
    (h : ∀ s ∈ body, ∀ l : Listing, s.list l = l.write (s.outline.lines l.depth)) (l : Listing) :
    l.node label (Stmt.lists body) =
      l.write ((Outline.node heading none (body.map Stmt.outline)).lines l.depth) := by
  subst hlabel
  exact node_eq_write heading none (Stmt.lists_eq_write_of h) l

theorem listArm_eq_write {label : String} {heading : Heading} {body : List Stmt}
    (hlabel : label = heading.word) (condition : Expr)
    (h : ∀ s ∈ body, ∀ l : Listing, s.list l = l.write (s.outline.lines l.depth)) (l : Listing) :
    listArm label condition (Stmt.lists body) l =
      l.write ((armOutline heading condition (body.map Stmt.outline)).lines l.depth) := by
  subst hlabel
  refine node_eq_write heading none (fun l => ?_) l
  have hthen := blockOutline_eq_write (show "Then" = Heading.then_.word from rfl) h
  rw [hthen]
  simp [Expr.list_eq_write, linesAll]

/-- The arms of a tail are written in order, and its last block at the end. -/
theorem Tail.list_eq_write_of {tail : Tail}
    (harms : ∀ arm ∈ tail.arms, ∀ s ∈ arm.2, ∀ l : Listing,
      s.list l = l.write (s.outline.lines l.depth))
    (hlast : ∀ body ∈ tail.last, ∀ s ∈ body, ∀ l : Listing,
      s.list l = l.write (s.outline.lines l.depth)) (l : Listing) :
    tail.list l = l.write (linesAll l.depth tail.outlines) := by
  cases tail with
  | nothing => simp [list, outlines, linesAll]
  | otherwise body =>
    have hbody := blockOutline_eq_write (show "Else" = Heading.else_.word from rfl) (hlast body rfl)
    simp [list, outlines, Stmt.outlines_eq_map, linesAll, hbody]
  | orIf condition body tail =>
    rw [arms, List.forall_mem_cons] at harms
    have harm := listArm_eq_write (show "OrIf" = Heading.orIf.word from rfl) condition harms.1
    rw [list, harm, list_eq_write_of harms.2 hlast, outlines, linesAll, Stmt.outlines_eq_map]
    simp

theorem Stmt.list_eq_write (s : Stmt) (l : Listing) :
    s.list l = l.write (s.outline.lines l.depth) := by
  induction s using Stmt.induction generalizing l with
  | declare d => exact d.list_eq_write l
  | ret value =>
    rw [list, outline]
    refine node_eq_write .ret none (fun l => ?_) l
    simp [Expr.list_eq_write, linesAll]
  | assign a => exact a.list_eq_write l
  | call c =>
    rw [list, outline]
    refine node_eq_write .callStmt none (fun l => ?_) l
    simp [Expr.list_eq_write, linesAll]
  | branch condition body tail ihbody iharms ihlast =>
    rw [list, outline, outlines_eq_map]
    refine node_eq_write .branch none (fun l => ?_) l
    have harm := listArm_eq_write (show "Arm" = Heading.arm.word from rfl) condition ihbody
    rw [harm, Tail.list_eq_write_of iharms ihlast, linesAll]
    simp
  | rangeLoop var start stop body ih =>
    rw [list, outline, outlines_eq_map]
    refine node_eq_write .for_ (some var.lexeme) (fun l => ?_) l
    have hfrom : ∀ l : Listing, l.node "From" start.list =
        l.write ((Outline.node .from_ none [start.outline]).lines l.depth) := by
      refine node_eq_write .from_ none fun l => ?_
      simp [Expr.list_eq_write, linesAll]
    have hto : ∀ l : Listing, l.node "To" stop.list =
        l.write ((Outline.node .to_ none [stop.outline]).lines l.depth) := by
      refine node_eq_write .to_ none fun l => ?_
      simp [Expr.list_eq_write, linesAll]
    have hbody := blockOutline_eq_write (show "Body" = Heading.body.word from rfl) ih
    simp [hfrom, hto, hbody, linesAll]
  | stepLoop init condition step body ih =>
    rw [list, outline, outlines_eq_map]
    refine node_eq_write .forClassic none (fun l => ?_) l
    have hbody := blockOutline_eq_write (show "Body" = Heading.body.word from rfl) ih
    simp [Decl.list_eq_write, Expr.list_eq_write, Assign.list_eq_write, hbody, linesAll]
  | whileLoop condition body ih =>
    rw [list, outline, outlines_eq_map]
    refine node_eq_write .while_ none (fun l => ?_) l
    have hbody := blockOutline_eq_write (show "Body" = Heading.body.word from rfl) ih
    simp [Expr.list_eq_write, hbody, linesAll]

theorem Param.list_eq_write (p : Param) (l : Listing) :
    p.list l = l.write (p.outline.lines l.depth) := by
  rw [list, outline, lines, linesAll, line_eq_write, ← label_pair]
  rfl

theorem Func.list_eq_write (f : Func) (l : Listing) :
    f.list l = l.write (f.outline.lines l.depth) := by
  have hlabel : "FuncDef " ++ f.name.lexeme ++ " -> " ++ f.returns.label =
      Outline.label .funcDef (some (f.name.lexeme ++ " -> " ++ f.returns.label)) :=
    label_pair .funcDef _ _ _
  rw [list, outline, hlabel]
  refine node_eq_write .funcDef _ (fun l => ?_) l
  have hbody := blockOutline_eq_write (show "Body" = Heading.body.word from rfl)
    fun s (_ : s ∈ f.body) => s.list_eq_write
  rw [foldl_eq_write fun p _ => p.list_eq_write, hbody, linesAll_append]
  simp [linesAll]

theorem Item.list_eq_write (i : Item) (l : Listing) :
    i.list l = l.write (i.outline.lines l.depth) := by
  cases i with
  | declare d => exact d.list_eq_write l
  | stmt s => exact s.list_eq_write l
  | func f => exact f.list_eq_write l

/-- Whatever has been written before stays, and the outline of the program is added to it. -/
theorem Program.list_eq_write (p : Program) (l : Listing) :
    p.list l = l.write (p.outline.lines l.depth) := by
  rw [list, outline]
  refine node_eq_write .program none (fun l => ?_) l
  exact foldl_eq_write (fun i _ => i.list_eq_write) l

/-- A listing that is cleared tells nothing of what was written before. -/
theorem Listing.emit_text (p : Program) (l : Listing) :
    (l.emit p).1 = String.ofList ((p.outline.lines 0).flatMap lineText) := by
  rw [emit, p.list_eq_write]
  simp [write]

end Jam
