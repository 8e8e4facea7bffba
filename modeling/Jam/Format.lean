import Jam.Json.Text
import Jam.Tree.Json
import Jam.Tree.Listing

/-!
The output formats. Each has a name, by which it is asked for, a description, and the file to which
it is written if no other is named.
-/
namespace Jam

inductive Format where
  | json
  | tree
deriving DecidableEq, Repr

namespace Format

def all : List Format := [json, tree]

def name : Format → String
  | json => "json"
  | tree => "tree"

def description : Format → String
  | json => "pretty-printed JSON syntax tree"
  | tree => "indented plain-text syntax tree"

def defaultOutput : Format → String
  | json => "ast.json"
  | tree => "ast.txt"

/-- The format with exactly this name. -/
def ofName? (text : String) : Option Format := all.find? (·.name == text)

end Format

/-- A renderer writes one program after another in its format. -/
structure Renderer where
  format : Format
  listing : Listing
deriving DecidableEq, Repr

namespace Renderer

def ofFormat (f : Format) : Renderer := ⟨f, .empty⟩

def emit (r : Renderer) (p : Program) : String × Renderer :=
  match r.format with
  | .json => (p.json.text, r)
  | .tree =>
    let (text, listing) := r.listing.emit p
    (text, { r with listing })

end Renderer

/-- A program written by a fresh renderer. -/
def Format.render (f : Format) (p : Program) : String := ((Renderer.ofFormat f).emit p).1

theorem Format.render_json (p : Program) : render .json p = p.json.text := rfl

theorem Format.render_tree (p : Program) : render .tree p = (Listing.empty.emit p).1 := rfl

end Jam
