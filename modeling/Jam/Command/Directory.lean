/-!
Files and folders, and how a path written as text is followed among them. Names are separated by
slashes; a dot stands for the folder itself and two dots for the one above it. Names and paths have
a limited length, counted in bytes.
-/
namespace Jam

inductive FileError where
  | noSuchFile
  | notAFolder
  | isAFolder
  /-- Said of a single name as well as of a whole path. -/
  | nameTooLong
  | notText
  /-- Any other reason, in the words of the system. -/
  | other (text : String)
deriving DecidableEq, Repr

def FileError.text : FileError → String
  | noSuchFile => "No such file or directory (os error 2)"
  | notAFolder => "Not a directory (os error 20)"
  | isAFolder => "Is a directory (os error 21)"
  | nameTooLong => "File name too long (os error 36)"
  | notText => "stream did not contain valid UTF-8"
  | other text => text

/-- A path from the root, as the list of its names. -/
abbrev Path := List String

inductive Entry where
  | file (bytes : ByteArray)
  | folder

structure Directory where
  entries : List (Path × Entry)
  /-- The working folder, where paths begin that do not begin at the root. -/
  home : Path

/-- Where a path leads: to a folder it goes through, or to a name in a folder. The name is
followed by a slash if it has to be a folder. -/
inductive Spot where
  | folder
  | name (folder : Path) (name : String) (slash : Bool)
deriving DecidableEq, Repr

namespace Directory

/-- The root is a folder, whatever the entries are. -/
def entry? (d : Directory) (p : Path) : Option Entry :=
  if p.isEmpty then some .folder else d.entries.lookup p

/-- Replaces what stands at a path. -/
def put (d : Directory) (p : Path) (e : Entry) : Directory :=
  { d with entries := (p, e) :: d.entries.filter (·.1 != p) }

/-- The most bytes that a name has. -/
def nameLimit : Nat := 255

/-- The most bytes that the text of a path has. -/
def pathLimit : Nat := 4095

/-- Looks a name up in a folder. A longer name than there can be is refused, not missing. -/
def find? (d : Directory) (folder : Path) (name : String) : Except FileError (Option Entry) :=
  if nameLimit < name.utf8ByteSize then .error .nameTooLong
  else .ok (d.entry? (folder ++ [name]))

/-- Goes from a folder to another one by one name of a path. -/
def enter (d : Directory) (folder : Path) (name : String) : Except FileError Path := do
  if name = "" || name = "." then return folder
  else if name = ".." then return folder.dropLast
  else
    match ← d.find? folder name with
    | some .folder => return folder ++ [name]
    | some (.file _) => throw .notAFolder
    | none => throw .noSuchFile

/-- The parts of a path between its slashes. -/
def names (text : String) : List String := (text.toList.splitOn '/').map String.ofList

/-- Follows a path up to its last name, which is not looked up. The empty path leads nowhere, and a
path over the limit is refused before any of its names is looked at. -/
def locate (d : Directory) (text : String) : Except FileError Spot := do
  if text.isEmpty then throw .noSuchFile
  if pathLimit < text.utf8ByteSize then throw .nameTooLong
  let parts := names text
  let solid := (parts.reverse.dropWhile (·.isEmpty)).reverse
  let start := if text.toList.head? = some '/' then [] else d.home
  let folder ← solid.dropLast.foldlM d.enter start
  match solid.getLast? with
  | none => return .folder
  | some last =>
    if last = "." || last = ".." then return .folder
    else return .name folder last (solid.length < parts.length)

/-- The text of the file at a path. -/
def read (d : Directory) (text : String) : Except FileError String := do
  match ← d.locate text with
  | .folder => throw .isAFolder
  | .name folder name slash =>
    match ← d.find? folder name with
    | none => throw .noSuchFile
    | some .folder => throw .isAFolder
    | some (.file bytes) =>
      if slash then throw .notAFolder
      else
        match String.fromUTF8? bytes with
        | some s => return s
        | none => throw .notText

/-- Makes a text the whole content of the file at a path. The folder of the file has to exist. A
path that ends in a slash can only mean a folder, so its last name is not looked up. -/
def write (d : Directory) (text content : String) : Except FileError Directory := do
  match ← d.locate text with
  | .folder => throw .isAFolder
  | .name folder name slash =>
    if slash then throw .isAFolder
    match ← d.find? folder name with
    | some .folder => throw .isAFolder
    | _ => return d.put (folder ++ [name]) (.file content.toUTF8)

/-- Puts an entry at a path below the working folder, and folders where they are missing. -/
def plant (d : Directory) (text : String) (e : Entry) : Directory :=
  let path := d.home ++ (names text).filter fun name => name != "" && name != "."
  let folders := (List.range path.length).map path.take
  (folders.foldl (fun d p => d.put p .folder) d).put path e

/-- An empty working folder. -/
def fresh : Directory := ⟨[(["work"], .folder)], ["work"]⟩

/-- Whether there is a file with exactly these bytes at a path. -/
def holds (d : Directory) (p : Path) (bytes : ByteArray) : Bool :=
  match d.entry? p with
  | some (.file present) => present.data == bytes.data
  | _ => false

/-- The files below the working folder that are new or have other bytes than before, with their
texts, in the order of their paths. -/
def changedSince (d before : Directory) : List (String × String) :=
  let changed := d.entries.filterMap fun (p, e) =>
    match e with
    | .folder => none
    | .file bytes =>
      if d.home.isPrefixOf p && !before.holds p bytes then
        (String.fromUTF8? bytes).map fun s =>
          (String.intercalate "/" (p.drop d.home.length), s)
      else none
  changed.mergeSort fun a b => a.1 ≤ b.1

end Directory
end Jam
