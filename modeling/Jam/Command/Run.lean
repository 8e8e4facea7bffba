import Jam.Command.Directory
import Jam.Command.Options
import Jam.Compile
import Jam.Format
import Jam.Text.SingleLine
import Jam.Token.Table

/-!
A run reads a source file, parses it and writes the tree in the chosen format. It goes through its
stages in order and ends at the first one that fails; the exit code tells which that was. Nothing
is written before all other stages have succeeded.
-/
namespace Jam

inductive RunError where
  | usage (text : String)
  | inputNotFound (path : String)
  | read (path : String) (reason : FileError)
  | compile (d : Diagnostic)
  | render (reason : String)
  | write (path : String) (reason : FileError)
deriving DecidableEq, Repr

namespace RunError

def exitCode : RunError → Nat
  | usage _ => 64
  | inputNotFound _ => 65
  | read _ _ => 66
  | compile _ => 1
  | render _ => 70
  | write _ _ => 74

/-- Diagnostics quote the source, so they are put on a single line. -/
def message : RunError → String
  | usage text => text
  | inputNotFound path => "input file not found: " ++ path
  | read path reason => "cannot read " ++ path ++ ": " ++ reason.text
  | compile d => Text.singleLine d.text
  | render reason => "JSON serialization failed: " ++ reason
  | write path reason => "cannot write " ++ path ++ ": " ++ reason.text

/-- A file that does not exist is told apart from one that cannot be read. -/
def ofRead (path : String) : FileError → RunError
  | .noSuchFile => inputNotFound path
  | reason => read path reason

end RunError

/-- What a run needs of the system it runs on. -/
structure Host (m : Type → Type) where
  read : String → m (Except FileError String)
  write : String → String → m (Except FileError Unit)
  print : String → m Unit

/-- A line for each format, its name filled up to a common width. -/
def formatList : String :=
  let line (f : Format) : String :=
    "  " ++ f.name ++ String.ofList (List.replicate (6 - f.name.length) ' ') ++ " - " ++
      f.description ++ "\n"
  "Supported formats:\n" ++ String.join (Format.all.map line)

section

variable {m : Type → Type} [Monad m]

/-- What comes after the options have been found usable. -/
def Host.process (host : Host m) (o : Options) (format : Format) (input : String) :
    ExceptT RunError m Unit := do
  let source ← (ExceptT.mk (host.read input)).adapt (RunError.ofRead input)
  host.print ("Parsing " ++ input ++ "\n")
  let tokens ← ExceptT.mk (return (tokenize source).mapError fun e => .compile e.diagnostic)
  if o.tokens then host.print (Token.Table.text tokens ++ "\n")
  let program ←
    ExceptT.mk (return (Program.ofSourceTokens tokens).mapError fun e => .compile e.diagnostic)
  let rendered := format.render program
  if o.print then host.print (rendered ++ "\n")
  let output := o.output.getD format.defaultOutput
  (ExceptT.mk (host.write output rendered)).adapt (RunError.write output)
  host.print ("Wrote " ++ output ++ " (" ++ toString program.items.length ++
    " top-level items)\n")

def Host.run (host : Host m) (o : Options) : ExceptT RunError m Unit :=
  if o.listFormats then host.print formatList
  else
    match Format.ofName? o.format, o.input with
    | none, _ => throw (.usage ("unknown format '" ++ o.format ++ "'"))
    | some _, none => throw (.usage "missing input file")
    | some format, some input => host.process o format input

end

end Jam
