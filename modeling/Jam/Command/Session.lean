import Jam.Command.Help
import Jam.Command.Run

/-!
The whole command on a directory: what it prints, what it says went wrong, the exit code and the
directory it leaves.
-/
namespace Jam

/-- A directory, and what has been printed. -/
structure Session where
  directory : Directory
  printed : String

namespace Session

def host : Host (StateM Session) where
  read path := do return (← get).directory.read path
  write path content := do
    match (← get).directory.write path content with
    | .ok directory =>
      modify ({ · with directory })
      return .ok ()
    | .error e => return .error e
  print text := modify fun s => { s with printed := s.printed ++ text }

end Session

structure Outcome where
  exitCode : Nat
  stdout : String
  /-- Left open if the arguments already ended the command. -/
  stderr : Option String
  directory : Directory

namespace Outcome

/-- The outcome of a run with given options. -/
def ofOptions (o : Options) (d : Directory) : Outcome :=
  match ((Session.host.run o).run).run ⟨d, ""⟩ with
  | (.ok (), s) => ⟨0, s.printed, some "", s.directory⟩
  | (.error e, s) =>
    ⟨e.exitCode, s.printed, some ("error: " ++ e.message ++ "\n"), s.directory⟩

def ofArguments (args : List String) (d : Directory) : Outcome :=
  match Options.ofArguments args with
  | .ok o => ofOptions o d
  | .error stop =>
    let text :=
      match stop with
      | .help => helpText
      | .version => versionText
      | .fault _ => ""
    ⟨stop.exitCode, text, none, d⟩

end Outcome
end Jam
