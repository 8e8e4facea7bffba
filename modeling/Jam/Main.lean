import Jam.Command.Help
import Jam.Command.Run

/-!
The command on the machine it runs on.
-/
namespace Jam

/-- The reason for which the system refused. Codes may come with either sign. -/
def FileError.ofSystem (e : IO.Error) : FileError :=
  let coded (code : UInt32) (details : String) : FileError :=
    let code := if code < 0x80000000 then code else -code
    if code = 2 then .noSuchFile
    else if code = 20 then .notAFolder
    else if code = 21 then .isAFolder
    else if code = 36 then .nameTooLong
    else .other (details.capitalize ++ " (os error " ++ toString code ++ ")")
  match e with
  | .noFileOrDirectory _ code details => coded code details
  | .inappropriateType _ code details => coded code details
  | .permissionDenied _ code details => coded code details
  | .invalidArgument _ code details => coded code details
  | .resourceExhausted _ code details => coded code details
  | .alreadyExists _ code details => coded code details
  | .noSuchThing _ code details => coded code details
  | .resourceBusy code details => coded code details
  | .hardwareFault code details => coded code details
  | .unsupportedOperation code details => coded code details
  | .otherError code details => coded code details
  | e => .other (toString e)

def systemHost : Host IO where
  read path := do
    match ← (IO.FS.readBinFile path).toBaseIO with
    | .ok bytes => return (String.fromUTF8? bytes).elim (.error .notText) .ok
    | .error e => return .error (.ofSystem e)
  write path content := do
    match ← (IO.FS.writeFile path content).toBaseIO with
    | .ok () => return .ok ()
    | .error e => return .error (.ofSystem e)
  print text := IO.print text

end Jam

def main (args : List String) : IO UInt32 := do
  match Jam.Options.ofArguments args with
  | .error stop =>
    match stop with
    | .help => IO.print Jam.helpText
    | .version => IO.print Jam.versionText
    | .fault f => IO.eprintln ("error: " ++ f.message)
    return UInt32.ofNat stop.exitCode
  | .ok options =>
    match ← (Jam.systemHost.run options).run with
    | .ok () => return 0
    | .error e =>
      IO.eprintln ("error: " ++ e.message)
      return UInt32.ofNat e.exitCode
