/-!
The options of a run and how they are read from the arguments of the command.

An option takes its value from its own argument or from the next one, provided that does not look
like an option itself. A value that stands in an argument of its own is settled late: only when the
next argument has its say, or at the end, is it looked at. So a fault of the next argument's
spelling is found before a fault of the value.
-/
namespace Jam

structure Options where
  input : Option String
  tokens : Bool
  print : Bool
  format : String
  output : Option String
  listFormats : Bool
deriving DecidableEq, Repr

inductive ArgumentFault where
  /-- An option that does not exist, or a second input. -/
  | unknownArgument
  /-- Something that may be given once is given again. -/
  | argumentConflict
  /-- A value for an option that takes none. -/
  | tooManyValues
  /-- No value for an option that takes one, or an empty path. -/
  | invalidValue
  | missingInput
deriving DecidableEq, Repr

def ArgumentFault.message : ArgumentFault → String
  | unknownArgument => "unexpected argument"
  | argumentConflict => "an argument cannot be used more than once"
  | tooManyValues => "unexpected value for an option that takes none"
  | invalidValue => "an option or the input lacks its value"
  | missingInput => "the input file was not provided"

/-- What ends the reading of arguments before a run. -/
inductive Stop where
  | help
  | version
  | fault (f : ArgumentFault)
deriving DecidableEq, Repr

/-- To be told what was asked for is a success. -/
def Stop.exitCode : Stop → Nat
  | help | version => 0
  | fault _ => 64

namespace Options

/-- What takes a value. -/
inductive Slot where
  | input
  | format
  | output
deriving DecidableEq, Repr

inductive Switch where
  | tokens
  | print
  | listFormats
  | help
  | version
deriving DecidableEq, Repr

/-- What has been settled so far. -/
structure Given where
  input : Option String
  format : Option String
  output : Option String
  tokens : Bool
  print : Bool
  listFormats : Bool
deriving DecidableEq, Repr

namespace Given

def nothing : Given := ⟨none, none, none, false, false, false⟩

def has (g : Given) : Slot → Bool
  | .input => g.input.isSome
  | .format => g.format.isSome
  | .output => g.output.isSome

def set (g : Given) (value : String) : Slot → Given
  | .input => { g with input := some value }
  | .format => { g with format := some value }
  | .output => { g with output := some value }

/-- Settles a value, or the lack of one. A path may not be empty. -/
def settle (g : Given) (slot : Slot) (value : Option String) : Except Stop Given :=
  match value with
  | none => .error (.fault .invalidValue)
  | some v =>
    if g.has slot then .error (.fault .argumentConflict)
    else if v.isEmpty && slot != .format then .error (.fault .invalidValue)
    else .ok (g.set v slot)

def turnOn (g : Given) : Switch → Except Stop Given
  | .help => .error .help
  | .version => .error .version
  | .tokens =>
    if g.tokens then .error (.fault .argumentConflict) else .ok { g with tokens := true }
  | .print =>
    if g.print then .error (.fault .argumentConflict) else .ok { g with print := true }
  | .listFormats =>
    if g.listFormats then .error (.fault .argumentConflict)
    else .ok { g with listFormats := true }

end Given

/-- The arguments read so far: what is settled, and what still waits to be settled. -/
structure Reading where
  given : Given
  pending : Option (Slot × Option String)
deriving DecidableEq, Repr

namespace Reading

def settled (r : Reading) : Except Stop Given :=
  match r.pending with
  | none => .ok r.given
  | some (slot, value) => r.given.settle slot value

def turnOn (r : Reading) (s : Switch) : Except Stop Reading := do
  let g ← r.settled
  return ⟨← g.turnOn s, none⟩

/-- An option with a value in the same argument. -/
def attach (r : Reading) (slot : Slot) (value : String) : Except Stop Reading := do
  let g ← r.settled
  return ⟨← g.settle slot (some value), none⟩

/-- An option, or the input, with what is known of its value. -/
def await (r : Reading) (slot : Slot) (value : Option String) : Except Stop Reading := do
  return ⟨← r.settled, some (slot, value)⟩

/-- An argument that is no option. There is one input. -/
def positional (r : Reading) (value : String) : Except Stop Reading :=
  if r.given.input.isSome || r.pending.any (·.1 = .input) then .error (.fault .unknownArgument)
  else r.await .input (some value)

def longSlot? : String → Option Slot
  | "format" => some .format
  | "output" => some .output
  | _ => none

def longSwitch? : String → Option Switch
  | "tokens" => some .tokens
  | "print" => some .print
  | "list-formats" => some .listFormats
  | "help" => some .help
  | "version" => some .version
  | _ => none

/-- An argument after two dashes: a name, and after an equals sign a value. -/
def long (r : Reading) (text : List Char) : Except Stop Reading :=
  let name := String.ofList (text.takeWhile (· != '='))
  let value :=
    match text.dropWhile (· != '=') with
    | [] => none
    | _ :: v => some (String.ofList v)
  match longSlot? name, longSwitch? name, value with
  | some slot, _, some v => r.attach slot v
  | some slot, _, none => r.await slot none
  | none, some _, some _ => .error (.fault .tooManyValues)
  | none, some s, none => r.turnOn s
  | none, none, _ => .error (.fault .unknownArgument)

def shortSlot? : Char → Option Slot
  | 'f' => some .format
  | 'o' => some .output
  | _ => none

def shortSwitch? : Char → Option Switch
  | 'h' => some .help
  | 'V' => some .version
  | _ => none

/-- The letters after one dash. A letter that takes a value takes the letters after it, without a
leading equals sign. -/
def short (r : Reading) : List Char → Except Stop Reading
  | [] => .ok r
  | c :: rest =>
    match shortSlot? c, shortSwitch? c, rest with
    | some slot, _, [] => r.await slot none
    | some slot, _, '=' :: v => r.attach slot (String.ofList v)
    | some slot, _, v => r.attach slot (String.ofList v)
    | none, some s, _ => do short (← r.turnOn s) rest
    | none, none, _ => .error (.fault .unknownArgument)

/-- One argument before the two dashes that make all others positional. -/
def argument (r : Reading) (a : String) : Except Stop Reading :=
  match a.toList with
  | '-' :: '-' :: text => r.long text
  | '-' :: c :: letters => r.short (c :: letters)
  | _ =>
    match r.pending with
    | some (slot, none) => .ok { r with pending := some (slot, some a) }
    | _ => r.positional a

def arguments (r : Reading) : List String → Except Stop Reading
  | [] => .ok r
  | a :: rest =>
    if a = "--" then rest.foldlM positional r
    else do arguments (← r.argument a) rest

end Reading

/-- Reads the arguments of the command. Without an input there is only the list of formats to be
had. -/
def ofArguments (args : List String) : Except Stop Options := do
  let r ← Reading.arguments ⟨.nothing, none⟩ args
  let g ← r.settled
  if g.input.isNone && !g.listFormats then throw (.fault .missingInput)
  return ⟨g.input, g.tokens, g.print, g.format.getD "json", g.output, g.listFormats⟩

end Options
end Jam
