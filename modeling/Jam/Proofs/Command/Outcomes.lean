import Jam.Command.Session
import Jam.Proofs.Command.Stored

/-!
How a run ends. Its stages come one after another, and the first one that fails gives the exit code
and the message; what the stages before it have to print is printed. The directory is only changed
when all stages have succeeded, and then at one path.
-/
namespace Jam

theorem Format.ofName?_eq_some_iff {text : String} {f : Format} :
    Format.ofName? text = some f ↔ f.name = text := by
  constructor
  · intro h
    simpa using List.find?_some h
  · rintro rfl
    cases f <;> rfl

theorem Program.ofText_of_scan {source : String} {ts : List Token} (h : tokenize source = .ok ts) :
    Program.ofText source = Program.ofSourceTokens ts := by
  rw [Program.ofText, h]
  rfl

namespace Options

/-- A run that parses an input and writes it in a format. -/
structure Asks (o : Options) (format : Format) (input : String) : Prop where
  listFormats : o.listFormats = false
  format : format.name = o.format
  input : o.input = some input

def target (o : Options) (f : Format) : String := o.output.getD f.defaultOutput

/-- What is printed before the input is scanned. -/
def parsing (input : String) : String := "Parsing " ++ input ++ "\n"

/-- The table of all tokens, line breaks included, if it is asked for. -/
def table (o : Options) (ts : List Token) : String :=
  if o.tokens then Token.Table.text ts ++ "\n" else ""

/-- The tree as it is written, if it is to be printed as well. -/
def rendering (o : Options) (f : Format) (p : Program) : String :=
  if o.print then f.render p ++ "\n" else ""

def wrote (o : Options) (f : Format) (p : Program) : String :=
  "Wrote " ++ o.target f ++ " (" ++ toString p.items.length ++ " top-level items)\n"

end Options

/-- A message as it is reported, on a line of its own. -/
def reported (message : String) : Option String := some ("error: " ++ message ++ "\n")

/-- The ways in which a run on a directory can end. -/
inductive Ends (o : Options) (d : Directory) : Outcome → Prop
  | formatsListed (h : o.listFormats = true) : Ends o d ⟨0, formatList, some "", d⟩
  | unknownFormat (h : o.listFormats = false) (hformat : ∀ f : Format, f.name ≠ o.format) :
      Ends o d ⟨64, "", reported ("unknown format '" ++ o.format ++ "'"), d⟩
  | missingInput {f : Format} (h : o.listFormats = false) (hformat : f.name = o.format)
      (hinput : o.input = none) : Ends o d ⟨64, "", reported "missing input file", d⟩
  | inputNotFound {f : Format} {input : String} (h : o.Asks f input) (hinput : d.Lacking input) :
      Ends o d ⟨65, "", reported ("input file not found: " ++ input), d⟩
  | unreadable {f : Format} {input : String} {reason : FileError} (h : o.Asks f input)
      (hinput : ¬ d.Lacking input) (hreason : d.read input = .error reason) :
      Ends o d ⟨66, "", reported ("cannot read " ++ input ++ ": " ++ reason.text), d⟩
  | lexicalError {f : Format} {input source : String} {e : LexicalError} (h : o.Asks f input)
      (hinput : d.Holding input source) (hscan : tokenize source = .error e) :
      Ends o d ⟨1, Options.parsing input,
        reported (Text.singleLine e.diagnostic.text), d⟩
  | syntaxError {f : Format} {input source : String} {ts : List Token} {e : CompileError}
      (h : o.Asks f input) (hinput : d.Holding input source) (hscan : tokenize source = .ok ts)
      (hparse : Program.ofText source = .error e) :
      Ends o d ⟨1, Options.parsing input ++ o.table ts,
        reported (Text.singleLine e.diagnostic.text), d⟩
  | unwritable {f : Format} {input source : String} {ts : List Token} {p : Program}
      {reason : FileError} (h : o.Asks f input) (hinput : d.Holding input source)
      (hscan : tokenize source = .ok ts) (hparse : Program.ofText source = .ok p)
      (htarget : ∀ path, ¬ d.Taking (o.target f) path)
      (hreason : d.write (o.target f) (f.render p) = .error reason) :
      Ends o d ⟨74, Options.parsing input ++ o.table ts ++ o.rendering f p,
        reported ("cannot write " ++ o.target f ++ ": " ++ reason.text), d⟩
  | written {f : Format} {input source : String} {ts : List Token} {p : Program} {path : Path}
      (h : o.Asks f input) (hinput : d.Holding input source) (hscan : tokenize source = .ok ts)
      (hparse : Program.ofText source = .ok p) (htarget : d.Taking (o.target f) path) :
      Ends o d ⟨0, Options.parsing input ++ o.table ts ++ o.rendering f p ++ o.wrote f p, some "",
        d.put path (.file (f.render p).toUTF8)⟩

namespace Session

variable {α β : Type} {s : Session}

/-- What is computed from a session, and the session that is left. -/
def after (s : Session) (x : ExceptT RunError (StateM Session) α) : Except RunError α × Session :=
  x.run.run s

theorem after_bind (x : ExceptT RunError (StateM Session) α)
    (f : α → ExceptT RunError (StateM Session) β) :
    s.after (x >>= f) = match s.after x with
      | (.ok a, s') => s'.after (f a)
      | (.error e, s') => (.error e, s') := by
  unfold after
  show StateT.run (ExceptT.run x >>= ExceptT.bindCont f) s = _
  rw [StateT.run_bind]
  cases x.run.run s with
  | mk result s' => cases result <;> rfl

theorem after_result {ε : Type} (result : Except ε α) (f : ε → RunError) :
    s.after (ExceptT.mk (pure (result.mapError f))) = match result with
      | .ok a => (.ok a, s)
      | .error e => (.error (f e), s) := by
  cases result with
  | ok a => rfl
  | error e => rfl

theorem after_read (input : String) :
    s.after ((ExceptT.mk (host.read input)).adapt (RunError.ofRead input)) =
      match s.directory.read input with
      | .ok source => (.ok source, s)
      | .error reason => (.error (.ofRead input reason), s) := by
  change s.after (ExceptT.mk (pure ((s.directory.read input).mapError (RunError.ofRead input)))) = _
  cases s.directory.read input with
  | ok source => rfl
  | error reason => rfl

theorem after_print (text : String) : s.after (liftM (host.print text)) =
    (.ok (), ⟨s.directory, s.printed ++ text⟩) := rfl

/-- A text that is only printed if it is asked for. -/
theorem after_print_if (asked : Bool) (text : String) (x : ExceptT RunError (StateM Session) α) :
    s.after (if asked = true then do liftM (host.print text); x else x) =
      (Session.mk s.directory (s.printed ++ if asked then text else "")).after x := by
  cases asked with
  | true =>
    rw [if_pos rfl, after_bind, after_print]
    rfl
  | false => simp

theorem run_write (output content : String) :
    (host.write output content).run s = match s.directory.write output content with
      | .ok d => (.ok (), ⟨d, s.printed⟩)
      | .error reason => (.error reason, s) := by
  unfold host
  cases h : s.directory.write output content with
  | ok d =>
    simp [h]
    rfl
  | error reason =>
    simp [h]
    rfl

theorem after_write (output content : String) :
    s.after ((ExceptT.mk (host.write output content)).adapt (RunError.write output)) =
      match s.directory.write output content with
      | .ok d => (.ok (), ⟨d, s.printed⟩)
      | .error reason => (.error (.write output reason), s) := by
  have hrun : s.after ((ExceptT.mk (host.write output content)).adapt (RunError.write output)) =
      (((host.write output content).run s).1.mapError (RunError.write output),
        ((host.write output content).run s).2) := rfl
  rw [hrun, run_write]
  cases s.directory.write output content with
  | ok d => rfl
  | error reason => rfl

end Session

variable {o : Options} {d : Directory} {out : Outcome}

/-- The stages of a run, each with what has been printed before it. -/
theorem Session.after_process (f : Format) (input : String) :
    (Session.mk d "").after (host.process o f input) = match d.read input with
      | .error reason => (.error (.ofRead input reason), ⟨d, ""⟩)
      | .ok source => match tokenize source with
        | .error e => (.error (.compile e.diagnostic), ⟨d, Options.parsing input⟩)
        | .ok ts => match Program.ofSourceTokens ts with
          | .error e => (.error (.compile e.diagnostic), ⟨d, Options.parsing input ++ o.table ts⟩)
          | .ok p => match d.write (o.target f) (f.render p) with
            | .error reason => (.error (.write (o.target f) reason),
                ⟨d, Options.parsing input ++ o.table ts ++ o.rendering f p⟩)
            | .ok d' => (.ok (),
                ⟨d', Options.parsing input ++ o.table ts ++ o.rendering f p ++ o.wrote f p⟩) := by
  unfold Host.process
  simp only [after_bind, after_read]
  cases d.read input with
  | error reason => rfl
  | ok source =>
    simp only [after_print, after_result, String.empty_append]
    cases tokenize source with
    | error e => rfl
    | ok ts =>
      simp only [after_print_if, after_bind, after_result]
      cases Program.ofSourceTokens ts with
      | error e => rfl
      | ok p =>
        simp only [after_write, Options.target]
        cases d.write (o.output.getD f.defaultOutput) (f.render p) with
        | error reason => rfl
        | ok d' => rfl

namespace Outcome

theorem ofOptions_of_asks {f : Format} {input : String} (h : o.Asks f input) :
    ofOptions o d = match (Session.mk d "").after (Session.host.process o f input) with
      | (.ok (), s) => ⟨0, s.printed, some "", s.directory⟩
      | (.error e, s) =>
        ⟨e.exitCode, s.printed, reported e.message, s.directory⟩ := by
  unfold ofOptions Host.run
  rw [h.listFormats, h.input, Format.ofName?_eq_some_iff.mpr h.format]
  rfl

end Outcome

theorem Ends.eq (h : Ends o d out) : Outcome.ofOptions o d = out := by
  cases h with
  | formatsListed h =>
    unfold Outcome.ofOptions Host.run
    rw [if_pos h]
    rfl
  | unknownFormat h hformat =>
    have hnone : Format.ofName? o.format = none := by
      refine Option.eq_none_iff_forall_ne_some.mpr fun f hf => ?_
      exact hformat f (Format.ofName?_eq_some_iff.mp hf)
    unfold Outcome.ofOptions Host.run
    rw [h, hnone]
    rfl
  | missingInput h hformat hinput =>
    unfold Outcome.ofOptions Host.run
    rw [h, hinput, Format.ofName?_eq_some_iff.mpr hformat]
    rfl
  | inputNotFound h hinput =>
    rw [Outcome.ofOptions_of_asks h, Session.after_process, Directory.read_of_lacking hinput]
    rfl
  | @unreadable f input reason h hinput hreason =>
    have hother : RunError.ofRead input reason = .read input reason := by
      cases reason with
      | noSuchFile => exact absurd (Directory.lacking_of_read hreason) hinput
      | _ => rfl
    rw [Outcome.ofOptions_of_asks h, Session.after_process, hreason]
    simp only [hother]
    rfl
  | lexicalError h hinput hscan =>
    rw [Outcome.ofOptions_of_asks h, Session.after_process, Directory.read_of_holding hinput]
    simp only [hscan]
    rfl
  | syntaxError h hinput hscan hparse =>
    rw [Program.ofText_of_scan hscan] at hparse
    rw [Outcome.ofOptions_of_asks h, Session.after_process, Directory.read_of_holding hinput]
    simp only [hscan, hparse]
    rfl
  | unwritable h hinput hscan hparse _ hreason =>
    rw [Program.ofText_of_scan hscan] at hparse
    rw [Outcome.ofOptions_of_asks h, Session.after_process, Directory.read_of_holding hinput]
    simp only [hscan, hparse, hreason]
    rfl
  | written h hinput hscan hparse htarget =>
    rw [Program.ofText_of_scan hscan] at hparse
    rw [Outcome.ofOptions_of_asks h, Session.after_process, Directory.read_of_holding hinput]
    simp only [hscan, hparse, Directory.write_of_taking htarget]

/-- Every run ends in one of the ways. -/
theorem exists_ends (o : Options) (d : Directory) : ∃ out, Ends o d out := by
  cases hlist : o.listFormats with
  | true => exact ⟨_, .formatsListed hlist⟩
  | false =>
    by_cases hformat : ∃ f : Format, f.name = o.format
    · obtain ⟨f, hf⟩ := hformat
      cases hinput : o.input with
      | none => exact ⟨_, .missingInput hlist hf hinput⟩
      | some input =>
        have h : o.Asks f input := ⟨hlist, hf, hinput⟩
        rcases d.read_cases input with ⟨source, hsource⟩ | hlacking | ⟨reason, hreason, hread⟩
        · cases hscan : tokenize source with
          | error e => exact ⟨_, .lexicalError h hsource hscan⟩
          | ok ts =>
            cases hparse : Program.ofText source with
            | error e => exact ⟨_, .syntaxError h hsource hscan hparse⟩
            | ok p =>
              cases hwrite : d.write (o.target f) (f.render p) with
              | ok d' =>
                obtain ⟨path, hpath⟩ := Directory.taking_of_write hwrite
                exact ⟨_, .written h hsource hscan hparse hpath⟩
              | error reason =>
                refine ⟨_, .unwritable h hsource hscan hparse (fun path hpath => ?_) hwrite⟩
                rw [Directory.write_of_taking hpath] at hwrite
                cases hwrite
        · exact ⟨_, .inputNotFound h hlacking⟩
        · refine ⟨_, .unreadable h (fun hlacking => hreason ?_) hread⟩
          rw [Directory.read_of_lacking hlacking] at hread
          cases hread
          rfl
    · exact ⟨_, .unknownFormat hlist fun f hf => hformat ⟨f, hf⟩⟩

namespace Outcome

/-- The way in which a run ends is the only one in which it can end. -/
theorem ofOptions_eq_iff : ofOptions o d = out ↔ Ends o d out := by
  constructor
  · rintro rfl
    obtain ⟨out, hout⟩ := exists_ends o d
    rwa [hout.eq]
  · exact Ends.eq

end Outcome

namespace Ends

/-- A run that fails leaves the directory as it was. -/
theorem directory_eq (h : Ends o d out) (hcode : out.exitCode ≠ 0) : out.directory = d := by
  cases h with
  | written => exact absurd rfl hcode
  | _ => rfl

/-- A run that succeeds has put the tree at the path to which it writes, and has changed nothing
else. -/
theorem exists_written (h : Ends o d out) (hrun : o.listFormats = false)
    (hcode : out.exitCode = 0) :
    ∃ f input source p path, o.Asks f input ∧ d.Holding input source ∧
      Program.ofText source = .ok p ∧ d.Taking (o.target f) path ∧
        out.directory.read (o.target f) = .ok (f.render p) ∧ out.directory.home = d.home ∧
          ∀ q, out.directory.entry? q =
            if q = path then some (.file (f.render p).toUTF8) else d.entry? q := by
  cases h with
  | formatsListed hlist =>
    rw [hrun] at hlist
    cases hlist
  | @written f input source ts p path hasks hinput hscan hparse htarget =>
    have hpath : path ≠ [] := by
      obtain ⟨folder, name, -, -, rfl, -⟩ := htarget
      simp
    exact ⟨f, input, source, p, path, hasks, hinput, hparse, htarget,
      Directory.read_of_write htarget, rfl, fun q => Directory.lookup_put hpath _ q⟩
  | _ => cases hcode

end Ends

namespace Outcome

/-- A run ends at its first stage that fails, with the exit code and the message of that stage and
with what the stages before it print. It writes one file or nothing. What it writes is the text of
the JSON value of the program, or the listing of the program as a fresh listing has it. -/
theorem ofOptions_all_or_nothing (o : Options) (d : Directory) :
    (∀ out, ofOptions o d = out ↔ Ends o d out) ∧
      ((ofOptions o d).exitCode ≠ 0 → (ofOptions o d).directory = d) ∧
      (o.listFormats = true → (ofOptions o d).exitCode = 0 ∧ (ofOptions o d).directory = d) ∧
      (o.listFormats = false → (ofOptions o d).exitCode = 0 →
        ∃ f input source p path, o.Asks f input ∧ d.Holding input source ∧
          Program.ofText source = .ok p ∧ d.Taking (o.target f) path ∧
            (ofOptions o d).directory.read (o.target f) = .ok (f.render p) ∧
              (ofOptions o d).directory.home = d.home ∧
                ∀ q, Directory.entry? (ofOptions o d).directory q =
                  if q = path then some (.file (f.render p).toUTF8) else d.entry? q) ∧
      ∀ p : Program, Format.json.render p = p.json.text ∧
        Format.tree.render p = (Listing.empty.emit p).1 := by
  have hends : Ends o d (ofOptions o d) := ofOptions_eq_iff.mp rfl
  refine ⟨fun _ => ofOptions_eq_iff, hends.directory_eq, ?_, hends.exists_written,
    fun p => ⟨Format.render_json p, Format.render_tree p⟩⟩
  intro hlist
  rw [(Ends.formatsListed hlist).eq]
  exact ⟨rfl, rfl⟩

end Outcome
end Jam
