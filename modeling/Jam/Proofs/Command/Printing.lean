import Jam.Proofs.Command.Outcomes
import Jam.Proofs.Command.Switch
import Jam.Proofs.Token.Standing

/-!
The options for printing. What a run prints falls into four parts, of which the table of the tokens
and the rendering of the tree are printed only if they are asked for. Nothing else depends on
whether they are: the run ends in the same way, reports the same and leaves the same directory. Into
which format the tree is rendered makes no difference to how a run ends either, as long as it is
told where to write.
-/
namespace Jam

/-- What a run prints, in order. -/
structure Printout where
  opening : String
  table : String
  rendering : String
  closing : String

namespace Printout

/-- The table and the rendering are printed if they are asked for. -/
def text (s : Printout) (tokens print : Bool) : String :=
  s.opening ++ (if tokens then s.table else "") ++ (if print then s.rendering else "") ++ s.closing

theorem text_of_closing_empty (opening table rendering : String) (tokens print : Bool) :
    text ⟨opening, table, rendering, ""⟩ tokens print =
      opening ++ (if tokens then table else "") ++ if print then rendering else "" :=
  String.append_empty

theorem text_of_rendering_empty (opening table : String) (tokens print : Bool) :
    text ⟨opening, table, "", ""⟩ tokens print = opening ++ if tokens then table else "" := by
  rw [text_of_closing_empty, ite_self, String.append_empty]

theorem text_of_table_empty (opening : String) (tokens print : Bool) :
    text ⟨opening, "", "", ""⟩ tokens print = opening := by
  rw [text_of_rendering_empty, ite_self, String.append_empty]

end Printout

/-- One text is another with a block put into it. -/
def Inserted (block short long : String) : Prop :=
  ∃ before after, short = before ++ after ∧ long = before ++ block ++ after

namespace Printout

theorem inserted_table (s : Printout) (print : Bool) :
    Inserted s.table (s.text false print) (s.text true print) := by
  refine ⟨s.opening, (if print then s.rendering else "") ++ s.closing, ?_, ?_⟩
  · simp [text, String.append_assoc]
  · simp [text, String.append_assoc]

theorem inserted_rendering (s : Printout) (tokens : Bool) :
    Inserted s.rendering (s.text tokens false) (s.text tokens true) := by
  refine ⟨s.opening ++ (if tokens then s.table else ""), s.closing, ?_, ?_⟩
  · simp [text]
  · simp [text]

end Printout

/-- The block that is due, or nothing if none is. -/
structure IsBlock (due : String → Prop) (block : String) : Prop where
  eq_of_due : ∀ b, due b → block = b
  eq_empty : (∀ b, ¬ due b) → block = ""

theorem isBlock_empty {due : String → Prop} (h : ∀ b, ¬ due b) : IsBlock due "" :=
  ⟨fun b hb => absurd hb (h b), fun _ => rfl⟩

theorem isBlock_of_unique {due : String → Prop} {block : String} (h : due block)
    (hunique : ∀ b b', due b → due b' → b = b') : IsBlock due block :=
  ⟨fun b hb => hunique block b h hb, fun hnone => absurd h (hnone block)⟩

namespace Options

variable {o : Options} {d : Directory} {f f' : Format} {input output source source' : String}

/-- The same run, with what it is to print. -/
def printing (o : Options) (tokens print : Bool) : Options := { o with tokens, print }

/-- The same run, with a format and a path to write to. -/
def writing (o : Options) (f : Format) (output : String) : Options :=
  { o with format := f.name, output := some output }

theorem Asks.printing (h : o.Asks f input) (tokens print : Bool) :
    (o.printing tokens print).Asks f input := ⟨h.listFormats, h.format, h.input⟩

theorem Asks.writing (h : (o.writing f output).Asks f' input) (g : Format) :
    (o.writing g output).Asks g input := ⟨h.listFormats, rfl, h.input⟩

/-- A run gets as far as to have read its input. -/
def Reads (o : Options) (d : Directory) (f : Format) (source : String) : Prop :=
  ∃ input, o.Asks f input ∧ d.Holding input source

theorem Reads.unique (h : o.Reads d f source) (h' : o.Reads d f' source') :
    f = f' ∧ source = source' := by
  obtain ⟨input, hasks, hinput⟩ := h
  obtain ⟨input', hasks', hinput'⟩ := h'
  have hformat : some f = some f' := by
    rw [← Format.ofName?_eq_some_iff.mpr hasks.format, Format.ofName?_eq_some_iff.mpr hasks'.format]
  have hsame : input = input' := Option.some.inj (hasks.input.symm.trans hasks'.input)
  subst hsame
  have hread := Directory.read_of_holding hinput
  rw [Directory.read_of_holding hinput'] at hread
  exact ⟨Option.some.inj hformat, (Except.ok.inj hread).symm⟩

theorem Reads.result_unique {ε α : Type} {result : String → Except ε α} {a a' : α}
    (h : o.Reads d f source) (h' : o.Reads d f' source') (ha : result source = .ok a)
    (ha' : result source' = .ok a') : f = f' ∧ a = a' := by
  obtain ⟨rfl, rfl⟩ := h.unique h'
  rw [ha] at ha'
  exact ⟨rfl, Except.ok.inj ha'⟩

/-- The table of the tokens of the input, line breaks included. -/
def Tables (o : Options) (d : Directory) (block : String) : Prop :=
  ∃ f source ts, o.Reads d f source ∧ tokenize source = .ok ts ∧
    block = Token.Table.text ts ++ "\n"

/-- The tree of the input as it is written. -/
def Renders (o : Options) (d : Directory) (block : String) : Prop :=
  ∃ f source p, o.Reads d f source ∧ Program.ofText source = .ok p ∧ block = f.render p ++ "\n"

theorem Tables.unique {b b' : String} (h : o.Tables d b) (h' : o.Tables d b') : b = b' := by
  obtain ⟨f, source, ts, hreads, hscan, rfl⟩ := h
  obtain ⟨f', source', ts', hreads', hscan', rfl⟩ := h'
  obtain ⟨-, rfl⟩ := hreads.result_unique hreads' hscan hscan'
  rfl

theorem Renders.unique {b b' : String} (h : o.Renders d b) (h' : o.Renders d b') : b = b' := by
  obtain ⟨f, source, p, hreads, hparse, rfl⟩ := h
  obtain ⟨f', source', p', hreads', hparse', rfl⟩ := h'
  obtain ⟨rfl, rfl⟩ := hreads.result_unique hreads' hparse hparse'
  rfl

end Options

variable {o : Options} {d : Directory} {out : Outcome}

/-- A run that does not get as far as to scan its input prints nothing that could be asked for. -/
theorem Ends.printing_of_unscanned (h : Ends o d out) (hnone : ∀ b, ¬ o.Tables d b)
    (tokens print : Bool) : Ends (o.printing tokens print) d out := by
  cases h with
  | formatsListed h => exact .formatsListed h
  | unknownFormat h hformat => exact .unknownFormat h hformat
  | missingInput h hformat hinput => exact .missingInput h hformat hinput
  | inputNotFound h hinput => exact .inputNotFound (h.printing tokens print) hinput
  | unreadable h hinput hreason => exact .unreadable (h.printing tokens print) hinput hreason
  | lexicalError h hinput hscan => exact .lexicalError (h.printing tokens print) hinput hscan
  | syntaxError h hinput hscan => exact absurd ⟨_, _, _, ⟨_, h, hinput⟩, hscan, rfl⟩ (hnone _)
  | unwritable h hinput hscan => exact absurd ⟨_, _, _, ⟨_, h, hinput⟩, hscan, rfl⟩ (hnone _)
  | written h hinput hscan => exact absurd ⟨_, _, _, ⟨_, h, hinput⟩, hscan, rfl⟩ (hnone _)

/-- The runs with the same options but for what they are to print end in the same way, and there is
one printout of which each of them prints its parts. -/
structure Printout.Of (s : Printout) (o : Options) (d : Directory) (out : Outcome) : Prop where
  table : IsBlock (o.Tables d) s.table
  rendering : IsBlock (o.Renders d) s.rendering
  ends : ∀ tokens print, Ends (o.printing tokens print) d
    ⟨out.exitCode, s.text tokens print, out.stderr, out.directory⟩

theorem Printout.of_unscanned (h : Ends o d out) (hnone : ∀ b, ¬ o.Tables d b) :
    Printout.Of ⟨out.stdout, "", "", ""⟩ o d out where
  table := isBlock_empty hnone
  rendering := by
    apply isBlock_empty
    rintro b ⟨f, source, p, hreads, hparse, -⟩
    obtain ⟨ts, hscan, -⟩ := Program.ofText_eq_ok_iff.mp hparse
    exact hnone _ ⟨f, source, ts, hreads, hscan, rfl⟩
  ends tokens print := by
    rw [Printout.text_of_table_empty]
    exact h.printing_of_unscanned hnone tokens print

section Scanned

variable {f : Format} {input source : String} {ts : List Token}

theorem Printout.of_syntaxError {e : CompileError} (h : o.Asks f input)
    (hinput : d.Holding input source) (hscan : tokenize source = .ok ts)
    (hparse : Program.ofText source = .error e) :
    Printout.Of ⟨Options.parsing input, Token.Table.text ts ++ "\n", "", ""⟩ o d
      ⟨1, Options.parsing input ++ o.table ts,
        reported (Text.singleLine e.diagnostic.text), d⟩ where
  table := isBlock_of_unique ⟨f, source, ts, ⟨input, h, hinput⟩, hscan, rfl⟩
    fun _ _ => Options.Tables.unique
  rendering := by
    apply isBlock_empty
    rintro b ⟨f', source', p, hreads, hparsed, -⟩
    obtain ⟨-, rfl⟩ := hreads.unique ⟨input, h, hinput⟩
    rw [hparse] at hparsed
    cases hparsed
  ends tokens print := by
    rw [Printout.text_of_rendering_empty]
    exact .syntaxError (h.printing tokens print) hinput hscan hparse

/-- A tree that is found is printed if it is asked for, whether it can be written or not. -/
theorem Printout.of_parsed {p : Program} (closing : String) (h : o.Asks f input)
    (hinput : d.Holding input source) (hscan : tokenize source = .ok ts)
    (hparse : Program.ofText source = .ok p)
    (hends : ∀ tokens print, Ends (o.printing tokens print) d
      ⟨out.exitCode, Options.parsing input ++ (o.printing tokens print).table ts ++
        (o.printing tokens print).rendering f p ++ closing, out.stderr, out.directory⟩) :
    Printout.Of ⟨Options.parsing input, Token.Table.text ts ++ "\n", f.render p ++ "\n", closing⟩
      o d out where
  table := isBlock_of_unique ⟨f, source, ts, ⟨input, h, hinput⟩, hscan, rfl⟩
    fun _ _ => Options.Tables.unique
  rendering := isBlock_of_unique ⟨f, source, p, ⟨input, h, hinput⟩, hparse, rfl⟩
    fun _ _ => Options.Renders.unique
  ends := hends

theorem Printout.exists_of_scanned (h : o.Asks f input) (hinput : d.Holding input source)
    (hscan : tokenize source = .ok ts) : ∃ s out, Ends o d out ∧ Printout.Of s o d out := by
  cases hparse : Program.ofText source with
  | error e =>
    exact ⟨_, _, .syntaxError h hinput hscan hparse, Printout.of_syntaxError h hinput hscan hparse⟩
  | ok p =>
    cases hwrite : d.write (o.target f) (f.render p) with
    | ok d' =>
      obtain ⟨path, hpath⟩ := Directory.taking_of_write hwrite
      refine ⟨_, _, .written h hinput hscan hparse hpath,
        Printout.of_parsed (o.wrote f p) h hinput hscan hparse ?_⟩
      intro tokens print
      exact .written (h.printing tokens print) hinput hscan hparse hpath
    | error reason =>
      have htarget : ∀ path, ¬ d.Taking (o.target f) path := by
        intro path hpath
        rw [Directory.write_of_taking hpath] at hwrite
        cases hwrite
      refine ⟨_, _, .unwritable h hinput hscan hparse htarget hwrite,
        Printout.of_parsed "" h hinput hscan hparse ?_⟩
      intro tokens print
      rw [String.append_empty]
      exact .unwritable (h.printing tokens print) hinput hscan hparse htarget hwrite

end Scanned

/-- A run that is told where to write ends alike in every format, apart from what it prints and
what it writes. -/
theorem Ends.exists_format {f : Format} {output : String} (h : Ends (o.writing f output) d out)
    (g : Format) :
    ∃ other, Ends (o.writing g output) d other ∧ other.exitCode = out.exitCode ∧
      other.stderr = out.stderr := by
  cases h with
  | formatsListed h => exact ⟨_, .formatsListed h, rfl, rfl⟩
  | unknownFormat h hformat => exact absurd rfl (hformat f)
  | missingInput h hformat hinput =>
    exact ⟨_, .missingInput h (f := g) rfl hinput, rfl, rfl⟩
  | inputNotFound h hinput => exact ⟨_, .inputNotFound (h.writing g) hinput, rfl, rfl⟩
  | unreadable h hinput hreason => exact ⟨_, .unreadable (h.writing g) hinput hreason, rfl, rfl⟩
  | lexicalError h hinput hscan => exact ⟨_, .lexicalError (h.writing g) hinput hscan, rfl, rfl⟩
  | syntaxError h hinput hscan hparse =>
    exact ⟨_, .syntaxError (h.writing g) hinput hscan hparse, rfl, rfl⟩
  | unwritable h hinput hscan hparse htarget hreason =>
    exact ⟨_, .unwritable (h.writing g) hinput hscan hparse htarget
      (Directory.write_eq_error hreason _), rfl, rfl⟩
  | written h hinput hscan hparse htarget =>
    exact ⟨_, .written (h.writing g) hinput hscan hparse htarget, rfl, rfl⟩

namespace Outcome

theorem exists_printout (o : Options) (d : Directory) :
    ∃ s : Printout, s.Of o d (ofOptions o d) := by
  by_cases hscanned : ∃ b, o.Tables d b
  · obtain ⟨b, f, source, ts, ⟨input, h, hinput⟩, hscan, -⟩ := hscanned
    obtain ⟨s, out, hends, hs⟩ := Printout.exists_of_scanned h hinput hscan
    rw [hends.eq]
    exact ⟨s, hs⟩
  · have hends : Ends o d (ofOptions o d) := ofOptions_eq_iff.mp rfl
    exact ⟨_, Printout.of_unscanned hends fun b hb => hscanned ⟨b, hb⟩⟩

theorem ofOptions_format (o : Options) (d : Directory) (f g : Format) (output : String) :
    (ofOptions (o.writing g output) d).exitCode = (ofOptions (o.writing f output) d).exitCode ∧
      (ofOptions (o.writing g output) d).stderr = (ofOptions (o.writing f output) d).stderr := by
  obtain ⟨other, hends, hcode, hstderr⟩ := (ofOptions_eq_iff.mp rfl : Ends _ d _).exists_format g
  rw [hends.eq]
  exact ⟨hcode, hstderr⟩

/-- On the command line, what is to be printed is asked for by a switch that may stand in front of
everything else. -/
theorem ofArguments_printing {args : List String} {o : Options}
    (h : Options.ofArguments args = .ok o) (d : Directory) :
    ofArguments args d = ofOptions o d ∧
      (o.tokens = false →
        ofArguments ("--tokens" :: args) d = ofOptions (o.printing true o.print) d) ∧
      (o.print = false →
        ofArguments ("--print" :: args) d = ofOptions (o.printing o.tokens true) d) := by
  refine ⟨?_, fun hoff => ?_, fun hoff => ?_⟩
  · unfold ofArguments
    rw [h]
  · unfold ofArguments
    rw [Options.ofArguments_cons .tokens h hoff]
    rfl
  · unfold ofArguments
    rw [Options.ofArguments_cons .print h hoff]
    rfl

/-- What is to be printed does not interfere with a run: it puts at most the table and the rendering
into the standard output, each in one place. Nor does the format, to what the exit code and the
standard error say. -/
theorem ofOptions_printing (o : Options) (d : Directory) :
    (∀ tokens print,
      (ofOptions (o.printing tokens print) d).exitCode = (ofOptions o d).exitCode ∧
        (ofOptions (o.printing tokens print) d).stderr = (ofOptions o d).stderr ∧
          (ofOptions (o.printing tokens print) d).directory = (ofOptions o d).directory) ∧
      (∃ block, IsBlock (o.Tables d) block ∧ ∀ print,
        Inserted block (ofOptions (o.printing false print) d).stdout
          (ofOptions (o.printing true print) d).stdout) ∧
      (∃ block, IsBlock (o.Renders d) block ∧ ∀ tokens,
        Inserted block (ofOptions (o.printing tokens false) d).stdout
          (ofOptions (o.printing tokens true) d).stdout) ∧
      ∀ f g output,
        (ofOptions (o.writing g output) d).exitCode = (ofOptions (o.writing f output) d).exitCode ∧
          (ofOptions (o.writing g output) d).stderr =
            (ofOptions (o.writing f output) d).stderr := by
  obtain ⟨s, hs⟩ := exists_printout o d
  have hout (tokens print : Bool) := (hs.ends tokens print).eq
  refine ⟨fun tokens print => ?_, ⟨s.table, hs.table, fun print => ?_⟩,
    ⟨s.rendering, hs.rendering, fun tokens => ?_⟩, ofOptions_format o d⟩
  · rw [hout]
    exact ⟨rfl, rfl, rfl⟩
  · rw [hout, hout]
    exact s.inserted_table print
  · rw [hout, hout]
    exact s.inserted_rendering tokens

theorem ofOptions_printing_empty :
    let o : Options := ⟨some "a.jam", false, false, "json", some "b", false⟩
    let d : Directory := .plant .fresh "a.jam" (.file "".toUTF8)
    let table := Token.Table.text [.endOfInput (.point 1 1)] ++ "\n"
    Options.ofArguments ["a.jam", "-o", "b"] = .ok o ∧ o.Tables d table ∧
      Inserted table (ofArguments ["a.jam", "-o", "b"] d).stdout
        (ofArguments ["--tokens", "a.jam", "-o", "b"] d).stdout := by
  intro o d table
  have hargs : Options.ofArguments ["a.jam", "-o", "b"] = .ok o := rfl
  have hscan : tokenize "" = .ok [.endOfInput (.point 1 1)] := by decide
  have htable : o.Tables d table :=
    ⟨.json, "", _, ⟨"a.jam", ⟨rfl, rfl, rfl⟩, ⟨["work"], "a.jam", rfl, by decide, rfl⟩⟩, hscan, rfl⟩
  obtain ⟨-, ⟨block, hblock, hinserted⟩, -, -⟩ := ofOptions_printing o d
  obtain rfl := hblock.eq_of_due table htable
  obtain ⟨hplain, htokens, -⟩ := ofArguments_printing hargs d
  rw [hplain, htokens rfl]
  exact ⟨hargs, htable, hinserted false⟩

end Outcome
end Jam
