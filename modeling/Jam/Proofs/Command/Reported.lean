import Jam.Proofs.Command.Outcomes
import Jam.Proofs.Diagnosed
import Jam.Proofs.Text.SingleLine

/-!
How a fault of the source is reported. Its diagnostic is put on a single line, from which it can be
read back. So a report has one line whatever the source quoted in it, and two reports are the same
just if the diagnostics are.
-/
namespace Jam

open Text

/-- A run comes upon a source that spells no program. -/
def Options.Meets (o : Options) (d : Directory) (e : CompileError) : Prop :=
  ∃ f input source, o.Asks f input ∧ d.Holding input source ∧ Program.ofText source = .error e

/-- What is reported of a fault of the source. -/
def CompileError.message (e : CompileError) : String := (RunError.compile e.diagnostic).message

namespace CompileError

variable {e e' : CompileError}

theorem readLine?_message (e : CompileError) :
    readLine? e.message.toList = some e.diagnostic.text.toList :=
  readLine?_singleLine e.diagnostic.text

theorem not_mem_message (e : CompileError) {x : Char} (hx : x ∈ controls) : x ∉ e.message.toList :=
  not_mem_singleLine hx e.diagnostic.text

theorem message_eq_iff : e.message = e'.message ↔ e.diagnostic.text = e'.diagnostic.text :=
  singleLine_injective.eq_iff

end CompileError

theorem reported_injective : Function.Injective reported := by
  intro s t h
  unfold reported at h
  simpa using h

/-- Whether the source is faulty in its lexemes or in its syntax, the run ends there. -/
theorem Options.Meets.ends {o : Options} {d : Directory} {e : CompileError} (h : o.Meets d e) :
    ∃ printed, Ends o d ⟨1, printed, reported e.message, d⟩ := by
  obtain ⟨f, input, source, hasks, hinput, herror⟩ := h
  rcases Program.cases_of_ofText_error herror with ⟨fault, rfl, hscan⟩ | ⟨fault, ts, rfl, hscan, -⟩
  · exact ⟨_, .lexicalError hasks hinput hscan⟩
  · exact ⟨_, .syntaxError hasks hinput hscan herror⟩

namespace Outcome

theorem ofOptions_of_meets {o : Options} {d : Directory} {e : CompileError} (h : o.Meets d e) :
    (ofOptions o d).exitCode = 1 ∧ (ofOptions o d).stderr = reported e.message := by
  obtain ⟨printed, hends⟩ := h.ends
  rw [hends.eq]
  exact ⟨rfl, rfl⟩

end Outcome

/-- Messages on a single line lose nothing: they are free of line breaks and tabs, and reading them
gives back what was written and nothing else. In this way every fault of a source is reported, and
different diagnostics differently. -/
theorem singleLine_legible :
    (∀ m : String, (∀ x ∈ controls, x ∉ (singleLine m).toList) ∧
        ∀ line, readLine? line = some m.toList ↔ line = (singleLine m).toList) ∧
      Function.Injective singleLine ∧
      (∀ e : CompileError, (∀ x ∈ controls, x ∉ e.message.toList) ∧
        readLine? e.message.toList = some e.diagnostic.text.toList) ∧
      (∀ (o : Options) (d : Directory) (e : CompileError), o.Meets d e →
        (Outcome.ofOptions o d).stderr = reported e.message) ∧
      ∀ (o o' : Options) (d d' : Directory) (e e' : CompileError), o.Meets d e → o'.Meets d' e' →
        ((Outcome.ofOptions o d).stderr = (Outcome.ofOptions o' d').stderr ↔
          e.diagnostic.text = e'.diagnostic.text) := by
  refine ⟨?_, singleLine_injective, ?_, ?_, ?_⟩
  · intro m
    refine ⟨fun x hx => not_mem_singleLine hx m, fun line => ?_⟩
    rw [readLine?_eq_some_iff, singleLine, String.toList_ofList]
  · intro e
    exact ⟨fun x hx => e.not_mem_message hx, e.readLine?_message⟩
  · intro o d e h
    exact (Outcome.ofOptions_of_meets h).2
  · intro o o' d d' e e' h h'
    rw [(Outcome.ofOptions_of_meets h).2, (Outcome.ofOptions_of_meets h').2,
      reported_injective.eq_iff, CompileError.message_eq_iff]

theorem singleLine_legible_backslash :
    let o : Options := ⟨some "a.jam", false, false, "json", none, false⟩
    let d : Directory := .plant .fresh "a.jam" (.file "\\".toUTF8)
    let e : CompileError := .lexical ⟨.unrecognizedCharacter, "\\", 1, 1⟩
    o.Meets d e ∧
      e.message = "Lexer error at 1:1: unrecognized character near '\\\\'" ∧
      (Outcome.ofOptions o d).stderr = reported e.message ∧
      readLine? e.message.toList = some e.diagnostic.text.toList := by
  intro o d e
  have hscan : tokenize "\\" = .error ⟨.unrecognizedCharacter, "\\", 1, 1⟩ := by decide
  have herror : Program.ofText "\\" = .error e := by
    rw [Program.ofText, hscan]
    rfl
  have hmeets : o.Meets d e :=
    ⟨.json, "a.jam", "\\", ⟨rfl, rfl, rfl⟩, ⟨["work"], "a.jam", rfl, by decide, rfl⟩, herror⟩
  obtain ⟨-, -, hmessage, hstderr, -⟩ := singleLine_legible
  exact ⟨hmeets, by decide, hstderr o d e hmeets, (hmessage e).2⟩

end Jam
