import Jam.Proofs.Diagnosed
import Jam.Proofs.Grammar.Guarded

/-!
What is never reported. The classes of tokens by which the rules of the grammar are chosen agree
with the tokens by which these rules begin, so no rule misses the token that has led to it. Every
number that is scanned has a value, so no number of a text is at fault for lacking one.
-/
namespace Jam

namespace SyntaxFault

/-- The messages for a first token by which a rule is never entered. -/
def guardedMessages : List String :=
  ["expected statement", "expected 'func'", "expected 'return'", "expected 'call'",
    "expected 'if'", "expected 'for'", "expected 'while'", "expected loop variable"]

/-- The guarded faults have messages of their own. -/
theorem message_mem_iff_isGuarded (fault : SyntaxFault) :
    fault.message ∈ guardedMessages ↔ fault.isGuarded = true := by
  cases fault <;> decide

theorem message_eq_typeName_iff (fault : SyntaxFault) :
    fault.message = "expected type name" ↔ fault = .typeName := by
  cases fault <;> decide

theorem message_eq_numberValue_iff (fault : SyntaxFault) :
    fault.message = "integer literal without a value" ↔ fault = .numberValue := by
  cases fault <;> decide

end SyntaxFault

theorem Text.Spells.literal_ne_none {word : List Char} {literal : Option Int}
    (h : Spells word .number literal) : literal ≠ none := by
  cases h with
  | number hne hdigits => exact Option.some_ne_none _

/-- A number that was scanned has a value. -/
theorem literal_ne_none_of_tokenize {source : String} {ts : List Token}
    (h : tokenize source = .ok ts) {t : Token} (ht : t ∈ ts) (hkind : t.kind = .number) :
    t.literal ≠ none := by
  have hstands := standsIn_of_tokenize h ht (by simp [hkind]) (by simp [hkind])
  have hspelled := hstands.spelled
  rw [hkind] at hspelled
  exact hspelled.literal_ne_none

namespace Program

open Grammar Jam.Parser

/-- A guarded fault is never reported, whatever the tokens are. -/
theorem message_of_ofTokens_error {ts : List Token} {e : SyntaxError}
    (h : ofTokens ts = .error e) : e.diagnostic.message ∉ SyntaxFault.guardedMessages := by
  have hguarded := (due_of_ofTokens_error h).1
  intro hmem
  rw [(SyntaxFault.message_mem_iff_isGuarded e.fault).mp hmem] at hguarded
  cases hguarded

theorem typeName_of_declaration_error {ts : List Token} {f : Failure}
    (hts : StartsIn typeWords ts) (h : declaration ts = .error f)
    (hmessage : f.fault.message = "expected type name") :
    ∃ t, ts = t :: f.rest ∧ t.kind = .keyword .array := by
  rcases blames_declaration_of_startsIn hts ts rfl f h with hf | hf
  · exact absurd ((SyntaxFault.message_eq_typeName_iff _).mp hmessage) hf.typed
  · exact hf.behind

/-- No text has a number without a value. -/
theorem message_of_ofText_error {source : String} {e : CompileError}
    (h : ofText source = .error e) : e.diagnostic.message ≠ "integer literal without a value" := by
  rcases cases_of_ofText_error h with ⟨f, rfl, -⟩ | ⟨f, ts, rfl, hts, hparsed⟩
  · show f.fault.message ≠ _
    cases f.fault <;> decide
  · intro hmessage
    have hfault := (SyntaxFault.message_eq_numberValue_iff f.fault).mp hmessage
    obtain ⟨t, hfound, hkind, hliteral⟩ := (due_of_ofTokens_error hparsed).2 hfault
    rcases found_of_ofTokens_error hparsed with ⟨hnone, -⟩ | ⟨u, hu, hu', -⟩
    · rw [hfound] at hnone
      cases hnone
    · rw [hfound] at hu'
      cases hu'
      have hmem := (List.takeWhile_sublist _).mem hu
      exact literal_ne_none_of_tokenize hts (List.mem_of_mem_filter hmem) hkind hliteral

/-- Rules are chosen by the tokens with which they begin. So the faults for another first token
are never reported; in a declaration that is entered by a word of a type, such a word is missing
only behind `array`; and no number of a text is without a value. -/
theorem chosen_rules_begin :
    (∀ (ts : List Token) (e : SyntaxError), ofTokens ts = .error e →
      e.diagnostic.message ∉ SyntaxFault.guardedMessages) ∧
    (∀ (ts : List Token) (f : Failure), StartsIn typeWords ts → declaration ts = .error f →
      f.fault.message = "expected type name" →
        ∃ t, ts = t :: f.rest ∧ t.kind = .keyword .array) ∧
    ∀ (source : String) (e : CompileError), ofText source = .error e →
      e.diagnostic.message ≠ "integer literal without a value" :=
  ⟨fun _ _ h => message_of_ofTokens_error h,
    fun _ _ hts h hmessage => typeName_of_declaration_error hts h hmessage,
    fun _ _ h => message_of_ofText_error h⟩

theorem chosen_rules_begin_array :
    let array : Token := ⟨.keyword .array, "array", none, ⟨1, 1, 5⟩⟩
    let x : Token := ⟨.name, "x", none, ⟨1, 7, 7⟩⟩
    let e : SyntaxError := ⟨.typeName, some x, 1, 7⟩
    ofTokens [array, x] = .error e ∧
      e.diagnostic.message ∉ SyntaxFault.guardedMessages ∧
      declaration [array, x] = .error ⟨.typeName, [x]⟩ ∧
      (∃ t, [array, x] = t :: [x] ∧ t.kind = .keyword .array) ∧
      ofText "array x" = .error (.syntactic e) ∧
      (CompileError.syntactic e).diagnostic.message ≠ "integer literal without a value" := by
  intro array x e
  have htokens : ofTokens [array, x] = .error e := rfl
  have hdeclaration : declaration [array, x] = .error ⟨.typeName, [x]⟩ := rfl
  have hscan : tokenize "array x" = .ok [array, x, .endOfInput (.point 1 8)] := by decide
  have htext : ofText "array x" = .error (.syntactic e) := by
    rw [ofText, hscan]
    rfl
  obtain ⟨hguarded, htype, hvalue⟩ := chosen_rules_begin
  exact ⟨htokens, hguarded _ _ htokens, hdeclaration,
    htype _ _ ⟨array, [x], rfl, rfl⟩ hdeclaration rfl, htext, hvalue _ _ htext⟩

end Program
end Jam
