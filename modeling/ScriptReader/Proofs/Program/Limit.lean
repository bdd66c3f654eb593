import ScriptReader.Proofs.Grammar.Guard
import ScriptReader.Proofs.Grammar.Level
import ScriptReader.Proofs.Program.Outcome

set_option autoImplicit false

namespace ScriptReader

theorem parse_within_congr (low high : Nat) (source : String)
    (same : Rule.program low (transcript source.toList).kinds =
      Rule.program high (transcript source.toList).kinds)
    (shallow : ¬ Rule.Deep (Rule.program low (transcript source.toList).kinds)) :
    parseWithin low source = parseWithin high source := by
  simp only [parseWithin, TokenStream.parseProgram, upcoming_of_string, attempt, same]
  cases read : Rule.program high (transcript source.toList).kinds with
  | ok result => rfl
  | error stop =>
      obtain ⟨obstacle, unread⟩ := stop
      cases obstacle with
      | missing what => rfl
      | tooDeep looked => exact absurd ⟨looked, unread, same.trans read⟩ shallow

theorem fault_at_token (what : Expectation) (kind : TokenKind) (limit : Nat) :
    what.faultAt kind ≠ .nestingTooDeep limit := by
  cases what <;> exact fun same => by cases same

theorem deep_of_parse_within (limit level : Nat) (source : String) (position : Position)
    (failed : parseWithin limit source = .error (.grammatical (.nestingTooDeep level) position)) :
    Rule.Deep (Rule.program limit (transcript source.toList).kinds) := by
  simp only [parseWithin, TokenStream.parseProgram, upcoming_of_string, attempt] at failed
  cases read : Rule.program limit (transcript source.toList).kinds with
  | ok result =>
      simp only [read] at failed
      split at failed <;> cases failed
  | error stop =>
      obtain ⟨obstacle, unread⟩ := stop
      cases obstacle with
      | tooDeep looked => exact ⟨looked, unread, rfl⟩
      | missing what =>
          simp only [read] at failed
          split at failed
          · cases failed
          · cases failed
          · rename_i token stream shown
            simp only [Except.error.injEq, ParseError.grammatical.injEq] at failed
            exact absurd failed.1 (fault_at_token what token.kind level)

theorem parse_within_guards (low high : Nat) (source : String) (less : low ≤ high) :
    (∃ position, parseWithin low source = .error (.grammatical (.nestingTooDeep low) position)) ∨
      parseWithin low source = parseWithin high source := by
  obtain ⟨more, rfl⟩ := Nat.exists_eq_add_of_le less
  by_cases deep : Rule.Deep (Rule.program low (transcript source.toList).kinds)
  · obtain ⟨looked, unread, stopped⟩ := deep
    exact .inl (parse_within_too_deep low source looked unread stopped)
  · rcases Rule.program_guards low more (transcript source.toList).kinds with same | cut
    · exact .inr (parse_within_congr low (low + more) source same deep)
    · exact absurd cut deep

theorem parse_within_shallow (limit : Nat) (source : String)
    (fewer : (transcript source.toList).kinds.length < limit) (level : Nat) (position : Position) :
    parseWithin limit source ≠ .error (.grammatical (.nestingTooDeep level) position) := by
  intro failed
  exact Rule.program_shallow limit _ fewer (deep_of_parse_within limit level source position failed)

theorem limit_only_guards (source : String) :
    (∀ low high, low ≤ high →
      (∃ position, parseWithin low source = .error (.grammatical (.nestingTooDeep low) position)) ∨
        parseWithin low source = parseWithin high source) ∧
      (∀ limit, (TokenStream.ofString source).upcoming.length < limit → ∀ level position,
        parseWithin limit source ≠ .error (.grammatical (.nestingTooDeep level) position)) ∧
      ∀ low high, (TokenStream.ofString source).upcoming.length < low →
        (TokenStream.ofString source).upcoming.length < high →
        parseWithin low source = parseWithin high source := by
  rw [upcoming_of_string]
  have beyond : ∀ low high, (transcript source.toList).kinds.length < low → low ≤ high →
      parseWithin low source = parseWithin high source := by
    intro low high fewer less
    rcases parse_within_guards low high source less with ⟨position, failed⟩ | same
    · exact absurd failed (parse_within_shallow low source fewer low position)
    · exact same
  refine ⟨fun low high less => parse_within_guards low high source less,
    fun limit fewer => parse_within_shallow limit source fewer, fun low high fewerLow fewerHigh => ?_⟩
  rcases Nat.le_total low high with less | less
  · exact beyond low high fewerLow less
  · exact (beyond high low fewerHigh less).symm

end ScriptReader
