import ScriptReader.Proofs.Program.Verdict

set_option autoImplicit false

namespace ScriptReader

def GrammarFault.found? : GrammarFault → Option String
  | .expected _ found | .unexpectedToken found | .expectedIdentifier found => some found
  | .unexpectedEnd _ | .nestingTooDeep _ => none

theorem found_of_fault_at (what : Expectation) (kind : TokenKind) :
    (what.faultAt kind).found? = some kind.text := by
  cases what <;> rfl

theorem advance_over_initial (p : Position) {a b : List Char} (within : a <+: b) :
    p.advanceOver a ≤ p.advanceOver b := by
  obtain ⟨behind, rfl⟩ := within
  rw [Position.advance_over_append]
  exact Position.le_advance_over _ behind

section Positions

variable {source : String} {index : Nat} {token : Token} {position : Position}

def covered (source : String) : List Char :=
  (transcript source.toList).lexemes.flatMap Lexeme.text ++ (transcript source.toList).gap

theorem covered_initial (source : String) : covered source <+: source.toList :=
  ⟨_, transcript_text source.toList⟩

theorem text_through_covered (source : String) (count : Nat) :
    (textThrough source count).toList <+: covered source := by
  rw [textThrough, String.toList_ofList, covered]
  have split := List.take_append_drop count (transcript source.toList).lexemes
  refine ⟨((transcript source.toList).lexemes.drop count).flatMap Lexeme.text ++
    (transcript source.toList).gap, ?_⟩
  rw [← List.append_assoc, ← List.flatMap_append, split]

theorem token_between (there : (yielded source)[index]? = some token) :
    Position.start.advanceOver (textThrough source index).toList ≤ token.position ∧
      token.position ≤ Position.start.advanceOver (covered source) := by
  obtain ⟨before, lexeme, after, split, rfl, rfl⟩ := yielded_split there
  have front : (textThrough source before.length).toList = before.flatMap Lexeme.text := by
    rw [textThrough, String.toList_ofList, split, List.take_left]
  constructor
  · rw [front]
    exact advance_over_initial _ (List.prefix_append _ _)
  · apply advance_over_initial
    rw [covered, split]
    exact ⟨lexeme.spelling ++ (after.flatMap Lexeme.text ++ (transcript source.toList).gap), by
      simp [Lexeme.text]⟩

theorem token_before_end (there : (yielded source)[index]? = some token) :
    token.position ≤ Position.start.advanceOver source.toList :=
  Position.le_trans (token_between there).2 (advance_over_initial _ (covered_initial source))

theorem covered_before_flaw {error : LexicalError} (failed : tokenize source = .error error) :
    Position.start.advanceOver (covered source) ≤ error.position := by
  cases ending : (transcript source.toList).ending with
  | complete => simp [tokenize_complete ending] at failed
  | flawed flaw passed rest =>
      rw [tokenize, TokenStream.tokenize_flawed ending] at failed
      cases failed
      cases flaw with
      | notOneCharacter value => exact .inr rfl
      | _ => exact Position.le_advance_over _ passed

theorem blamed_between (blamed : Blamed source index position) :
    Position.start.advanceOver (textThrough source index).toList ≤ position ∧
      (∀ token, (yielded source)[index]? = some token → position ≤ token.position) ∧
      position ≤ Position.start.advanceOver source.toList := by
  have whole := advance_over_initial .start (text_through_initial source index)
  rcases blamed with rfl | ⟨token, there, rfl⟩ | ⟨rfl, _, rfl⟩
  · exact ⟨.inr rfl, fun token there => (token_between there).1, whole⟩
  · refine ⟨(token_between there).1, fun other same => ?_, token_before_end there⟩
    rw [there] at same
    cases same
    exact .inr rfl
  · refine ⟨whole, fun token there => ?_, .inr rfl⟩
    rw [List.getElem?_eq_none (Nat.le_refl _)] at there
    cases there

theorem blamed_before_flaw {error : LexicalError} (failed : tokenize source = .error error)
    (blamed : Blamed source index position) : position ≤ error.position := by
  have behind := covered_before_flaw failed
  rcases blamed with rfl | ⟨token, there, rfl⟩ | ⟨_, ⟨tokens, lexed⟩, _⟩
  · exact Position.le_trans (advance_over_initial _ (text_through_covered source index)) behind
  · exact Position.le_trans (token_between there).2 behind
  · rw [failed] at lexed
    cases lexed

end Positions

section Verdicts

variable {limit : Nat} {source : String} {stream : TokenStream}

theorem lexical_of_verdict {error : LexicalError}
    (verdict : Verdict limit source (.error (.lexical error)) stream) : tokenize source = .error error := by
  cases verdict with
  | flawed failed quiet => exact failed

theorem flawed_verdict {error : LexicalError} {outcome : Except ParseError Node}
    (failed : tokenize source = .error error) (verdict : Verdict limit source outcome stream) :
    outcome = .error (.lexical error) ∨
      ∃ fault position, outcome = .error (.grammatical fault position) ∧ position ≤ error.position := by
  have behind := covered_before_flaw failed
  cases verdict with
  | flawed again quiet =>
      rw [failed] at again
      cases again
      exact .inl rfl
  | found there stopped =>
      exact .inr ⟨_, _, rfl, Position.le_trans (token_between there).2 behind⟩
  | deep within stopped left blamed => exact .inr ⟨_, _, rfl, blamed_before_flaw failed blamed⟩
  | tree lexed read =>
      rw [failed] at lexed
      cases lexed
  | ended lexed stopped =>
      rw [failed] at lexed
      cases lexed

end Verdicts

theorem errors_point_at_cause (limit : Nat) (source : String) :
    (∀ error, parseWithin limit source = .error (.lexical error) → tokenize source = .error error) ∧
      (∀ fault position, parseWithin limit source = .error (.grammatical fault position) →
        fault.namesToken = true →
        ∃ token ∈ yielded source, token.position = position ∧ fault.found? = some token.kind.text) ∧
      (∀ wanted position,
        parseWithin limit source = .error (.grammatical (.unexpectedEnd wanted) position) →
        (∃ tokens, tokenize source = .ok tokens) ∧
          position = Position.start.advanceOver source.toList) ∧
      (∀ bound position,
        parseWithin limit source = .error (.grammatical (.nestingTooDeep bound) position) →
        ∃ taken, taken ≤ (yielded source).length ∧
          ((TokenStream.ofString source).parseProgram limit).2.upcoming =
            ((yielded source).map Token.kind).drop taken ∧
          Position.start.advanceOver (textThrough source taken).toList ≤ position ∧
          (∀ token, (yielded source)[taken]? = some token → position ≤ token.position) ∧
          position ≤ Position.start.advanceOver source.toList) ∧
      ∀ error, tokenize source = .error error →
        parseWithin limit source = .error (.lexical error) ∨
          ∃ fault position, parseWithin limit source = .error (.grammatical fault position) ∧
            position ≤ error.position := by
  have verdict := verdict_of_parse limit source
  refine ⟨?lexical, ?found, ?ended, ?deep, ?flawed⟩
  case lexical =>
    intro error failed
    exact lexical_of_verdict (failed ▸ verdict)
  case found =>
    intro fault position failed named
    obtain ⟨what, index, token, there, _, rfl, rfl⟩ := found_of_verdict named (failed ▸ verdict)
    exact ⟨token, List.mem_of_getElem? there, rfl, found_of_fault_at what token.kind⟩
  case ended =>
    intro wanted position failed
    obtain ⟨what, tokens, lexed, _, placed⟩ := ended_of_verdict (failed ▸ verdict)
    exact ⟨⟨tokens, lexed⟩, placed⟩
  case deep =>
    intro bound position failed
    obtain ⟨taken, within, left, blamed⟩ := deep_of_verdict (failed ▸ verdict)
    exact ⟨taken, within, left, blamed_between blamed⟩
  case flawed =>
    intro error failed
    exact flawed_verdict failed verdict

theorem broken_calls_point_at_cause :
    (parseWithin 4 "f('cd'" = .error (.lexical ⟨.invalidCharacterLiteral "cd", ⟨1, 2⟩⟩) ∧
        tokenize "f('cd'" = .error ⟨.invalidCharacterLiteral "cd", ⟨1, 2⟩⟩) ∧
      (∃ fault, parseWithin 4 "f(;" = .error (.grammatical fault ⟨1, 2⟩) ∧
        ∃ token ∈ yielded "f(;", token.position = ⟨1, 2⟩ ∧ fault.found? = some token.kind.text) ∧
      (∃ wanted, parseWithin 4 "f(# c" = .error (.grammatical (.unexpectedEnd wanted) ⟨1, 5⟩) ∧
        (∃ tokens, tokenize "f(# c" = .ok tokens) ∧
          (⟨1, 5⟩ : Position) = Position.start.advanceOver "f(# c".toList) ∧
      ∃ taken, taken ≤ (yielded " ('cd'").length ∧
        parseWithin 0 " ('cd'" = .error (.grammatical (.nestingTooDeep 0) ⟨1, 1⟩) ∧
        Position.start.advanceOver (textThrough " ('cd'" taken).toList ≤ ⟨1, 1⟩ := by
  have flawed : parseWithin 4 "f('cd'" = .error (.lexical ⟨.invalidCharacterLiteral "cd", ⟨1, 2⟩⟩) := by
    with_unfolding_all rfl
  have found : parseWithin 4 "f(;" =
      .error (.grammatical (.unexpectedToken (TokenKind.punctuation ';').text) ⟨1, 2⟩) := by
    with_unfolding_all rfl
  have ended : parseWithin 4 "f(# c" = .error (.grammatical (.unexpectedEnd "')'") ⟨1, 5⟩) := by
    with_unfolding_all rfl
  have deep : parseWithin 0 " ('cd'" = .error (.grammatical (.nestingTooDeep 0) ⟨1, 1⟩) := by
    with_unfolding_all rfl
  obtain ⟨lexical, _⟩ := errors_point_at_cause 4 "f('cd'"
  obtain ⟨_, token, _⟩ := errors_point_at_cause 4 "f(;"
  obtain ⟨_, _, incomplete, _⟩ := errors_point_at_cause 4 "f(# c"
  obtain ⟨_, _, _, nested, _⟩ := errors_point_at_cause 0 " ('cd'"
  obtain ⟨taken, within, _, behind, _⟩ := nested 0 ⟨1, 1⟩ deep
  exact ⟨⟨flawed, lexical _ flawed⟩, ⟨_, found, token _ _ found rfl⟩, ⟨_, ended, incomplete _ _ ended⟩,
    taken, within, deep, behind⟩

end ScriptReader
