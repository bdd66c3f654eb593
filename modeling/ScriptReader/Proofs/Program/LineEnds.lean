import ScriptReader.Proofs.Program.Kinds
import ScriptReader.Proofs.Token.LineEnds

set_option autoImplicit false

namespace ScriptReader

theorem TokenStream.parse_program_returned {stream : TokenStream}
    (unbroken : Unbroken (transcript stream.cursor.rest)) (limit : Nat) :
    (stream.returned.parseProgram limit).1 = (stream.parseProgram limit).1 := by
  have enough := attempt_taken limit stream.upcoming
  simp only [parseProgram, upcoming_returned unbroken]
  generalize attempt limit stream.upcoming = tried at enough ⊢
  obtain ⟨skipped, further⟩ := skip_returned unbroken tried.taken enough
  have peeked := (next_returned further).2
  simp only [skipped, peeked]
  generalize stream.skip tried.taken = plain
  cases tried.result with
  | ok statements =>
      cases plain.peek with
      | mk result behind => cases result <;> rfl
  | error obstacle =>
      cases obstacle with
      | tooDeep looked => cases looked <;> rfl
      | missing what =>
          cases plain.peek with
          | mk result behind => rcases result with error | _ | token <;> rfl

theorem line_ends_unnoticed (source : String) (unbroken : Unbroken (transcript source.toList)) :
    tokenize (String.ofList (returned source.toList)) = tokenize source ∧
      ∀ limit, parseWithin limit (String.ofList (returned source.toList)) = parseWithin limit source := by
  have same : TokenStream.ofString (String.ofList (returned source.toList)) =
      (TokenStream.ofString source).returned := by
    simp only [TokenStream.ofString, Cursor.ofString, String.toList_ofList]
    rfl
  refine ⟨?_, fun limit => ?_⟩
  · rw [tokenize, same, TokenStream.tokenize_returned unbroken]
    rfl
  · rw [parseWithin, same]
    exact TokenStream.parse_program_returned unbroken limit

theorem operator_before_unknown_character :
    Unbroken (transcript "f(\"a\") # 'g\n\n  - $".toList) ∧
      tokenize "f(\"a\") # 'g\r\n\r\n  - $" = .error ⟨.unexpectedCharacter '$', ⟨3, 4⟩⟩ ∧
      parseWithin 2 "f(\"a\") # 'g\r\n\r\n  - $" =
        .error (.lexical ⟨.unexpectedCharacter '$', ⟨3, 4⟩⟩) := by
  have unbroken : Unbroken (transcript "f(\"a\") # 'g\n\n  - $".toList) := by
    have transcribed : transcript "f(\"a\") # 'g\n\n  - $".toList =
        ⟨[⟨[], ['f'], .identifier "f"⟩, ⟨[], ['('], .punctuation '('⟩,
          ⟨[], ['"', 'a', '"'], .string "a"⟩, ⟨[], [')'], .punctuation ')'⟩,
          ⟨" # 'g\n\n  ".toList, ['-'], .operator "-"⟩], [' '],
          .flawed (.unexpectedCharacter '$') [] ['$']⟩ := by
      with_unfolding_all rfl
    rw [transcribed]
    refine ⟨by decide, fun flaw passed rest same literal => ?_⟩
    cases same
    cases literal
  have lines : String.ofList (returned "f(\"a\") # 'g\n\n  - $".toList) = "f(\"a\") # 'g\r\n\r\n  - $" := by
    decide
  obtain ⟨tokens, parses⟩ := line_ends_unnoticed _ unbroken
  rw [lines] at tokens parses
  refine ⟨unbroken, tokens.trans ?_, (parses 2).trans ?_⟩ <;> with_unfolding_all rfl

end ScriptReader
