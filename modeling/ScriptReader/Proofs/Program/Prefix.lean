import ScriptReader.Proofs.Grammar.Completion
import ScriptReader.Proofs.Program.Verdict

set_option autoImplicit false

namespace ScriptReader

theorem completed_text {front : List Char} {kinds : List TokenKind} {limit : Nat}
    (lexes : Lexes front kinds) (quiet : Reader.Quiet (· = true) (Rule.program limit kinds)) :
    ∃ more enough tree, parseWithin enough (String.ofList front ++ "\n" ++ more) = .ok tree := by
  obtain ⟨more, lexable, whole⟩ := Rule.program_completes limit kinds quiet
  obtain ⟨statements, read⟩ := (Greedy.derives_program_iff _).mp whole
  have joined := lexes_append lexes (lexes_written more lexable)
  have text : Lexes (String.ofList front ++ "\n" ++ String.ofList (TokenKind.written more)).toList
      (kinds ++ more) := by
    simpa using joined
  exact ⟨_, _, _, parse_of_lexes text (Greedy.program_accepted read (Nat.lt_succ_self _))⟩

section Stopped

variable {limit index : Nat} {source : String} {what : Expectation} {token : Token}

theorem stop_at_token (there : (yielded source)[index]? = some token)
    (stopped : Rule.program limit ((yielded source).map Token.kind) =
      .error ⟨.missing what, ((yielded source).map Token.kind).drop index⟩) :
    Rule.program limit (((yielded source).map Token.kind).take index ++
        token.kind :: ((yielded source).map Token.kind).drop (index + 1)) =
      .error ⟨.missing what, token.kind :: ((yielded source).map Token.kind).drop (index + 1)⟩ := by
  rw [← drop_yielded there, List.take_append_drop]
  exact stopped

theorem completed_before (there : (yielded source)[index]? = some token)
    (stopped : Rule.program limit ((yielded source).map Token.kind) =
      .error ⟨.missing what, ((yielded source).map Token.kind).drop index⟩) :
    ∃ front behind, source.toList = front ++ behind ∧
      Position.start.advanceOver front = token.position ∧
      ∃ more enough tree, parseWithin enough (String.ofList front ++ "\n" ++ more) = .ok tree := by
  have quiet := Rule.quiet_of_stop (stop_at_token there stopped)
  obtain ⟨front, behind, same, placed, lexes⟩ := yielded_front there
  rw [← yielded_kinds] at lexes
  exact ⟨front, behind, same, placed, completed_text lexes quiet⟩

theorem never_parsed (there : (yielded source)[index]? = some token)
    (stopped : Rule.program limit ((yielded source).map Token.kind) =
      .error ⟨.missing what, ((yielded source).map Token.kind).drop index⟩) (other : String)
    (same : ((yielded other).map Token.kind).take (index + 1) =
      ((yielded source).map Token.kind).take (index + 1)) (levels : Nat) (tree : Node) :
    parseWithin levels other ≠ .ok tree := by
  intro parsed
  obtain ⟨statements, _, _, read⟩ := lexes_of_parse parsed
  have split : (yielded other).map Token.kind = ((yielded source).map Token.kind).take index ++
      token.kind :: ((yielded other).map Token.kind).drop (index + 1) := by
    have one : ((yielded source).map Token.kind).take (index + 1) =
        ((yielded source).map Token.kind).take index ++ [token.kind] := by
      rw [List.take_add_one, List.getElem?_map, there]
      rfl
    calc (yielded other).map Token.kind
        = ((yielded other).map Token.kind).take (index + 1) ++
            ((yielded other).map Token.kind).drop (index + 1) := (List.take_append_drop _ _).symm
      _ = _ := by rw [same, one, List.append_assoc, List.cons_append, List.nil_append]
  obtain ⟨stop, failed⟩ := Rule.stop_whatever_follows (stop_at_token there stopped)
    (((yielded other).map Token.kind).drop (index + 1)) levels
  rw [← split, read] at failed
  cases failed

end Stopped

theorem first_wrong_token (limit : Nat) (source : String) (fault : GrammarFault) (position : Position)
    (failed : parseWithin limit source = .error (.grammatical fault position))
    (named : fault.namesToken = true) :
    ∃ index, (∀ i, (yielded source)[i]?.map Token.position = some position ↔ i = index) ∧
      (∃ front behind, source.toList = front ++ behind ∧ Position.start.advanceOver front = position ∧
        ∃ more enough tree, parseWithin enough (String.ofList front ++ "\n" ++ more) = .ok tree) ∧
      ∀ other, ((yielded other).map Token.kind).take (index + 1) =
          ((yielded source).map Token.kind).take (index + 1) →
        ∀ levels tree, parseWithin levels other ≠ .ok tree := by
  obtain ⟨what, index, token, there, stopped, rfl, rfl⟩ :=
    found_of_verdict named (failed ▸ verdict_of_parse limit source)
  exact ⟨index, position_yielded_iff there, completed_before there stopped, never_parsed there stopped⟩

theorem semicolon_among_arguments :
    (∃ fault, parseWithin 9 "f(a; b)" = .error (.grammatical fault ⟨1, 3⟩) ∧ fault.namesToken = true) ∧
      (∃ front behind, "f(a; b)".toList = front ++ behind ∧ Position.start.advanceOver front = ⟨1, 3⟩ ∧
        ∃ more enough tree, parseWithin enough (String.ofList front ++ "\n" ++ more) = .ok tree) ∧
      ∀ other, ((yielded other).map Token.kind).take 4 =
          [.identifier "f", .punctuation '(', .identifier "a", .punctuation ';'] →
        ∀ levels tree, parseWithin levels other ≠ .ok tree := by
  have failed : parseWithin 9 "f(a; b)" =
      .error (.grammatical (.expected "','" (TokenKind.punctuation ';').text) ⟨1, 3⟩) := by
    with_unfolding_all rfl
  have placed : (yielded "f(a; b)")[3]?.map Token.position = some ⟨1, 3⟩ := by
    decide +kernel
  have kinds : ((yielded "f(a; b)").map Token.kind).take 4 =
      [.identifier "f", .punctuation '(', .identifier "a", .punctuation ';'] := by
    decide +kernel
  obtain ⟨index, unique, before, never⟩ := first_wrong_token 9 "f(a; b)" _ ⟨1, 3⟩ failed rfl
  obtain rfl : 3 = index := (unique 3).mp placed
  exact ⟨⟨_, failed, rfl⟩, before, fun other same => never other (same.trans kinds.symm)⟩

theorem parse_of_quiet {limit : Nat} {source : String}
    (lexes : Lexes source.toList ((yielded source).map Token.kind))
    (quiet : Reader.Quiet (· = true) (Rule.program limit ((yielded source).map Token.kind))) :
    (∃ tree, parseWithin limit source = .ok tree) ∨
      ∃ wanted, parseWithin limit source = .error (.grammatical (.unexpectedEnd wanted)
        (Position.start.advanceOver source.toList)) := by
  have verdict := verdict_of_parse limit source
  generalize parseWithin limit source = outcome at verdict ⊢
  cases verdict with
  | tree lexed read => exact .inl ⟨_, rfl⟩
  | ended lexed stopped => exact .inr ⟨_, rfl⟩
  | flawed failed _ =>
      obtain ⟨tokens, lexed, _⟩ := (lexes_iff_tokenize source _).mp lexes
      rw [failed] at lexed
      cases lexed
  | found there stopped =>
      rw [stopped, drop_yielded there] at quiet
      rcases quiet with ⟨_, value, read⟩ | ⟨what, missed⟩
      · cases read
      · cases missed
  | deep within stopped left blamed =>
      rw [stopped] at quiet
      rcases quiet with ⟨_, value, read⟩ | ⟨what, missed⟩
      · cases read
      · cases missed

theorem parse_of_cut {limit : Nat} {source : String} {tree : Node}
    (parsed : parseWithin limit source = .ok tree) (count : Nat) :
    (∃ other, parseWithin limit (textThrough source count) = .ok other) ∨
      ∃ wanted, parseWithin limit (textThrough source count) = .error (.grammatical
        (.unexpectedEnd wanted) (Position.start.advanceOver (textThrough source count).toList)) := by
  obtain ⟨statements, _, _, read⟩ := lexes_of_parse parsed
  rw [← List.take_append_drop count ((yielded source).map Token.kind)] at read
  have quiet := Rule.quiet_of_read read
  have lexes := text_through_lexes source count
  have kinds : (yielded (textThrough source count)).map Token.kind =
      ((yielded source).map Token.kind).take count := by
    rw [yielded_kinds, yielded_kinds]
    exact ((lexes_iff _ _).mp lexes).2
  rw [← yielded_kinds, ← kinds] at lexes
  rw [← kinds] at quiet
  exact parse_of_quiet lexes quiet

theorem completed_of_unexpected_end {limit : Nat} {source wanted : String} {position : Position}
    (failed : parseWithin limit source = .error (.grammatical (.unexpectedEnd wanted) position)) :
    ∃ more enough tree, parseWithin enough (source ++ "\n" ++ more) = .ok tree := by
  obtain ⟨what, tokens, lexed, stopped, _⟩ :=
    ended_of_verdict (failed ▸ verdict_of_parse limit source)
  have lexes := (lexes_iff_tokenize source _).mpr ⟨tokens, lexed, rfl⟩
  rw [← yielded_of_tokenize lexed] at lexes
  have completed := completed_text lexes (stopped ▸ Reader.quiet_missing what)
  rwa [String.ofList_toList] at completed

theorem unexpected_end_means_incomplete :
    (∀ limit source tree count, parseWithin limit source = .ok tree →
      (∃ other, parseWithin limit (textThrough source count) = .ok other) ∨
        ∃ wanted, parseWithin limit (textThrough source count) = .error (.grammatical
          (.unexpectedEnd wanted) (Position.start.advanceOver (textThrough source count).toList))) ∧
      ∀ limit source wanted position,
        parseWithin limit source = .error (.grammatical (.unexpectedEnd wanted) position) →
          ∃ more enough tree, parseWithin enough (source ++ "\n" ++ more) = .ok tree :=
  ⟨fun _ _ _ count parsed => parse_of_cut parsed count,
    fun _ _ _ _ failed => completed_of_unexpected_end failed⟩

theorem conditional_without_branch :
    ((∃ tree, parseWithin 9 "if a \x7b\x7d" = .ok tree) ∧ (textThrough "if a \x7b\x7d" 2) = "if a") ∧
      ((∃ other, parseWithin 9 "if a" = .ok other) ∨
        ∃ wanted, parseWithin 9 "if a" = .error (.grammatical (.unexpectedEnd wanted) ⟨1, 4⟩)) ∧
      ∃ more enough tree, parseWithin enough ("if a" ++ "\n" ++ more) = .ok tree := by
  have parsed : parseWithin 9 "if a \x7b\x7d" = .ok (.block [.ifThen (.identifier "a") (.block [])]) := by
    with_unfolding_all rfl
  have cut : textThrough "if a \x7b\x7d" 2 = "if a" := by
    decide +kernel
  have failed : parseWithin 9 "if a" =
      .error (.grammatical (.unexpectedEnd Expectation.branch.text) ⟨1, 4⟩) := by
    with_unfolding_all rfl
  have before := unexpected_end_means_incomplete.1 9 "if a \x7b\x7d" _ 2 parsed
  rw [cut] at before
  exact ⟨⟨⟨_, parsed⟩, cut⟩, before, unexpected_end_means_incomplete.2 9 "if a" _ _ failed⟩

end ScriptReader
