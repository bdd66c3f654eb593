import ScriptReader.Grammar.Progress
import ScriptReader.Program.Parse
import ScriptReader.Proofs.Token.Lookahead

set_option autoImplicit false

namespace ScriptReader

theorem peek_at_end (source : String) :
    (((TokenStream.ofString source).skip (transcript source.toList).kinds.length).peek.1 = .ok none ∧
        (transcript source.toList).ending = .complete) ∨
      (∃ error, ((TokenStream.ofString source).skip
          (transcript source.toList).kinds.length).peek.1 = .error error) ∧
        (transcript source.toList).ending ≠ .complete := by
  have enough : (transcript source.toList).kinds.length ≤ (transcript source.toList).lexemes.length := by
    simp [Transcript.kinds]
  obtain ⟨rest, same, skipped⟩ := TokenStream.skip_lexemes _ source.toList .start enough
  have ended : (transcript rest).lexemes = [] := by simp [same, Transcript.kinds]
  have ending : (transcript rest).ending = (transcript source.toList).ending := by rw [same]
  rw [TokenStream.of_string_eq, skipped, TokenStream.peek_behind_lexemes rest _ ended, ending]
  cases (transcript source.toList).ending with
  | complete => exact .inl ⟨rfl, rfl⟩
  | flawed flaw passed behind => exact .inr ⟨⟨_, rfl⟩, by simp⟩

theorem parse_within_of_ok (limit : Nat) (source : String) (statements : List Node)
    (read : Rule.program limit (transcript source.toList).kinds = .ok (statements, [])) :
    parseWithin limit source =
      match ((TokenStream.ofString source).skip (transcript source.toList).kinds.length).peek.1 with
      | .error error => .error (.lexical error)
      | .ok _ => .ok (.block statements) := by
  simp only [parseWithin, TokenStream.parseProgram, upcoming_of_string, attempt, read,
    List.length_nil, Nat.sub_zero]
  split <;> simp_all

theorem parse_within_of_stop (limit : Nat) (source : String) (stop : Stop)
    (stopped : Rule.program limit (transcript source.toList).kinds = .error stop) :
    ∃ error, parseWithin limit source = .error error := by
  obtain ⟨obstacle, unread⟩ := stop
  simp only [parseWithin, TokenStream.parseProgram, upcoming_of_string, attempt, stopped]
  cases obstacle with
  | tooDeep looked => exact ⟨_, rfl⟩
  | missing what =>
      dsimp only
      split <;> exact ⟨_, rfl⟩

theorem parse_within_too_deep (limit : Nat) (source : String) (looked : Bool)
    (unread : List TokenKind)
    (stopped : Rule.program limit (transcript source.toList).kinds =
      .error ⟨.tooDeep looked, unread⟩) :
    ∃ position, parseWithin limit source =
      .error (.grammatical (.nestingTooDeep limit) position) := by
  simp only [parseWithin, TokenStream.parseProgram, upcoming_of_string, attempt, stopped]
  exact ⟨_, rfl⟩

theorem parse_within_ok_iff (limit : Nat) (source : String) (tree : Node) :
    parseWithin limit source = .ok tree ↔
      ∃ tokens statements, tokenize source = .ok tokens ∧ tree = .block statements ∧
        Rule.program limit (tokens.map Token.kind) = .ok (statements, []) := by
  constructor
  · intro parsed
    cases read : Rule.program limit (transcript source.toList).kinds with
    | error stop =>
        obtain ⟨error, failed⟩ := parse_within_of_stop limit source stop read
        rw [failed] at parsed
        cases parsed
    | ok result =>
        obtain ⟨statements, rest⟩ := result
        obtain rfl := Rule.program_reads_all _ _ _ _ read
        rw [parse_within_of_ok limit source statements read] at parsed
        rcases peek_at_end source with ⟨peeked, complete⟩ | ⟨⟨error, peeked⟩, _⟩
        · rw [peeked] at parsed
          cases parsed
          obtain ⟨tokens, lexed⟩ := tokenize_total source complete
          exact ⟨tokens, statements, lexed, rfl, by rwa [kinds_of_tokenize lexed]⟩
        · rw [peeked] at parsed
          cases parsed
  · rintro ⟨tokens, statements, lexed, rfl, read⟩
    rw [kinds_of_tokenize lexed] at read
    obtain ⟨complete, _⟩ := (tokenize_ok_iff _ _).mp lexed
    rcases peek_at_end source with ⟨peeked, _⟩ | ⟨_, flawed⟩
    · rw [parse_within_of_ok limit source statements read, peeked]
    · exact absurd complete flawed

end ScriptReader
