import ScriptReader.Proofs.Grammar.Extension
import ScriptReader.Proofs.Program.Kinds
import ScriptReader.Proofs.Token.Yielded

set_option autoImplicit false

namespace ScriptReader

open TokenStream (before Reached)

theorem parse_of_lexes {limit : Nat} {source : String} {kinds : List TokenKind} {statements : List Node}
    (lexes : Lexes source.toList kinds) (read : Rule.program limit kinds = .ok (statements, [])) :
    parseWithin limit source = .ok (.block statements) := by
  obtain ⟨tokens, lexed, rfl⟩ := (lexes_iff_tokenize source kinds).mp lexes
  exact (parse_within_ok_iff _ _ _).mpr ⟨tokens, statements, lexed, rfl, read⟩

theorem lexes_of_parse {limit : Nat} {source : String} {tree : Node}
    (parsed : parseWithin limit source = .ok tree) :
    ∃ statements, tree = .block statements ∧ Lexes source.toList ((yielded source).map Token.kind) ∧
      Rule.program limit ((yielded source).map Token.kind) = .ok (statements, []) := by
  obtain ⟨tokens, statements, lexed, rfl, read⟩ := (parse_within_ok_iff _ _ _).mp parsed
  rw [yielded_of_tokenize lexed]
  exact ⟨statements, rfl, (lexes_iff_tokenize _ _).mpr ⟨tokens, lexed, rfl⟩, read⟩

-- Where the nesting may be found too deep: at once behind the tokens taken, or at what comes next.
def Blamed (source : String) (index : Nat) (position : Position) : Prop :=
  position = Position.start.advanceOver (textThrough source index).toList ∨
    (∃ token, (yielded source)[index]? = some token ∧ position = token.position) ∨
      index = (yielded source).length ∧ (∃ tokens, tokenize source = .ok tokens) ∧
        position = Position.start.advanceOver source.toList

inductive Verdict (limit : Nat) (source : String) : Except ParseError Node → TokenStream → Prop where
  | tree {statements : List Node} {tokens : List Token} {stream : TokenStream}
      (lexed : tokenize source = .ok tokens)
      (read : Rule.program limit ((yielded source).map Token.kind) = .ok (statements, [])) :
      Verdict limit source (.ok (.block statements)) stream
  | flawed {error : LexicalError} {stream : TokenStream} (failed : tokenize source = .error error)
      (quiet : Reader.Quiet (· = true) (Rule.program limit ((yielded source).map Token.kind))) :
      Verdict limit source (.error (.lexical error)) stream
  | found {what : Expectation} {index : Nat} {token : Token} {stream : TokenStream}
      (there : (yielded source)[index]? = some token)
      (stopped : Rule.program limit ((yielded source).map Token.kind) =
        .error ⟨.missing what, ((yielded source).map Token.kind).drop index⟩) :
      Verdict limit source (.error (.grammatical (what.faultAt token.kind) token.position)) stream
  | ended {what : Expectation} {tokens : List Token} {stream : TokenStream}
      (lexed : tokenize source = .ok tokens)
      (stopped : Rule.program limit ((yielded source).map Token.kind) = .error ⟨.missing what, []⟩) :
      Verdict limit source
        (.error (.grammatical (.unexpectedEnd what.text) (Position.start.advanceOver source.toList)))
        stream
  | deep {looked : Bool} {index : Nat} {position : Position} {stream : TokenStream}
      (within : index ≤ (yielded source).length)
      (stopped : Rule.program limit ((yielded source).map Token.kind) =
        .error ⟨.tooDeep looked, ((yielded source).map Token.kind).drop index⟩)
      (left : stream.upcoming = ((yielded source).map Token.kind).drop index)
      (blamed : Blamed source index position) :
      Verdict limit source (.error (.grammatical (.nestingTooDeep limit) position)) stream

theorem upcoming_yielded (source : String) :
    (TokenStream.ofString source).upcoming = (yielded source).map Token.kind := by
  rw [upcoming_of_string, yielded_kinds]

theorem before_yielded (source : String) (index : Nat) (within : index ≤ (yielded source).length) :
    before (.ofString source) (((yielded source).map Token.kind).drop index) =
      (TokenStream.ofString source).skip index := by
  rw [before, upcoming_yielded, List.length_drop, List.length_map]
  congr 1
  omega

theorem unread_of_stop {limit : Nat} {kinds : List TokenKind} {stop : Stop}
    (stopped : Rule.program limit kinds = .error stop) :
    ∃ index, index ≤ kinds.length ∧ stop.unread = kinds.drop index := by
  have suffix := Rule.bounded_of_extensible (Rule.program_extensible limit) kinds
  rw [stopped] at suffix
  exact ⟨kinds.length - stop.unread.length, Nat.sub_le _ _, List.suffix_iff_eq_drop.mp suffix⟩

theorem peek_shown {source : String} {index : Nat} (within : index ≤ (yielded source).length) :
    (∃ token, (yielded source)[index]? = some token ∧
        ((TokenStream.ofString source).skip index).peek.1 = .ok (some token)) ∨
      index = (yielded source).length ∧ ((TokenStream.ofString source).skip index).peek.1 =
        (tokenize source).map fun _ => none := by
  by_cases last : index = (yielded source).length
  · subst last
    exact .inr ⟨rfl, peek_behind_yielded source⟩
  · have inside : index < (yielded source).length := Nat.lt_of_le_of_ne within last
    have there := List.getElem?_eq_getElem inside
    exact .inl ⟨_, there, peek_yielded there⟩

theorem peek_before_end (source : String) :
    (before (.ofString source) []).peek.1 = (tokenize source).map fun _ => none := by
  have stood := before_yielded source (yielded source).length (Nat.le_refl _)
  rw [List.drop_of_length_le (List.length_map Token.kind).le] at stood
  rw [stood, peek_behind_yielded]

theorem tokenize_of_shown {source : String} {found : Option Token}
    (shown : (before (.ofString source) []).peek.1 = .ok found) : ∃ tokens, tokenize source = .ok tokens := by
  rw [peek_before_end] at shown
  cases lexed : tokenize source with
  | ok tokens => exact ⟨tokens, rfl⟩
  | error error =>
      rw [lexed] at shown
      cases shown

theorem tokenize_of_flawed {source : String} {error : LexicalError}
    (flawed : (before (.ofString source) []).peek.1 = .error error) : tokenize source = .error error := by
  rw [peek_before_end] at flawed
  cases lexed : tokenize source with
  | ok tokens =>
      rw [lexed] at flawed
      cases flawed
  | error other =>
      rw [lexed] at flawed
      cases flawed
      rfl

theorem blamed_of_reached {source : String} {index : Nat} {looked : Bool} {stream : TokenStream}
    (within : index ≤ (yielded source).length)
    (reached : Reached (.ofString source) (((yielded source).map Token.kind).drop index) looked stream) :
    Blamed source index stream.position := by
  have same := reached.same
  rw [before_yielded source index within] at same
  cases looked with
  | false =>
      rw [same]
      exact .inl (position_of_skip source index within)
  | true =>
      obtain ⟨found, shown⟩ := reached.shown rfl
      rw [before_yielded source index within] at shown
      rw [same, if_pos rfl]
      rcases peek_shown within with ⟨token, there, seen⟩ | ⟨rfl, seen⟩
      · exact .inr (.inl ⟨token, there, position_of_peek seen⟩)
      · rw [peek_behind_yielded, ← peek_before_end] at shown
        obtain ⟨tokens, lexed⟩ := tokenize_of_shown shown
        exact .inr (.inr ⟨rfl, ⟨tokens, lexed⟩, position_behind_yielded lexed⟩)

theorem verdict_of_missing {limit : Nat} {source : String} {what : Expectation} {index : Nat}
    {error : ParseError} {stream : TokenStream} (within : index ≤ (yielded source).length)
    (stopped : Rule.program limit ((yielded source).map Token.kind) =
      .error ⟨.missing what, ((yielded source).map Token.kind).drop index⟩)
    (concluded : Reader.conclude (.ofString source) limit
      ⟨.missing what, ((yielded source).map Token.kind).drop index⟩ = (error, stream)) :
    Verdict limit source (.error error) stream := by
  have answered := Reader.conclude_missing (.ofString source) limit what
    (((yielded source).map Token.kind).drop index)
  rw [concluded, before_yielded source index within] at answered
  rcases peek_shown within with ⟨token, there, seen⟩ | ⟨rfl, seen⟩
  · rw [seen] at answered
    cases answered
    exact .found there stopped
  · rw [← List.length_map Token.kind, List.drop_length] at stopped
    cases lexed : tokenize source with
    | error flaw =>
        rw [seen, lexed] at answered
        cases answered
        exact .flawed lexed (stopped ▸ Reader.quiet_missing what)
    | ok tokens =>
        rw [seen, lexed, position_behind_yielded lexed] at answered
        cases answered
        exact .ended lexed stopped

theorem verdict_of_parse (limit : Nat) (source : String) :
    Verdict limit source (parseWithin limit source)
      ((TokenStream.ofString source).parseProgram limit).2 := by
  rw [parseWithin]
  have answers := Reader.program_answers limit (.ofString source)
  rw [Reader.program_eq, upcoming_yielded] at answers
  generalize (TokenStream.ofString source).parseProgram limit = answer at answers ⊢
  cases read : Rule.program limit ((yielded source).map Token.kind) with
  | ok item =>
      obtain ⟨statements, rest⟩ := item
      obtain rfl := Rule.program_reads_all _ _ _ _ read
      rw [read] at answers
      cases answers with
      | ok reached known =>
          subst known
          obtain ⟨found, shown⟩ := reached.shown rfl
          obtain ⟨tokens, lexed⟩ := tokenize_of_shown shown
          exact .tree lexed read
      | lexical unclosed flawed =>
          exact .flawed (tokenize_of_flawed flawed) (read ▸ Reader.quiet_ok statements rfl)
  | error stop =>
      obtain ⟨obstacle, unread⟩ := stop
      obtain ⟨index, within, rfl⟩ := unread_of_stop read
      rw [List.length_map] at within
      rw [read] at answers
      cases answers with
      | missing concluded => exact verdict_of_missing within read concluded
      | tooDeep reached =>
          exact .deep within read (TokenStream.reached_upcoming reached) (blamed_of_reached within reached)

section Errors

variable {limit : Nat} {source : String} {stream : TokenStream} {position : Position}

theorem found_of_verdict {fault : GrammarFault} (named : fault.namesToken = true)
    (verdict : Verdict limit source (.error (.grammatical fault position)) stream) :
    ∃ what index token, (yielded source)[index]? = some token ∧
      Rule.program limit ((yielded source).map Token.kind) =
        .error ⟨.missing what, ((yielded source).map Token.kind).drop index⟩ ∧
      fault = what.faultAt token.kind ∧ position = token.position := by
  cases verdict with
  | found there stopped => exact ⟨_, _, _, there, stopped, rfl, rfl⟩
  | ended lexed stopped => cases named
  | deep within stopped left blamed => cases named

theorem ended_of_verdict {wanted : String}
    (verdict : Verdict limit source (.error (.grammatical (.unexpectedEnd wanted) position)) stream) :
    ∃ what tokens, tokenize source = .ok tokens ∧
      Rule.program limit ((yielded source).map Token.kind) = .error ⟨.missing what, []⟩ ∧
      position = Position.start.advanceOver source.toList := by
  generalize same : GrammarFault.unexpectedEnd wanted = fault at verdict
  cases verdict with
  | ended lexed stopped => exact ⟨_, _, lexed, stopped, rfl⟩
  | deep within stopped left blamed => cases same
  | @found what _ token _ there stopped => cases what <;> cases same

theorem deep_of_verdict {bound : Nat}
    (verdict : Verdict limit source (.error (.grammatical (.nestingTooDeep bound) position)) stream) :
    ∃ taken, taken ≤ (yielded source).length ∧
      stream.upcoming = ((yielded source).map Token.kind).drop taken ∧
        Blamed source taken position := by
  generalize same : GrammarFault.nestingTooDeep bound = fault at verdict
  cases verdict with
  | deep within stopped left blamed => exact ⟨_, within, left, blamed⟩
  | ended lexed stopped => cases same
  | @found what _ token _ there stopped => cases what <;> cases same

end Errors

end ScriptReader
