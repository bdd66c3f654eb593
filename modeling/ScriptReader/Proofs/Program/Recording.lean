import ScriptReader.Proofs.Demand.Program
import ScriptReader.Proofs.Program.Recorder
import ScriptReader.Proofs.Program.Resume
import ScriptReader.Proofs.Token.Yielded

set_option autoImplicit false

namespace ScriptReader

def Attempt.readings (tried : Attempt) : Nat := if tried.looked then tried.taken + 1 else tried.taken

namespace TokenStream

variable {stream : TokenStream}

theorem told_skip (nothing : stream.peeked = none) (count : Nat) (enough : count ≤ stream.upcoming.length) :
    stream.cursor.toldWithin count ++ (stream.skip count).cursor.told = stream.cursor.told ∧
      stream.cursor.toldWithin (count + 1) =
        stream.cursor.toldWithin count ++ (stream.skip count).cursor.heard := by
  induction count generalizing stream with
  | zero =>
      have first := Cursor.told_within_succ 0 stream.cursor
      rw [Cursor.told_within_zero] at *
      refine ⟨rfl, ?_⟩
      rw [first, skip, List.nil_append]
      split
      · rw [Cursor.told_within_zero, List.append_nil]
      · rw [List.append_nil]
  | succ count ih =>
      have front := front stream
      have coming := upcoming_next stream
      rw [skip]
      generalize stream.next = taken, stream.peek = shown at front coming ⊢
      cases front with
      | held => cases nothing
      | ended | flawed =>
          rw [coming] at enough
          cases enough
      | @found cursor behind token failed read =>
          rw [coming] at enough
          obtain ⟨told, further⟩ := @ih ⟨behind, none, failed⟩ rfl (by simpa using enough)
          have all := Cursor.told_eq cursor
          have one := Cursor.told_within_succ count cursor
          have two := Cursor.told_within_succ (count + 1) cursor
          rw [read] at all one two
          dsimp only at *
          rw [one, two, all, List.append_assoc, List.append_assoc, told, further]
          exact ⟨rfl, rfl⟩

theorem told_peek (nothing : stream.peeked = none) :
    match stream.peek with
    | (.ok _, after) => stream.cursor.heard ++ after.cursor.told = stream.cursor.told ∧
        after.next.2.cursor = after.cursor
    | (.error _, _) => stream.cursor.heard = stream.cursor.told := by
  have front := front stream
  generalize stream.next = taken, stream.peek = shown at front ⊢
  cases front with
  | held => cases nothing
  | found failed read => exact ⟨(Cursor.heard_ok read).1, rfl⟩
  | ended failed read =>
      refine ⟨(Cursor.heard_ok read).1, ?_⟩
      simp only [next, token_at_end _ _ read]
  | flawed failed read =>
      obtain ⟨skipped, heard, told, reads⟩ := Cursor.heard_error read
      exact told.symm

theorem too_deep_shown {limit : Nat} (tooDeep : (attempt limit stream.upcoming).result = .error (.tooDeep true)) :
    ∃ found, (stream.skip (attempt limit stream.upcoming).taken).peek.1 = .ok found := by
  have answers := Reader.program_answers limit stream
  generalize Reader.program limit stream = answer at answers
  rw [attempt] at tooDeep ⊢
  cases stopped : Rule.program limit stream.upcoming with
  | ok item =>
      rw [stopped] at tooDeep
      cases tooDeep
  | error stop =>
      obtain ⟨obstacle, unread⟩ := stop
      rw [stopped] at tooDeep answers
      cases tooDeep
      cases answers with
      | tooDeep reached => exact reached.shown rfl

theorem told_parse (limit : Nat) (nothing : stream.peeked = none) :
    match stream.parseProgram limit with
    | (.error (.lexical _), _) =>
        stream.cursor.toldWithin (attempt limit stream.upcoming).readings = stream.cursor.told
    | (_, after) =>
        stream.cursor.toldWithin (attempt limit stream.upcoming).readings ++ after.cursor.told =
          stream.cursor.told := by
  have enough : (attempt limit stream.upcoming).taken ≤ stream.upcoming.length := by
    rw [attempt]
    split <;> exact Nat.sub_le _ _
  obtain ⟨before, further⟩ := told_skip nothing _ enough
  have peeked := told_peek (skip_peeked nothing (attempt limit stream.upcoming).taken)
  have shown := @too_deep_shown stream limit
  rw [parseProgram]
  generalize attempt limit stream.upcoming = tried at before further peeked shown ⊢
  obtain ⟨result, taken⟩ := tried
  generalize stream.skip taken = behind at before further peeked shown ⊢
  -- One reading more goes as far as the look ahead.
  have looks : ∀ found after, behind.peek = (.ok found, after) →
      stream.cursor.toldWithin (taken + 1) ++ after.cursor.told = stream.cursor.told ∧
        after.next.2.cursor = after.cursor := by
    intro found after looked
    rw [looked] at peeked
    rw [further, List.append_assoc, peeked.1, before]
    exact ⟨rfl, peeked.2⟩
  have fails : ∀ error after, behind.peek = (.error error, after) →
      stream.cursor.toldWithin (taken + 1) = stream.cursor.told := by
    intro error after failed
    rw [failed] at peeked
    rw [further, peeked, before]
  rcases result with (what | looked) | statements
  · simp only [Attempt.readings, Attempt.looked]
    rcases answered : behind.peek with ⟨error | _ | token, after⟩
    · exact fails error after answered
    · exact (looks none after answered).1
    · obtain ⟨told, same⟩ := looks (some token) after answered
      have cursor : (if what.takes then after.next.2 else after).cursor = after.cursor := by
        split
        · exact same
        · rfl
      dsimp only
      rw [cursor]
      exact told
  · cases looked with
    | false => exact before
    | true =>
        obtain ⟨found, known⟩ := shown rfl
        exact (looks found behind.peek.2 (Prod.ext known rfl)).1
  · simp only [Attempt.readings, Attempt.looked]
    rcases answered : behind.peek with ⟨error | found, after⟩
    · exact fails error after answered
    · exact (looks found after answered).1

end TokenStream

inductive Closes (lexed : List Event) : Except ParseError Node → List Event → Event → Prop where
  | parsed (statements : List Node) :
      Closes lexed (.ok (.block statements)) lexed (.parsedProgram statements.length)
  | refused (fault : GrammarFault) (p : Position) {between : List Event} (begins : between <+: lexed) :
      Closes lexed (.error (.grammatical fault p)) between (.parseError (.grammatical fault p))
  | flawed (error : LexicalError) (between : List Event)
      (whole : lexed = between ++ [.lexicalError error]) :
      Closes lexed (.error (.lexical error)) between (.lexicalError error)

theorem recorded_tokenize (source : String) :
    ∃ after, Recorded.tokenize (.ofString source) =
        ((tokenize source).mapError .lexical, ⟨after, tokenizeLog source⟩) ∧
      match tokenize source with
      | .ok _ => ∀ event ∈ tokenizeLog source, event.reads = true
      | .error error => ∃ front, tokenizeLog source = front ++ [.lexicalError error] ∧
          ∀ event ∈ front, event.reads = true := by
  have logged := @Recorded.logged_tokenize (.ofString source) rfl []
  have whole : tokenizeLog source = (TokenStream.ofString source).cursor.told := rfl
  rw [tokenize, whole]
  rw [Record.ofString]
  generalize Recorded.tokenize ⟨.ofString source, []⟩ = answer at logged ⊢
  cases outcome : (TokenStream.ofString source).tokenize with
  | mk result after =>
      rw [outcome] at logged
      dsimp only at logged ⊢
      cases result with
      | ok tokens =>
          obtain ⟨ended, _⟩ := TokenStream.drained_of_tokenize rfl outcome
          cases logged with
          | ok added told reads =>
              rw [Cursor.told_nothing ended, List.append_nil] at told
              rw [← told]
              exact ⟨after, rfl, reads⟩
      | error error =>
          cases logged with
          | lexical added told reads =>
              rw [← told]
              exact ⟨after, rfl, added, rfl, reads⟩

namespace Recorded

theorem parse_program_eq (limit : Nat) (record : Record) :
    parseProgram limit record =
      match parts.program limit ⟨record.stream, record.log ++ [.parsingProgram]⟩ with
      | (.ok statements, record) =>
          (.ok (.block statements), ⟨record.stream, record.log ++ [.parsedProgram statements.length]⟩)
      | (.error error, record) => (.error error, record) := by
  simp only [parseProgram, write, bind, pure]
  generalize parts.program limit _ = answer
  rcases answer with ⟨_ | _, _⟩ <;> rfl

end Recorded

theorem Reader.parse_program_parts (limit : Nat) (stream : TokenStream) :
    stream.parseProgram limit =
      match parts.program limit stream with
      | (.error error, after) => (.error error, after)
      | (.ok statements, after) => (.ok (.block statements), after) := by
  rw [← program_eq]
  simp only [program, bind, pure]
  generalize parts.program limit stream = answer
  rcases answer with ⟨_ | _, _⟩ <;> rfl

theorem parse_log_eq (limit : Nat) (source : String) :
    parseLog limit source =
      .parsingProgram ::
        ((TokenStream.ofString source).cursor.toldWithin
            (attempt limit (TokenStream.ofString source).upcoming).readings ++
          closingEvents (parseWithin limit source)) := by
  rw [upcoming_of_string]
  rfl

theorem recorded_parse (limit : Nat) (source : String) :
    ∃ after, Recorded.parseProgram limit (.ofString source) =
        (parseWithin limit source, ⟨after, parseLog limit source⟩) ∧
      ∃ between closing, parseLog limit source = .parsingProgram :: (between ++ [closing]) ∧
        (∀ event ∈ between, event.reads = true) ∧
        Closes (tokenizeLog source) (parseWithin limit source) between closing := by
  have logged := Recorded.recorder_kin.program limit (.ofString source) [.parsingProgram]
  have told := @TokenStream.told_parse (.ofString source) limit rfl
  have exhausted := @TokenStream.parse_program_exhausts (.ofString source) limit
  have whole : tokenizeLog source = (TokenStream.ofString source).cursor.told := rfl
  rw [parse_log_eq, parseWithin, whole, Record.ofString, Recorded.parse_program_eq]
  dsimp only
  rw [List.nil_append]
  rw [Reader.parse_program_parts] at told exhausted ⊢
  generalize Cursor.toldWithin _ _ = front at told ⊢
  generalize Reader.parts.program limit (.ofString source) = plain, Recorded.parts.program limit
    ⟨.ofString source, [.parsingProgram]⟩ = answer at logged told exhausted ⊢
  -- What the recorder has written is what is told in front of the stream it leaves.
  cases logged with
  | @ok statements after added passed reads =>
      have ended := Cursor.told_nothing (exhausted (TokenStream.sound_of_nothing rfl) rfl).ended
      obtain rfl : front = added := List.append_cancel_right (told.trans passed.symm)
      rw [ended, List.append_nil] at passed
      rw [← passed]
      exact ⟨after, rfl, front, _, rfl, reads, .parsed statements⟩
  | @grammatical fault p after added passed reads =>
      obtain rfl : front = added := List.append_cancel_right (told.trans passed.symm)
      exact ⟨after, rfl, front, _, rfl, reads, .refused fault p ⟨_, passed⟩⟩
  | @lexical error after added passed reads =>
      have all : front ++ [] = added ++ [.lexicalError error] := by
        rw [List.append_nil, passed]
        exact told
      rw [← passed]
      exact ⟨after, by rw [← all]; rfl, added, _, congrArg _ all, reads, .flawed error added rfl⟩

theorem log_tells_run (source : String) :
    (∃ after, Recorded.tokenize (.ofString source) =
      ((tokenize source).mapError .lexical, ⟨after, tokenizeLog source⟩)) ∧
    (∀ events, Tells .start source.toList events ↔ events = tokenizeLog source) ∧
    ((tokenizeLog source).filter fun event => event.message == "Produced token").map Event.fields =
      (yielded source).map (fun token => [("kind", token.kind.text),
        ("line", toString token.position.line), ("column", toString token.position.column)]) ∧
    (match tokenize source with
      | .ok _ => ∀ event ∈ tokenizeLog source, event.reads = true
      | .error error => ∃ front, tokenizeLog source = front ++ [.lexicalError error] ∧
          ∀ event ∈ front, event.reads = true) ∧
    ∀ limit,
      (∃ after, Recorded.parseProgram limit (.ofString source) =
        (parseWithin limit source, ⟨after, parseLog limit source⟩)) ∧
      ∃ between closing, parseLog limit source = .parsingProgram :: (between ++ [closing]) ∧
        (∀ event ∈ between, event.reads = true) ∧
        Closes (tokenizeLog source) (parseWithin limit source) between closing := by
  obtain ⟨after, tokenized, ends⟩ := recorded_tokenize source
  refine ⟨⟨after, tokenized⟩, Cursor.tells_iff ⟨source.toList, .start⟩, ?_, ends, fun limit => ?_⟩
  · have produced : (tokenizeLog source).filter _ = _ := Cursor.produced_told (.ofString source)
    rw [produced, List.map_map]
    rfl
  · obtain ⟨behind, recorded, parts⟩ := recorded_parse limit source
    exact ⟨⟨behind, recorded⟩, parts⟩

end ScriptReader
