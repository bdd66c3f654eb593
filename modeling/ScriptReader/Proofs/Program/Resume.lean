import ScriptReader.Proofs.Demand.Counter
import ScriptReader.Proofs.Grammar.Extension
import ScriptReader.Proofs.Token.Advance

set_option autoImplicit false

namespace ScriptReader

namespace Rule

theorem expression_nothing (level : Nat) (looked : Bool) :
    ∃ obstacle, expression level looked [] = .error ⟨obstacle, []⟩ := by
  cases level with
  | zero => exact ⟨.tooDeep looked, rfl⟩
  | succ level => exact ⟨.missing .expression, rfl⟩

theorem primary_alone (level : Nat) (kind : TokenKind) :
    (∃ node, primary (expression level) [kind] = .ok (node, [])) ∨
      (∃ obstacle, primary (expression level) [kind] = .error ⟨obstacle, []⟩) ∨
        primary (expression level) [kind] = .error ⟨.missing .expression, [kind]⟩ := by
  obtain ⟨obstacle, nothing⟩ := expression_nothing level false
  cases kind with
  | number text => exact .inl ⟨_, rfl⟩
  | string value => exact .inl ⟨_, rfl⟩
  | character value => exact .inl ⟨_, rfl⟩
  | identifier name => exact .inl ⟨_, rfl⟩
  | operator symbol => exact .inr (.inr rfl)
  | keyword word =>
      cases word with
      | trueWord => exact .inl ⟨_, rfl⟩
      | falseWord => exact .inl ⟨_, rfl⟩
      | ifWord =>
          refine .inr (.inl ⟨obstacle, ?_⟩)
          simp only [primary, reserved, conditional, nothing, bind, Except.bind]
      | defWord => exact .inr (.inl ⟨_, rfl⟩)
      | _ => exact .inr (.inr rfl)
  | punctuation c =>
      simp only [primary]
      split
      · rename_i opens
        refine .inr (.inl ⟨obstacle, ?_⟩)
        simp only [group, mark, opens, if_true, nothing, bind, Except.bind]
      · split
        · rename_i opens
          refine .inr (.inl ⟨.missing (.mark '\x7d'), ?_⟩)
          rw [opens]
          rfl
        · exact .inr (.inr rfl)

theorem program_alone (level : Nat) (kind : TokenKind) :
    (∃ statements, program (level + 1) [kind] = .ok (statements, [])) ∨
      (∃ obstacle, program (level + 1) [kind] = .error ⟨obstacle, []⟩) ∨
        program (level + 1) [kind] = .error ⟨.missing .expression, [kind]⟩ := by
  rcases primary_alone level kind with ⟨node, read⟩ | ⟨obstacle, stopped⟩ | stopped
  · refine .inl ⟨[node], ?_⟩
    simp only [program, elements, expression, operandOver, read, bind, Except.bind]
    rfl
  · refine .inr (.inl ⟨obstacle, ?_⟩)
    simp only [program, elements, expression, operandOver, stopped, bind, Except.bind]
    rfl
  · refine .inr (.inr ?_)
    simp only [program, elements, expression, operandOver, stopped, bind, Except.bind]
    rfl

theorem program_takes {level : Nat} {tokens : List TokenKind} {stop : Stop}
    (stopped : program (level + 1) tokens = .error stop) :
    tokens ≠ [] ∧ (stop.unread.length < tokens.length ∨ stop.obstacle = .missing .expression) := by
  cases tokens with
  | nil => cases stopped
  | cons kind rest =>
      refine ⟨List.cons_ne_nil _ _, ?_⟩
      have extended := program_extensible (level + 1) [kind] rest
      rw [List.singleton_append, stopped] at extended
      rcases extended with ⟨_, same⟩ | ⟨_, further⟩
      · rcases program_alone level kind with ⟨statements, read⟩ | ⟨obstacle, failed⟩ | failed
        · rw [read] at same
          cases same
        · rw [failed] at same
          cases same
          exact .inl (Nat.lt_succ_self _)
        · rw [failed] at same
          cases same
          exact .inr rfl
      · exact .inl (Nat.lt_succ_of_le further.length_le)

end Rule

def ParseError.unexpected : ParseError → Bool
  | .lexical error => error.fault.unexpected
  | .grammatical _ _ => false

namespace TokenStream

open Reader (conclude parse_program_ok parse_program_stop)

variable {stream : TokenStream} {limit level : Nat} {c : Char}

-- A call reads everything, or goes on, or stays in front of a character that no token begins with. So only
-- as many calls can differ as there are characters.
inductive Leaves (stream : TokenStream) : Except ParseError Node × TokenStream → Prop where
  | read {tree : Node} {after : TokenStream} (exhausted : Exhausted after) :
      Leaves stream (.ok tree, after)
  | stopped {error : ParseError} {after : TokenStream} (other : error.unexpected = false)
      (further : Advances stream after) : Leaves stream (.error error, after)
  | stuck {c : Char} {after : TokenStream} (stands : Stuck after c) :
      Leaves stream (.error (.lexical (after.cursor.error (.unexpectedCharacter c))), after)

theorem before_sound (sound : Sound stream) (tokens : List TokenKind) : Sound (before stream tokens) :=
  sound_skip sound _

theorem before_moves (sound : Sound stream) (tokens : List TokenKind) :
    Moves stream (before stream tokens) := skip_moves sound _

theorem before_advances (sound : Sound stream) {tokens : List TokenKind}
    (fewer : tokens.length < stream.upcoming.length) : Advances stream (before stream tokens) :=
  skip_advances sound (Nat.sub_pos_of_lt fewer) (Nat.sub_le _ _)

theorem upcoming_ended (ended : stream.next.1 = .ok none) : stream.upcoming = [] := by
  rw [upcoming_next]
  generalize stream.next = answer at ended ⊢
  obtain ⟨result, behind⟩ := answer
  cases ended
  rfl

theorem leaves_of_flaw {plain behind : TokenStream} {error : LexicalError} (moves : Moves stream plain)
    (flawed : plain.peek = (.error error, behind)) : Leaves stream (.error (.lexical error), behind) := by
  have same := (next_of_peek plain).2 error (congrArg Prod.fst flawed)
  rw [flawed] at same
  have failed : plain.next.1 = .error error := congrArg Prod.fst same
  rcases next_error failed with ⟨c, rfl, stands⟩ | ⟨other, further⟩
  · rw [same] at stands ⊢
    exact .stuck stands
  · rw [same] at further
    exact .stopped other (moves_advances moves further)

theorem leaves_of_missing {what : Expectation} {unread : List TokenKind} (sound : Sound stream)
    (suffix : unread <:+ stream.upcoming) (filled : stream.upcoming ≠ [])
    (took : unread.length < stream.upcoming.length ∨ what.takes = true) :
    Leaves stream (.error (conclude stream limit ⟨.missing what, unread⟩).1,
      (conclude stream limit ⟨.missing what, unread⟩).2) := by
  have moves := before_moves sound unread
  have coming := before_upcoming suffix
  rw [conclude]
  cases shown : (before stream unread).peek with
  | mk result behind =>
      have looked := peek_moves (before stream unread)
      have taken := (next_of_peek (before stream unread)).1
      rw [shown] at looked taken
      rcases result with error | _ | token
      · exact leaves_of_flaw moves shown
      · have fewer : unread.length < stream.upcoming.length := by
          rw [← coming, upcoming_ended taken]
          exact List.length_pos_iff.mpr filled
        exact .stopped rfl (advances_moves (before_advances sound fewer) looked)
      · cases keeps : what.takes with
        | true =>
            have same := (peek_again _ _ (congrArg Prod.fst shown)).2
            rw [shown] at same
            simp only [if_true, same]
            exact .stopped rfl (moves_advances moves (next_advances (before_sound sound unread) taken))
        | false =>
            rcases took with fewer | takes
            · exact .stopped rfl (advances_moves (before_advances sound fewer) looked)
            · rw [keeps] at takes
              cases takes

theorem leaves_of_read {statements : List Node} (sound : Sound stream)
    (read : Rule.program limit stream.upcoming = .ok (statements, [])) :
    Leaves stream (stream.parseProgram limit) := by
  have coming := before_upcoming (List.nil_suffix : [] <:+ stream.upcoming)
  obtain ⟨same, nothing⟩ := next_of_nothing _ coming
  rw [parse_program_ok read]
  cases shown : (before stream []).peek with
  | mk result behind =>
      rw [shown] at same nothing
      cases result with
      | error error => exact leaves_of_flaw (before_moves sound []) shown
      | ok found =>
          rcases nothing with ended | ⟨_, flawed⟩
          · have exhausted := next_ended ((congrArg Prod.fst same).trans ended)
            rw [same] at exhausted
            exact .read exhausted
          · cases flawed

theorem parse_program_exhausts {tree : Node} {after : TokenStream} (sound : Sound stream)
    (parsed : stream.parseProgram limit = (.ok tree, after)) : Exhausted after := by
  cases read : Rule.program limit stream.upcoming with
  | ok item =>
      obtain ⟨statements, rest⟩ := item
      obtain rfl := Rule.program_reads_all _ _ _ _ read
      have leaves := leaves_of_read sound read
      rw [parsed] at leaves
      cases leaves with
      | read exhausted => exact exhausted
  | error stop =>
      rw [parse_program_stop read] at parsed
      cases parsed

theorem parse_program_leaves (sound : Sound stream) (level : Nat) :
    Leaves stream (stream.parseProgram (level + 1)) := by
  have bounded := Rule.bounded_of_extensible (Rule.program_extensible (level + 1)) stream.upcoming
  cases read : Rule.program (level + 1) stream.upcoming with
  | ok item =>
      obtain ⟨statements, rest⟩ := item
      obtain rfl := Rule.program_reads_all _ _ _ _ read
      exact leaves_of_read sound read
  | error stop =>
      rw [read] at bounded
      obtain ⟨filled, took⟩ := Rule.program_takes read
      rw [parse_program_stop read]
      obtain ⟨obstacle, unread⟩ := stop
      cases obstacle with
      | missing what =>
          refine leaves_of_missing sound bounded filled ?_
          rcases took with fewer | same
          · exact .inl fewer
          · cases same
            exact .inr rfl
      | tooDeep looked =>
          rcases took with fewer | same
          · have further := before_advances sound fewer
            cases looked with
            | false => exact .stopped rfl further
            | true => exact .stopped rfl (advances_moves further (peek_moves _))
          · cases same

theorem lasting_parse_program {kept : TokenStream → Prop} (lasting : Lasting kept)
    (holds : kept stream) (limit : Nat) : kept (stream.parseProgram limit).2 := by
  have passed := lasting.skip holds (attempt limit stream.upcoming).taken
  have looked := lasting.looked _ passed
  simp only [parseProgram]
  generalize stream.skip (attempt limit stream.upcoming).taken = plain at passed looked ⊢
  split
  · dsimp only
    split
    · exact looked
    · exact passed
  · generalize plain.peek = answer at looked ⊢
    obtain ⟨result, behind⟩ := answer
    rcases result with error | _ | token
    · exact looked
    · exact looked
    · dsimp only
      split
      · exact lasting.next behind
      · exact looked
  · generalize plain.peek = answer at looked ⊢
    obtain ⟨result, behind⟩ := answer
    cases result <;> exact looked

theorem parse_program_exhausted (exhausted : Exhausted stream) (limit : Nat) :
    stream.parseProgram limit = (.ok (.block []), stream) := by
  obtain ⟨⟨rest, position⟩, peeked, failed⟩ := stream
  obtain ⟨rfl, rfl⟩ := exhausted
  have coming : upcoming ⟨⟨[], position⟩, none, failed⟩ = [] := by
    rw [upcoming, transcript_end [] rfl]
    rfl
  have read : Rule.program limit (upcoming ⟨⟨[], position⟩, none, failed⟩) = .ok ([], []) := by
    rw [coming]
    rfl
  rw [parse_program_ok read, before, coming]
  rfl

theorem parse_program_stuck (stuck : Stuck stream c) (limit : Nat) :
    stream.parseProgram limit =
      (.error (.lexical (stream.cursor.error (.unexpectedCharacter c))), { stream with failed := true }) := by
  obtain ⟨cursor, peeked, failed⟩ := stream
  obtain ⟨rfl, head, again⟩ := stuck
  have coming := upcoming_next ⟨cursor, none, failed⟩
  simp only [next, again] at coming
  have read : Rule.program limit (upcoming ⟨cursor, none, failed⟩) = .ok ([], []) := by
    rw [coming]
    rfl
  rw [parse_program_ok read, before, coming]
  simp only [List.length_nil, Nat.sub_self, skip, peek, again]

end TokenStream

open TokenStream

def Parser.resumed (limit : Nat) : Nat → Parser → Parser
  | 0, parser => parser
  | count + 1, parser => resumed limit count (parser.parseProgram limit).2

def Parser.answer (limit count : Nat) (parser : Parser) : Except ParseError Node :=
  ((parser.resumed limit count).parseProgram limit).1

section Resumed

variable {limit level : Nat} {stream : TokenStream} {c : Char}

theorem answer_zero (limit : Nat) (stream : TokenStream) :
    (Parser.ofStream stream).answer limit 0 = (stream.parseProgram limit).1 :=
  congrArg Prod.fst (parser_eq limit stream)

theorem answer_succ (limit count : Nat) (stream : TokenStream) :
    (Parser.ofStream stream).answer limit (count + 1) =
      (Parser.ofStream (stream.parseProgram limit).2).answer limit count := by
  rw [Parser.answer, Parser.resumed, parser_eq]
  rfl

theorem resumed_lasting {kept : TokenStream → Prop} (lasting : Lasting kept) (holds : kept stream)
    (limit count : Nat) :
    ∃ later, (Parser.ofStream stream).resumed limit count = .ofStream later ∧ kept later := by
  induction count generalizing stream with
  | zero => exact ⟨stream, rfl, holds⟩
  | succ count ih =>
      rw [Parser.resumed, parser_eq]
      exact ih (lasting_parse_program lasting holds limit)

theorem resumed_sound (sound : Sound stream) (limit count : Nat) :
    ∃ later, (Parser.ofStream stream).resumed limit count = .ofStream later ∧ Sound later :=
  resumed_lasting sound_lasting sound limit count

theorem answer_of_exhausted (exhausted : Exhausted stream) (limit count : Nat) :
    (Parser.ofStream stream).answer limit count = .ok (.block []) := by
  have again := parse_program_exhausted exhausted limit
  induction count with
  | zero => rw [answer_zero, again]
  | succ count ih => rw [answer_succ, again, ih]

theorem answer_of_stuck (stuck : Stuck stream c) (limit count : Nat) :
    (Parser.ofStream stream).answer limit count =
      .error (.lexical (stream.cursor.error (.unexpectedCharacter c))) := by
  induction count generalizing stream with
  | zero => rw [answer_zero, parse_program_stuck stuck]
  | succ count ih =>
      rw [answer_succ, parse_program_stuck stuck]
      exact ih ⟨stuck.nothing, stuck.head, stuck.again⟩

-- Each call that goes on leaves less to read, so that the answers settle with the text.
theorem answers_settle (bound : Nat) (sound : Sound stream) (enough : stream.unread ≤ bound) :
    ∃ final, (final = .ok (.block []) ∨
        ∃ c p, final = .error (.lexical ⟨.unexpectedCharacter c, p⟩)) ∧
      ∀ count, bound ≤ count → (Parser.ofStream stream).answer (level + 1) count = final := by
  induction bound generalizing stream with
  | zero =>
      have exhausted : Exhausted stream := by
        simp only [unread, Nat.le_zero_eq, Nat.add_eq_zero_iff, List.length_eq_zero_iff,
          Option.toList_eq_nil_iff] at enough
        exact ⟨enough.2, enough.1⟩
      exact ⟨_, .inl rfl, fun count _ => answer_of_exhausted exhausted _ count⟩
  | succ bound ih =>
      have leaves := parse_program_leaves sound level
      have later := lasting_parse_program sound_lasting sound (level + 1)
      have first := answer_zero (level + 1) stream
      have others := fun count => answer_succ (level + 1) count stream
      generalize stream.parseProgram (level + 1) = answer at leaves later first others
      cases leaves with
      | read exhausted =>
          refine ⟨_, .inl rfl, fun count passed => ?_⟩
          obtain ⟨count, rfl⟩ := Nat.exists_eq_add_of_le' (Nat.lt_of_lt_of_le (Nat.succ_pos bound) passed)
          rw [others]
          exact answer_of_exhausted exhausted _ count
      | @stuck c after stands =>
          refine ⟨_, .inr ⟨c, after.cursor.position, rfl⟩, fun count _ => ?_⟩
          cases count with
          | zero => exact first
          | succ count => rw [others]; exact answer_of_stuck stands _ count
      | @stopped error after other further =>
          have less : after.unread ≤ bound := Nat.le_of_lt_succ (Nat.lt_of_lt_of_le further.unread enough)
          obtain ⟨final, settled, constant⟩ := ih later less
          refine ⟨final, settled, fun count passed => ?_⟩
          cases count with
          | zero => exact absurd passed (Nat.not_succ_le_zero bound)
          | succ count => rw [others]; exact constant count (Nat.le_of_succ_le_succ passed)

end Resumed

theorem calls_resume (limit : Nat) (positive : 1 ≤ limit) (cursor : Cursor) (calls : List Call) :
    let start := Parser.ofStream (Call.run (.ofCursor cursor) calls).2
    (∀ count,
      let before := start.resumed limit count
      let result := (before.parseProgram limit).1
      let after := (before.parseProgram limit).2
      after.depth = 0 ∧
        (∀ tree, result = .ok tree →
          after.stream.peeked = none ∧ after.stream.cursor.rest = [] ∧
            ∀ more, after.answer limit more = .ok (.block [])) ∧
        (∀ error, result = .error error → error.unexpected = false →
          before.stream.position < after.stream.position) ∧
        ∀ c p, result = .error (.lexical ⟨.unexpectedCharacter c, p⟩) →
          after.stream.peeked = none ∧ after.stream.cursor.position = p ∧
            after.stream.cursor.rest.head? = some c ∧ ∀ more, after.answer limit more = result) ∧
      ∃ final, (final = .ok (.block []) ∨
          ∃ c p, final = .error (.lexical ⟨.unexpectedCharacter c, p⟩)) ∧
        ∀ count, start.stream.cursor.rest.length + 1 ≤ count → start.answer limit count = final := by
  intro start
  obtain ⟨level, rfl⟩ := Nat.exists_eq_add_of_le' positive
  have sound : Sound start.stream := Call.run_sound (sound_of_nothing rfl) calls
  refine ⟨fun count => ?_, ?_⟩
  · obtain ⟨stream, same, known⟩ := resumed_sound sound (level + 1) count
    have leaves := parse_program_leaves known level
    dsimp only
    rw [show start.resumed (level + 1) count = Parser.ofStream stream from same, parser_eq]
    generalize stream.parseProgram (level + 1) = answer at leaves ⊢
    cases leaves with
    | read exhausted =>
        refine ⟨rfl, fun tree _ => ?_, nofun, nofun⟩
        exact ⟨exhausted.nothing, exhausted.ended, answer_of_exhausted exhausted _⟩
    | stopped other further =>
        refine ⟨rfl, nofun, fun _ _ _ => further.position, fun c p failed => ?_⟩
        cases failed
        cases other
    | stuck stands =>
        refine ⟨rfl, nofun, fun error failed other => ?_, fun c p failed => ?_⟩
        · cases failed
          cases other
        · cases failed
          exact ⟨stands.nothing, rfl, stands.head, answer_of_stuck stands _⟩
  · have few : start.stream.unread ≤ start.stream.cursor.rest.length + 1 := by
      have one : start.stream.peeked.toList.length ≤ 1 := by cases start.stream.peeked <;> simp
      rw [unread]
      omega
    exact answers_settle _ sound few

theorem unknown_character_stays :
    let start := Parser.ofStream (Call.run (.ofCursor (.ofString ") $")) [.peek]).2
    1 ≤ 1 ∧
      start.answer 1 0 = .error (.grammatical (Expectation.expression.faultAt (.punctuation ')')) ⟨1, 0⟩) ∧
      start.answer 1 1 = .error (.lexical ⟨.unexpectedCharacter '$', ⟨1, 2⟩⟩) ∧
      ∀ more, (start.resumed 1 2).answer 1 more = start.answer 1 1 := by
  intro start
  have first : start.answer 1 0 =
      .error (.grammatical (Expectation.expression.faultAt (.punctuation ')')) ⟨1, 0⟩) := by
    with_unfolding_all rfl
  have second : start.answer 1 1 = .error (.lexical ⟨.unexpectedCharacter '$', ⟨1, 2⟩⟩) := by
    with_unfolding_all rfl
  have calls := (calls_resume 1 (Nat.le_refl 1) (.ofString ") $") [.peek]).1 1
  exact ⟨Nat.le_refl 1, first, second, (calls.2.2.2 '$' ⟨1, 2⟩ second).2.2.2⟩

end ScriptReader
