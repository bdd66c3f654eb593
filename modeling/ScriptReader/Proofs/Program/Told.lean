import ScriptReader.Program.Log
import ScriptReader.Proofs.Token.Advance
import ScriptReader.Proofs.Token.Flawed

set_option autoImplicit false

namespace ScriptReader

-- What reading tells, without a reader: comments and tokens where they stand, and the end or the flaw.
inductive Tells : Position → List Char → List Event → Prop where
  | nothing (p : Position) : Tells p [] []
  | blank {p : Position} {text : List Char} {events : List Event} (c : Char)
      (blank : c = ' ' ∨ c = '\t' ∨ c = '\n' ∨ c = '\r') (later : Tells (p.advance c) text events) :
      Tells p (c :: text) events
  | comment {p : Position} {text : List Char} {events : List Event} (inside : List Char)
      (line : '\n' ∉ inside) (later : Tells (p.advanceOver ('#' :: (inside ++ ['\n']))) text events) :
      Tells p ('#' :: (inside ++ '\n' :: text))
        (.skippedComment p.line (String.ofList ('#' :: inside)).utf8ByteSize :: events)
  | lastComment {p : Position} (inside : List Char) (line : '\n' ∉ inside) :
      Tells p ('#' :: inside) [.skippedComment p.line (String.ofList ('#' :: inside)).utf8ByteSize]
  | token {p : Position} {spelling rest : List Char} {kind : TokenKind} {events : List Event}
      (spells : Spells spelling kind) (ends : kind.EndsBefore rest)
      (later : Tells (p.advanceOver spelling) rest events) :
      Tells p (spelling ++ rest) (.producedToken ⟨kind, p⟩ :: events)
  | flaw {p : Position} {error : LexicalError} {passed rest : List Char}
      (flawed : Flawed p error passed rest) : Tells p (passed ++ rest) [.lexicalError error]

section Comments

theorem comments_onto_eq (found : List Event) (inside : Option (Nat × Nat)) (p : Position)
    (gap : List Char) :
    commentsOnto found inside p gap = found.reverse ++ commentsOnto [] inside p gap := by
  induction gap generalizing found inside p with
  | nil => cases inside <;> simp [commentsOnto]
  | cons c gap ih =>
      cases inside with
      | none => exact ih _ _ _
      | some known =>
          simp only [commentsOnto]
          split
          · rw [ih, ih [_]]
            simp
          · exact ih _ _ _

theorem comments_inside (line bytes : Nat) (p : Position) (inside gap : List Char)
    (noNewline : '\n' ∉ inside) :
    commentsOnto [] (some (line, bytes)) p (inside ++ gap) =
      commentsOnto [] (some (line, bytes + (String.ofList inside).utf8ByteSize))
        (p.advanceOver inside) gap := by
  induction inside generalizing bytes p with
  | nil => rfl
  | cons c inside ih =>
      obtain ⟨other, later⟩ : '\n' ≠ c ∧ '\n' ∉ inside := by simpa using noNewline
      rw [List.cons_append, commentsOnto, if_neg (Ne.symm other), ih _ _ later, String.ofList_cons,
        String.utf8ByteSize_append, String.utf8ByteSize_singleton, Nat.add_assoc,
        Position.advance_over_cons]

variable (p : Position) {gap inside : List Char}

theorem comments_blank {c : Char} (blank : c = ' ' ∨ c = '\t' ∨ c = '\n' ∨ c = '\r')
    (gap : List Char) : comments p (c :: gap) = comments (p.advance c) gap := by
  have plain : c ≠ '#' := by
    rintro rfl
    revert blank
    decide
  rw [comments, commentsOnto, if_neg plain]
  rfl

theorem comment_append (inside gap rest : List Char) :
    '#' :: (inside ++ '\n' :: gap) ++ rest = '#' :: (inside ++ '\n' :: (gap ++ rest)) := by
  simp

theorem comment_parts (inside gap : List Char) :
    '#' :: (inside ++ '\n' :: gap) = '#' :: (inside ++ ['\n']) ++ gap := by
  simp

theorem comment_bytes (inside : List Char) :
    '#'.utf8Size + (String.ofList inside).utf8ByteSize =
      (String.ofList ('#' :: inside)).utf8ByteSize := by
  rw [String.ofList_cons, String.utf8ByteSize_append, String.utf8ByteSize_singleton]

theorem comments_comment (gap : List Char) (noNewline : '\n' ∉ inside) :
    comments p ('#' :: (inside ++ '\n' :: gap)) =
      .skippedComment p.line (String.ofList ('#' :: inside)).utf8ByteSize ::
        comments (p.advanceOver ('#' :: (inside ++ ['\n']))) gap := by
  rw [comments, commentsOnto, if_pos rfl, comments_inside _ _ _ _ _ noNewline, comment_bytes, commentsOnto,
    if_pos rfl, comments_onto_eq, Position.advance_over_cons, Position.advance_over_append]
  rfl

theorem comments_last (noNewline : '\n' ∉ inside) :
    comments p ('#' :: inside) =
      [.skippedComment p.line (String.ofList ('#' :: inside)).utf8ByteSize] := by
  have whole := comments_inside p.line '#'.utf8Size (p.advance '#') inside [] noNewline
  rw [List.append_nil, comment_bytes] at whole
  rw [comments, commentsOnto, if_pos rfl, whole]
  rfl

theorem comments_append (skips : Gap gap) (rest : List Char) :
    comments p (gap ++ rest) = comments p gap ++ comments (p.advanceOver gap) rest := by
  induction skips generalizing p with
  | none => rfl
  | blank c blank later ih =>
      rw [List.cons_append, comments_blank p blank, comments_blank p blank, ih,
        Position.advance_over_cons]
  | @comment gap inside line later ih =>
      rw [comment_append, comments_comment p _ line, comments_comment p _ line, ih, comment_parts inside gap,
        Position.advance_over_append]
      rfl

theorem gap_tells {p : Position} {rest : List Char} {events : List Event} (skips : Gap gap)
    (later : Tells (p.advanceOver gap) rest events) : Tells p (gap ++ rest) (comments p gap ++ events) := by
  induction skips generalizing p with
  | none => exact later
  | blank c blank skips ih =>
      rw [comments_blank p blank]
      exact .blank c blank (ih later)
  | @comment gap inside line skips ih =>
      rw [comment_parts, Position.advance_over_append] at later
      rw [comment_append, comments_comment p _ line]
      exact .comment inside line (ih later)

theorem final_gap_tells (final : FinalGap gap) : Tells p gap (comments p gap) := by
  cases final with
  | whole skips =>
      have told := gap_tells skips (.nothing (p.advanceOver gap))
      rwa [List.append_nil, List.append_nil] at told
  | @comment gap skips inside line =>
      rw [comments_append p skips, comments_last _ line]
      exact gap_tells skips (.lastComment inside line)

end Comments

namespace Transcript

variable (p : Position) (transcript : Transcript)

theorem events_within_zero : transcript.eventsWithin 0 p = [] := by
  simp [eventsWithin]

theorem events_within_succ (count : Nat) (lexeme : Lexeme) (lexemes : List Lexeme)
    (first : transcript.lexemes = lexeme :: lexemes) :
    transcript.eventsWithin (count + 1) p =
      lexeme.events p ++
        { transcript with lexemes := lexemes }.eventsWithin count (p.advanceOver lexeme.text) := by
  simp [eventsWithin, first, endEvents]

theorem events_within_end (count : Nat) (ended : transcript.lexemes = []) :
    transcript.eventsWithin (count + 1) p = transcript.endEvents p := by
  simp [eventsWithin, ended, place, placeOnto]

end Transcript

namespace Cursor

def toldWithin (count : Nat) (cursor : Cursor) : List Event :=
  (transcript cursor.rest).eventsWithin count cursor.position

def told (cursor : Cursor) : List Event := (transcript cursor.rest).events cursor.position

def heard (cursor : Cursor) : List Event :=
  comments cursor.position (read cursor.rest).gap ++
    match cursor.token.1 with
    | .ok none => []
    | .ok (some token) => [.producedToken token]
    | .error error => [.lexicalError error]

theorem told_within_zero (cursor : Cursor) : cursor.toldWithin 0 = [] :=
  Transcript.events_within_zero _ _

theorem told_within_succ (count : Nat) (cursor : Cursor) :
    cursor.toldWithin (count + 1) =
      cursor.heard ++
        match cursor.token with
        | (.ok (some _), behind) => behind.toldWithin count
        | _ => [] := by
  cases found : (read cursor.rest).lexed with
  | none =>
      have ended := transcript_end cursor.rest found
      rw [toldWithin, Transcript.events_within_end _ _ _ (by rw [ended]), ended]
      simp [heard, token, found, Transcript.endEvents, read_end cursor.rest found]
  | some lexed =>
      obtain ⟨outcome, spelling, rest⟩ := lexed
      cases outcome with
      | error flaw =>
          have ended := transcript_flaw cursor.rest flaw spelling rest found
          rw [toldWithin, Transcript.events_within_end _ _ _ (by rw [ended]), ended]
          simp [heard, token, found, Transcript.endEvents]
      | ok kind =>
          have first := transcript_token cursor.rest kind spelling rest found
          rw [toldWithin, first, Transcript.events_within_succ _ _ _ _ _ rfl]
          simp [heard, token, found, toldWithin, Lexeme.events, Lexeme.text, Lexeme.token]

theorem lexemes_of_token {cursor behind : Cursor} {found : Token}
    (read : cursor.token = (.ok (some found), behind)) :
    (transcript cursor.rest).lexemes.length = (transcript behind.rest).lexemes.length + 1 := by
  simp only [token] at read
  split at read
  · cases read
  · rename_i outcome spelling rest same
    split at read
    · cases read
      rw [transcript_token _ _ _ _ same, List.length_cons]
    · cases read

theorem told_within_enough {count : Nat} {cursor : Cursor}
    (enough : (transcript cursor.rest).lexemes.length < count) :
    cursor.toldWithin count = cursor.told := by
  have placed := tokens_from_length cursor.position (transcript cursor.rest).lexemes
  rw [tokensFrom, List.length_map] at placed
  simp only [toldWithin, told, Transcript.events, Transcript.eventsWithin, placed]
  rw [List.take_of_length_le (by omega), List.take_of_length_le (by omega), if_pos enough,
    if_pos (Nat.lt_succ_self _)]

theorem told_eq (cursor : Cursor) :
    cursor.told =
      cursor.heard ++
        match cursor.token with
        | (.ok (some _), behind) => behind.told
        | _ => [] := by
  have unrolled := told_within_succ ((transcript cursor.rest).lexemes.length + 1) cursor
  rw [told_within_enough (by omega)] at unrolled
  rw [unrolled]
  split
  · rename_i found behind read
    have fewer := lexemes_of_token read
    rw [told_within_enough (by omega)]
  · rfl

theorem reading_induction {motive : Cursor → Prop}
    (step : ∀ cursor, (∀ found behind, cursor.token = (.ok (some found), behind) → motive behind) →
      motive cursor) (cursor : Cursor) : motive cursor := by
  generalize size : (transcript cursor.rest).lexemes.length = bound
  induction bound using Nat.strongRecOn generalizing cursor with
  | ind bound ih =>
      refine step cursor fun found behind read => ?_
      have fewer := lexemes_of_token read
      exact ih _ (by omega) behind rfl

theorem tells_told (cursor : Cursor) : Tells cursor.position cursor.rest cursor.told := by
  induction cursor using reading_induction with
  | step cursor ih =>
      rw [told_eq]
      cases found : (read cursor.rest).lexed with
      | none =>
          have final := (read_end_iff cursor.rest).mp found
          have told := final_gap_tells cursor.position final
          simpa [heard, token, found, read_end cursor.rest found] using told
      | some lexed =>
          obtain ⟨outcome, spelling, rest⟩ := lexed
          have parts := read_parts cursor.rest _ found
          rw [List.append_assoc] at parts
          cases outcome with
          | error flaw =>
              obtain ⟨skips, flawed⟩ := read_flawed (cursor.position.advanceOver (read cursor.rest).gap) found
              have told := gap_tells skips (.flaw flawed)
              rw [parts] at told
              simpa [heard, token, found] using told
          | ok kind =>
              have reading : read cursor.rest =
                  ⟨(read cursor.rest).gap, some ⟨.ok kind, spelling, rest⟩⟩ := by rw [← found]
              obtain ⟨_, skips, spells, ends⟩ := (read_eq_iff _ _ _ _ _).mp reading
              let start := cursor.position.advanceOver (read cursor.rest).gap
              have later := ih ⟨kind, start⟩ ⟨rest, start.advanceOver spelling⟩
                (by simp only [token, found, start])
              have told := gap_tells skips (.token spells ends later)
              rw [parts] at told
              simpa [heard, token, found] using told

theorem told_nothing {cursor : Cursor} (ended : cursor.rest = []) : cursor.told = [] := by
  rw [told, ended, transcript_end [] rfl]
  rfl

theorem told_through_gap {gap : List Char} (skips : Gap gap) (text : List Char) (p : Position) :
    (⟨gap ++ text, p⟩ : Cursor).told = comments p gap ++ (⟨text, p.advanceOver gap⟩ : Cursor).told := by
  have same : (⟨gap ++ text, p⟩ : Cursor).token = (⟨text, p.advanceOver gap⟩ : Cursor).token := by
    simp [token, read_through_gap skips text]
  rw [told_eq, told_eq ⟨text, p.advanceOver gap⟩, heard, heard, same, read_through_gap skips text,
    comments_append p skips, List.append_assoc, List.append_assoc, List.append_assoc]

theorem told_of_tells {p : Position} {text : List Char} {events : List Event}
    (tells : Tells p text events) : (⟨text, p⟩ : Cursor).told = events := by
  induction tells with
  | nothing p => exact told_nothing rfl
  | @blank p text events c blank later ih =>
      have through := told_through_gap (.blank c blank .none) text p
      rw [comments_blank p blank] at through
      exact through.trans ih
  | @comment p text events inside line later ih =>
      have through := told_through_gap (.comment inside line .none) text p
      rw [comments_comment p [] line, ih] at through
      rw [← comment_parts] at through
      exact through
  | @lastComment p inside line =>
      have ended : (read ('#' :: inside)).lexed = none := (read_end_iff _).mpr (.comment .none inside line)
      have last := told_eq ⟨'#' :: inside, p⟩
      simpa [heard, token, ended, read_end _ ended, comments_last p line] using last
  | @token p spelling rest kind events spells ends later ih =>
      have found := (read_eq_iff _ [] _ _ _).mpr ⟨rfl, .none, spells, ends⟩
      have first := told_eq ⟨spelling ++ rest, p⟩
      rw [List.nil_append] at found
      simpa [heard, token, found, comments, commentsOnto, ih] using first
  | @flaw p error passed rest flawed =>
      obtain ⟨flaw, located, found⟩ := read_of_flawed flawed
      have first := told_eq ⟨passed ++ rest, p⟩
      simpa [heard, token, found, comments, commentsOnto, located] using first

theorem tells_iff (cursor : Cursor) (events : List Event) :
    Tells cursor.position cursor.rest events ↔ events = cursor.told := by
  constructor
  · intro tells
    exact (told_of_tells tells).symm
  · rintro rfl
    exact tells_told cursor

end Cursor

def Event.reads (event : Event) : Bool :=
  event.message == "Produced token" || event.message == "Skipped comment"

theorem comments_skipped (p : Position) (gap : List Char) :
    ∀ event ∈ comments p gap, event.message = "Skipped comment" := by
  have general : ∀ (inside : Option (Nat × Nat)) (p : Position),
      ∀ event ∈ commentsOnto [] inside p gap, event.message = "Skipped comment" := by
    induction gap with
    | nil =>
        intro inside p event member
        cases inside with
        | none => cases member
        | some known =>
            rw [List.mem_singleton.mp member]
            rfl
    | cons c gap ih =>
        intro inside p event member
        cases inside with
        | none => exact ih _ _ event member
        | some known =>
            simp only [commentsOnto] at member
            split at member
            · rw [comments_onto_eq] at member
              rcases List.mem_append.mp member with here | later
              · rw [List.mem_singleton.mp here]
                rfl
              · exact ih _ _ event later
            · exact ih _ _ event member
  exact general none p

theorem comments_read (p : Position) (gap : List Char) :
    ∀ event ∈ comments p gap, event.reads = true := by
  intro event member
  rw [Event.reads, comments_skipped p gap event member]
  rfl

namespace Cursor

variable {cursor behind : Cursor}

theorem heard_ok {found : Option Token} (read : cursor.token = (.ok found, behind)) :
    cursor.heard ++ behind.told = cursor.told ∧ ∀ event ∈ cursor.heard, event.reads = true := by
  have skipped := comments_read cursor.position (ScriptReader.read cursor.rest).gap
  rw [told_eq cursor, read]
  cases found with
  | none =>
      have nothing : behind.told = [] := by
        rw [told, token_ended read, transcript_end [] rfl]
        rfl
      refine ⟨by rw [nothing], ?_⟩
      rw [heard, read, List.append_nil]
      exact skipped
  | some token =>
      refine ⟨rfl, fun event member => ?_⟩
      rw [heard, read] at member
      rcases List.mem_append.mp member with comment | last
      · exact skipped event comment
      · rw [List.mem_singleton.mp last]
        rfl

theorem heard_error {error : LexicalError} (read : cursor.token = (.error error, behind)) :
    ∃ skipped, cursor.heard = skipped ++ [.lexicalError error] ∧ cursor.told = cursor.heard ∧
      ∀ event ∈ skipped, event.reads = true := by
  refine ⟨comments cursor.position (ScriptReader.read cursor.rest).gap, ?_, ?_, comments_read _ _⟩
  · rw [heard, read]
  · rw [told_eq, read, List.append_nil]

theorem produced_told (cursor : Cursor) :
    (cursor.told.filter fun event => event.message == "Produced token") =
      (tokensFrom cursor.position (transcript cursor.rest).lexemes).map .producedToken := by
  have skipped : ∀ p gap,
      (comments p gap).filter (fun event => event.message == "Produced token") = [] := by
    intro p gap
    rw [List.filter_eq_nil_iff]
    intro event member
    rw [comments_skipped p gap event member]
    decide
  have produced : ∀ token, ((Event.producedToken token).message == "Produced token") = true :=
    fun _ => rfl
  have failed : ∀ error, ((Event.lexicalError error).message == "Produced token") = false :=
    fun _ => rfl
  induction cursor using reading_induction with
  | step cursor ih =>
      rw [told_eq, List.filter_append]
      cases found : (read cursor.rest).lexed with
      | none =>
          rw [transcript_end _ found]
          simp [heard, token, found, skipped]
      | some lexed =>
          obtain ⟨outcome, spelling, rest⟩ := lexed
          cases outcome with
          | error flaw =>
              rw [transcript_flaw _ _ _ _ found]
              simp [heard, token, found, skipped, failed]
          | ok kind =>
              let start := cursor.position.advanceOver (read cursor.rest).gap
              have later := ih ⟨kind, start⟩ ⟨rest, start.advanceOver spelling⟩
                (by simp only [token, found, start])
              rw [transcript_token _ _ _ _ found]
              simp [heard, token, found, skipped, produced, later, start, Lexeme.token, Lexeme.text]

end Cursor

end ScriptReader
