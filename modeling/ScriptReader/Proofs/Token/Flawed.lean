import ScriptReader.Proofs.Token.Interleaved
import ScriptReader.Proofs.Token.Yielded

set_option autoImplicit false

namespace ScriptReader

-- What an error at a text that begins at `p` tells about it, with the characters that have been read of it
-- and those where reading goes on.
inductive Flawed (p : Position) : LexicalError → List Char → List Char → Prop where
  | unexpected (c : Char) (behind : List Char) (quote : c ≠ '"' ∧ c ≠ '\'') (comment : c ≠ '#')
      (blank : isBlank c = false) (digit : isDigit c = false) (word : opensWord c = false)
      (punctuation : isPunctuation c = false) (operator : isOperatorMark c = false) :
      Flawed p ⟨.unexpectedCharacter c, p⟩ [] (c :: behind)
  | unterminated (quote : Char) (quotes : quote = '"' ∨ quote = '\'') (inside : List Char)
      (unclosed : ∀ body value behind, Body quote body value → inside ≠ body ++ quote :: behind) :
      Flawed p ⟨.unterminatedLiteral quote p, p.advanceOver (quote :: inside)⟩ (quote :: inside) []
  -- Reading stops in front of the second point.
  | malformed (whole decimals behind : List Char) (filled : whole ≠ [])
      (digits : whole.all isDigit = true) (further : decimals.all isDigit = true) :
      Flawed p
        ⟨.malformedNumber (String.ofList (whole ++ '.' :: (decimals ++ ['.']))),
          p.advanceOver (whole ++ '.' :: decimals)⟩
        (whole ++ '.' :: decimals) ('.' :: behind)
  | invalid (body value behind : List Char) (closed : Body '\'' body value) (count : value.length ≠ 1) :
      Flawed p ⟨.invalidCharacterLiteral (String.ofList value), p⟩ ('\'' :: (body ++ ['\''])) behind

namespace Scan

theorem pointed_parts (text : List Char) (reads : Machine.after number false text = some true) :
    ∃ whole decimals, text = whole ++ '.' :: decimals ∧ whole.all isDigit = true ∧
      decimals.all isDigit = true := by
  induction text with
  | nil => cases reads
  | cons c text ih =>
      by_cases digit : isDigit c = true
      · have later : Machine.after number false text = some true := by
          simpa [Machine.after, number, digit] using reads
        obtain ⟨whole, decimals, rfl, digits, further⟩ := ih later
        exact ⟨c :: whole, decimals, rfl, by rw [List.all_cons, digit, digits]; rfl, further⟩
      · by_cases point : c = '.'
        · subst point
          have later : Machine.after number true text = some true := by
            simpa [Machine.after, number, digit] using reads
          exact ⟨[], text, rfl, rfl, (after_pointed_iff text).mp ⟨true, later⟩⟩
        · simp [Machine.after, number, digit, point] at reads

variable {text passed rest : List Char} {flaw : Flaw}

theorem number_flawed {c : Char} (p : Position) (first : isDigit c = true)
    (found : numberAt (c :: text) = ⟨.error flaw, passed, rest⟩) :
    Flawed p (flaw.locate p (p.advanceOver passed)) passed rest := by
  have moves : number false c = some false := by simp [number, first]
  obtain ⟨last, reads, halts⟩ := Machine.after_longest number false text
  simp only [numberAt, Machine.longest_cons_step number false false c text moves] at found
  generalize Machine.longest number false text = pair at reads halts found
  obtain ⟨digits, behind⟩ := pair
  split at found
  · rename_i _ later point
    cases found
    dsimp only at point reads halts
    subst point
    -- The machine refuses a point only where it has read one.
    have pointed : last = true := by
      cases last with
      | true => rfl
      | false => cases halts
    subst pointed
    obtain ⟨whole, decimals, rfl, every, further⟩ := pointed_parts digits reads
    have flawed := Flawed.malformed (p := p) (c :: whole) decimals later (List.cons_ne_nil _ _)
      (by rw [List.all_cons, first, every]; rfl) further
    simpa [Flaw.locate] using flawed
  · cases found

theorem literal_closed (quote : Char) (text : List Char) :
    (Machine.longest (body quote) false text = (text, []) ∧
        ∀ body value behind, Body quote body value → quote ≠ '\\' → text ≠ body ++ quote :: behind) ∨
      ∃ inside value behind, text = inside ++ quote :: behind ∧ Body quote inside value := by
  have pieces := Machine.longest_append (body quote) false text
  cases split : Machine.longest (body quote) false text with
  | mk inside behind =>
      rw [split] at pieces
      cases behind with
      | nil =>
          have whole : inside = text := by simpa using pieces
          refine .inl ⟨by rw [whole], fun before value behind within different same => ?_⟩
          have stops : Machine.Halts (body quote) false (quote :: behind) := by simp [Machine.Halts, body]
          have other := Machine.longest_of_after (body quote) false false before _
            (after_body within different) stops
          rw [← same, split] at other
          cases other
      | cons closing behind =>
          obtain ⟨rfl, within⟩ := closing_of_longest split
          exact .inr ⟨inside, _, behind, pieces.symm, within⟩

theorem literal_flawed {quote : Char} {meaning : List Char → Except Flaw TokenKind} (p : Position)
    (quotes : quote = '"' ∨ quote = '\'')
    (means : ∀ value flaw, meaning value = .error flaw →
      quote = '\'' ∧ flaw = .notOneCharacter (String.ofList value) ∧ value.length ≠ 1)
    (found : literal quote meaning text = ⟨.error flaw, passed, rest⟩) :
    Flawed p (flaw.locate p (p.advanceOver passed)) passed rest := by
  have different : quote ≠ '\\' := by rcases quotes with rfl | rfl <;> decide
  rcases literal_closed quote text with ⟨unended, unclosed⟩ | ⟨inside, value, behind, rfl, within⟩
  · rw [literal, unended] at found
    cases found
    exact .unterminated quote quotes text fun body value behind within =>
      unclosed body value behind within different
  · rw [literal_of_body meaning behind within different, Lexed.mk.injEq] at found
    obtain ⟨meant, rfl, rfl⟩ := found
    obtain ⟨rfl, rfl, count⟩ := means value flaw meant
    exact .invalid inside value behind within count

theorem character_flaw (value : List Char) (flaw : Flaw) (meant : characterMeaning value = .error flaw) :
    flaw = .notOneCharacter (String.ofList value) ∧ value.length ≠ 1 := by
  rcases value with _ | ⟨first, _ | ⟨second, more⟩⟩ <;> cases meant
  · exact ⟨rfl, by decide⟩
  · exact ⟨rfl, by simp⟩

theorem token_flawed (p : Position) (opened : ∀ c ∈ text.head?, gap false c = none)
    (found : token text = some ⟨.error flaw, passed, rest⟩) :
    Flawed p (flaw.locate p (p.advanceOver passed)) passed rest := by
  cases text with
  | nil => cases found
  | cons c text =>
      have outside := opened c rfl
      simp only [token, Option.some.injEq] at found
      split at found
      · exact literal_flawed p (.inl rfl) (fun value flaw meant => by cases meant) found
      split at found
      · exact literal_flawed p (.inr rfl) (fun value flaw meant => ⟨rfl, character_flaw value flaw meant⟩)
          found
      split at found
      · rename_i first
        exact number_flawed p first found
      split at found
      · cases found
      split at found
      · cases found
      split at found
      · cases found
      · rename_i string character digit word punctuation operator
        cases found
        have comment : c ≠ '#' := by rintro rfl; cases outside
        have blank : isBlank c = false := by
          apply Bool.eq_false_iff.mpr
          intro known
          simp [gap, comment, known] at outside
        exact .unexpected c text ⟨string, character⟩ comment blank (Bool.eq_false_iff.mpr digit)
          (Bool.eq_false_iff.mpr word) (Bool.eq_false_iff.mpr punctuation) (Bool.eq_false_iff.mpr operator)

theorem after_digits (pointed : Bool) (text : List Char) (digits : text.all isDigit = true) :
    Machine.after number pointed text = some pointed := by
  induction text with
  | nil => rfl
  | cons c text ih =>
      rw [List.all_cons, Bool.and_eq_true] at digits
      simpa [Machine.after, number, digits.1] using ih digits.2

theorem number_second_point (whole decimals behind : List Char) (digits : whole.all isDigit = true)
    (further : decimals.all isDigit = true) :
    numberAt (whole ++ '.' :: decimals ++ '.' :: behind) =
      ⟨.error (.secondPoint (String.ofList (whole ++ '.' :: (decimals ++ ['.'])))), whole ++ '.' :: decimals,
        '.' :: behind⟩ := by
  have reads : Machine.after number false (whole ++ '.' :: decimals) = some true := by
    rw [Machine.after_append, after_digits false whole digits]
    exact after_digits true decimals further
  have halts : Machine.Halts number true ('.' :: behind) := rfl
  rw [numberAt, Machine.longest_of_after number false true _ _ reads halts]
  simp

theorem token_of_flawed {p : Position} {error : LexicalError} (flawed : Flawed p error passed rest) :
    ∃ flaw, flaw.locate p (p.advanceOver passed) = error ∧
      token (passed ++ rest) = some ⟨.error flaw, passed, rest⟩ ∧
      Machine.Halts gap false (passed ++ rest) := by
  cases flawed with
  | unexpected c behind quote comment blank digit word punctuation operator =>
      refine ⟨.unexpectedCharacter c, rfl, ?_, ?_⟩
      · simp [token, quote.1, quote.2, digit, word, punctuation, operator]
      · simp [Machine.Halts, gap, comment, blank]
  | unterminated quote quotes inside unclosed =>
      have whole : Machine.longest (body quote) false inside = (inside, []) := by
        rcases literal_closed quote inside with ⟨whole, _⟩ | ⟨text, value, behind, same, within⟩
        · exact whole
        · exact absurd same (unclosed text value behind within)
      refine ⟨.unterminated quote, rfl, ?_, ?_⟩
      · rcases quotes with rfl | rfl <;> simp [token, literal, whole]
      · rcases quotes with rfl | rfl <;> rfl
  | malformed whole decimals behind filled digits further =>
      obtain ⟨c, whole, rfl⟩ := List.exists_cons_of_ne_nil filled
      have digit : isDigit c = true := by
        rw [List.all_cons, Bool.and_eq_true] at digits
        exact digits.1
      refine ⟨.secondPoint _, rfl, ?_, gap_of_class c (.inr (.inr (.inl digit)))⟩
      rw [← number_second_point _ _ _ digits further]
      exact token_of_digit _ _ digit
  | invalid body value behind closed count =>
      have meant : characterMeaning value = .error (.notOneCharacter (String.ofList value)) := by
        rcases value with _ | ⟨first, _ | ⟨second, more⟩⟩
        · rfl
        · exact absurd rfl count
        · rfl
      refine ⟨.notOneCharacter _, rfl, ?_, rfl⟩
      have literal := literal_of_body characterMeaning rest closed (by decide)
      rw [meant] at literal
      simp [token, literal]

end Scan

theorem read_flawed {text passed rest : List Char} {flaw : Flaw} (p : Position)
    (found : (read text).lexed = some ⟨.error flaw, passed, rest⟩) :
    Gap (read text).gap ∧ Flawed p (flaw.locate p (p.advanceOver passed)) passed rest := by
  obtain ⟨last, reads, halts⟩ := Machine.after_longest Scan.gap false text
  simp only [read] at found ⊢
  generalize Machine.longest Scan.gap false text = pair at reads halts found ⊢
  obtain ⟨gap, behind⟩ := pair
  cases behind with
  | nil => cases found
  | cons c behind =>
      cases last with
      | true => cases halts
      | false =>
          refine ⟨(Scan.after_gap_iff gap).mp reads, Scan.token_flawed p ?_ found⟩
          intro d head
          cases head
          exact halts

theorem read_of_flawed {p : Position} {error : LexicalError} {passed rest : List Char}
    (flawed : Flawed p error passed rest) :
    ∃ flaw, flaw.locate p (p.advanceOver passed) = error ∧
      read (passed ++ rest) = ⟨[], some ⟨.error flaw, passed, rest⟩⟩ := by
  obtain ⟨flaw, located, found, halts⟩ := Scan.token_of_flawed flawed
  have nothing := Machine.longest_of_after Scan.gap false false [] (passed ++ rest) rfl halts
  refine ⟨flaw, located, ?_⟩
  rw [read, ← found]
  rw [List.nil_append] at nothing
  rw [nothing]

theorem transcript_flawed {text gap passed rest : List Char} {lexemes : List Lexeme} {flaw : Flaw}
    (p : Position) (same : transcript text = ⟨lexemes, gap, .flawed flaw passed rest⟩) :
    Gap gap ∧ Flawed p (flaw.locate p (p.advanceOver passed)) passed rest := by
  induction text using transcript_induction generalizing lexemes with
  | finished text found =>
      rw [transcript_end text found] at same
      cases same
  | token text kind spelling behind found ih =>
      rw [transcript_token text kind spelling behind found, Transcript.mk.injEq] at same
      obtain ⟨_, rfl, ending⟩ := same
      exact ih (by rw [← ending])
  | flaw text other spelling behind found =>
      rw [transcript_flaw text other spelling behind found] at same
      cases same
      exact read_flawed p found

namespace TokenStream

theorem front_flawed {text gap passed rest : List Char} {flaw : Flaw} (p : Position)
    (same : transcript text = ⟨[], gap, .flawed flaw passed rest⟩) :
    let start := p.advanceOver gap
    let stop := start.advanceOver passed
    (openAt text p).peek = (.error (flaw.locate start stop), ⟨⟨rest, stop⟩, none, true⟩) ∧
      (openAt text p).next = (.error (flaw.locate start stop), ⟨⟨rest, stop⟩, none, true⟩) := by
  cases found : (read text).lexed with
  | none =>
      rw [transcript_end text found] at same
      cases same
  | some lexed =>
      obtain ⟨outcome, spelling, behind⟩ := lexed
      cases outcome with
      | ok kind =>
          rw [transcript_token text kind spelling behind found] at same
          cases same
      | error other =>
          rw [transcript_flaw text other spelling behind found] at same
          cases same
          simp [openAt, ofCursor, peek, next, Cursor.token, found]

end TokenStream

theorem tokenize_error_flawed (source : String) (error : LexicalError)
    (failed : tokenize source = .error error) :
    ∃ before passed rest tokens,
      source.toList = before ++ (passed ++ rest) ∧
      tokenize (String.ofList before) = .ok tokens ∧
      (∀ index < tokens.length, (TokenStream.ofString source).results index = .ok tokens[index]?) ∧
      Flawed (Position.start.advanceOver before) error passed rest ∧
      let ahead := (TokenStream.ofString source).skip tokens.length
      let resumed : TokenStream := ⟨⟨rest, Position.start.advanceOver (before ++ passed)⟩, none, true⟩
      ahead.peek = (.error error, resumed) ∧ ahead.next = (.error error, resumed) ∧
        (TokenStream.ofString source).tokenize = (.error error, resumed) := by
  cases transcribed : transcript source.toList with
  | mk lexemes gap ending =>
      have count : (yielded source).length = lexemes.length := by
        rw [yielded, tokens_from_length, transcribed]
      have ended : (transcript source.toList).ending = ending := by rw [transcribed]
      cases ending with
      | complete => simp [tokenize_complete ended] at failed
      | flawed flaw passed rest =>
          have drained := TokenStream.tokenize_flawed ended
          rw [transcribed] at drained
          obtain ⟨skips, flawed⟩ := transcript_flawed
            (Position.start.advanceOver (lexemes.flatMap Lexeme.text ++ gap)) transcribed
          have whole := transcript_text source.toList
          rw [Transcript.text, transcribed] at whole
          have tiles := tiles_cut source.toList gap lexemes.length (.whole skips)
            (by rw [transcribed, List.take_length, ← whole]; exact List.prefix_append _ _)
          rw [transcribed, List.take_length] at tiles
          have read := (transcript_complete_iff _ _ _).mpr tiles
          obtain ⟨behind, later, skipped⟩ := TokenStream.skip_lexemes lexemes.length source.toList .start
            (by rw [transcribed])
          rw [transcribed, List.drop_length] at later
          rw [transcribed, List.take_length, ← TokenStream.of_string_eq] at skipped
          obtain ⟨peeked, taken⟩ := TokenStream.front_flawed
            (Position.start.advanceOver (lexemes.flatMap Lexeme.text)) later
          rw [Position.advance_over_append] at flawed
          rw [tokenize, drained] at failed
          cases failed
          refine ⟨lexemes.flatMap Lexeme.text ++ gap, passed, rest, yielded source, whole.symm, ?_, ?_, ?_, ?_⟩
          · rw [tokenize_ok_iff, String.toList_ofList, read, yielded, transcribed]
            exact ⟨rfl, rfl⟩
          · intro index inside
            have shown := peek_yielded (List.getElem?_eq_getElem inside)
            rw [TokenStream.results, (TokenStream.next_of_peek _).1, shown,
              List.getElem?_eq_getElem inside]
          · rw [Position.advance_over_append]
            exact flawed
          · rw [count, skipped, drained, Position.advance_over_append, Position.advance_over_append]
            exact ⟨peeked, taken, rfl⟩

theorem second_point_flawed :
    tokenize "x 1.2.3" = .error ⟨.malformedNumber "1.2.", ⟨1, 5⟩⟩ ∧
      ∃ before passed rest, "x 1.2.3".toList = before ++ (passed ++ rest) ∧
        Flawed (Position.start.advanceOver before) ⟨.malformedNumber "1.2.", ⟨1, 5⟩⟩ passed rest := by
  have failed : tokenize "x 1.2.3" = .error ⟨.malformedNumber "1.2.", ⟨1, 5⟩⟩ := by with_unfolding_all rfl
  obtain ⟨before, passed, rest, tokens, whole, _, _, flawed, _⟩ := tokenize_error_flawed _ _ failed
  exact ⟨failed, before, passed, rest, whole, flawed⟩

end ScriptReader
