import ScriptReader.Proofs.Token.Flawed
import ScriptReader.Proofs.Token.Parted

/-!
A carriage return before each newline. Only a literal could tell the two texts apart: gaps take the return
with the newline, a newline resets the column whatever stands before it, and the other tokens hold no
newline. So where no newline is read inside a literal, both texts have the same transcript but for their gaps
(`transcript_returned`), and their streams go side by side (`next_returned`, `tokenize_returned`).
-/

set_option autoImplicit false

namespace ScriptReader

def returned (text : List Char) : List Char :=
  text.flatMap fun c => if c = '\n' then ['\r', '\n'] else [c]

def Flaw.isLiteral : Flaw → Bool
  | .unterminated _ | .notOneCharacter _ => true
  | .unexpectedCharacter _ | .secondPoint _ => false

-- No newline that reading passes is inside a literal, be it whole or flawed.
structure Unbroken (transcript : Transcript) : Prop where
  literals : ∀ lexeme ∈ transcript.lexemes, lexeme.kind.isLiteral = true → '\n' ∉ lexeme.spelling
  flawed : ∀ flaw passed rest, transcript.ending = .flawed flaw passed rest → flaw.isLiteral = true →
    '\n' ∉ passed

section Texts

variable {text rest gap spelling passed : List Char} {kind : TokenKind} {p : Position}
  {error : LexicalError}

@[simp] theorem returned_newline (text : List Char) : returned ('\n' :: text) = '\r' :: '\n' :: returned text := rfl

theorem returned_cons (c : Char) (text : List Char) (other : c ≠ '\n') :
    returned (c :: text) = c :: returned text := by
  rw [returned, List.flatMap_cons, if_neg other]
  rfl

@[simp] theorem returned_append (a b : List Char) : returned (a ++ b) = returned a ++ returned b :=
  List.flatMap_append

theorem returned_plain (plain : '\n' ∉ text) : returned text = text := by
  induction text with
  | nil => rfl
  | cons c text ih =>
      obtain ⟨other, later⟩ : '\n' ≠ c ∧ '\n' ∉ text := by simpa using plain
      rw [returned_cons c text (Ne.symm other), ih later]

theorem advance_over_returned (p : Position) (text : List Char) :
    p.advanceOver (returned text) = p.advanceOver text := by
  induction text generalizing p with
  | nil => rfl
  | cons c text ih =>
      by_cases newline : c = '\n'
      · subst newline
        exact ih ⟨p.line + 1, 0⟩
      · rw [returned_cons c text newline, Position.advance_over_cons, Position.advance_over_cons, ih]

theorem gap_returned (skips : Gap gap) : Gap (returned gap) := by
  induction skips with
  | none => exact .none
  | @blank gap c blank later ih =>
      by_cases newline : c = '\n'
      · subst newline
        exact .blank '\r' (by decide) (.blank '\n' blank ih)
      · rw [returned_cons c gap newline]
        exact .blank c blank ih
  | @comment gap inside line later ih =>
      rw [returned_cons '#' _ (by decide), returned_append, returned_plain line, returned_newline,
        List.append_cons]
      exact .comment (inside ++ ['\r']) (by simpa using line) ih

theorem final_gap_returned (final : FinalGap gap) : FinalGap (returned gap) := by
  cases final with
  | whole skips => exact .whole (gap_returned skips)
  | comment skips inside line =>
      rw [returned_append, returned_cons '#' inside (by decide), returned_plain line]
      exact .comment (gap_returned skips) inside line

theorem ends_before_returned (ends : kind.EndsBefore rest) : kind.EndsBefore (returned rest) := by
  cases rest with
  | nil => exact ends
  | cons c rest =>
      by_cases newline : c = '\n'
      · subst newline
        rintro d head
        cases head
        cases kind <;> rfl
      · rw [returned_cons c rest newline]
        exact ends

theorem flawed_returned (flawed : Flawed p error passed rest) : Flawed p error passed (returned rest) := by
  cases flawed with
  | unexpected c behind quote comment blank digit word punctuation operator =>
      have other : c ≠ '\n' := by rintro rfl; cases blank
      rw [returned_cons c behind other]
      exact .unexpected c _ quote comment blank digit word punctuation operator
  | unterminated quote quotes inside unclosed => exact .unterminated quote quotes inside unclosed
  | malformed whole decimals behind filled digits further =>
      rw [returned_cons '.' behind (by decide)]
      exact .malformed whole decimals _ filled digits further
  | invalid body value behind closed count => exact .invalid body value _ closed count

theorem locate_injective {a b : Flaw} {start stop : Position}
    (same : a.locate start stop = b.locate start stop) : a = b := by
  cases a <;> cases b <;> simp_all [Flaw.locate]

theorem literal_of_flawed {flaw : Flaw} {stop : Position}
    (flawed : Flawed p (flaw.locate p stop) passed rest) (inside : '\n' ∈ passed) :
    flaw.isLiteral = true := by
  generalize same : flaw.locate p stop = error at flawed
  cases flawed with
  | unexpected => cases inside
  | unterminated | invalid =>
      cases flaw <;> cases same
      rfl
  | malformed whole decimals behind filled digits further =>
      rcases List.mem_append.mp inside with before | behind
      · exact absurd (List.all_eq_true.mp digits _ before) (by decide)
      · rcases List.mem_cons.mp behind with point | decimal
        · cases point
        · exact absurd (List.all_eq_true.mp further _ decimal) (by decide)

end Texts

def Lexed.returned (lexed : Lexed) : Lexed := { lexed with rest := ScriptReader.returned lexed.rest }

theorem read_returned (text : List Char)
    (plain : ∀ lexed, (read text).lexed = some lexed → '\n' ∉ lexed.spelling) :
    read (returned text) = ⟨returned (read text).gap, (read text).lexed.map Lexed.returned⟩ := by
  cases found : (read text).lexed with
  | none =>
      have ended := (read_end_iff _).mpr (final_gap_returned ((read_end_iff text).mp found))
      rw [read_end text found]
      exact congr (congrArg Reading.mk (read_end _ ended)) ended
  | some lexed =>
      have whole := congrArg returned (read_parts text lexed found)
      rw [List.append_assoc, returned_append, returned_append, returned_plain (plain lexed found)] at whole
      obtain ⟨outcome, spelling, rest⟩ := lexed
      cases outcome with
      | ok kind =>
          obtain ⟨_, skips, spells, ends⟩ := read_of_lexed found
          exact (read_eq_iff _ _ _ _ _).mpr
            ⟨whole.symm, gap_returned skips, spells, ends_before_returned ends⟩
      | error flaw =>
          obtain ⟨skips, flawed⟩ := read_flawed .start found
          obtain ⟨other, located, again⟩ := read_of_flawed (flawed_returned flawed)
          rw [← whole, read_through_gap (gap_returned skips), again, locate_injective located,
            List.append_nil]
          rfl

def Lexeme.returned (lexeme : Lexeme) : Lexeme :=
  { lexeme with gap := ScriptReader.returned lexeme.gap }

def Ending.returned : Ending → Ending
  | .complete => .complete
  | .flawed flaw passed rest => .flawed flaw passed (ScriptReader.returned rest)

def Transcript.returned (transcript : Transcript) : Transcript :=
  ⟨transcript.lexemes.map Lexeme.returned, ScriptReader.returned transcript.gap,
    transcript.ending.returned⟩

section Transcripts

variable {text : List Char}

theorem unbroken_nil : Unbroken (transcript []) := by
  rw [transcript_end [] rfl]
  exact ⟨nofun, nofun⟩

theorem unbroken_behind {kind : TokenKind} {spelling rest : List Char}
    (found : (read text).lexed = some ⟨.ok kind, spelling, rest⟩)
    (unbroken : Unbroken (transcript text)) : Unbroken (transcript rest) := by
  rw [transcript_token text kind spelling rest found] at unbroken
  exact ⟨fun lexeme member => unbroken.literals lexeme (List.mem_cons_of_mem _ member), unbroken.flawed⟩

theorem unbroken_spelling (unbroken : Unbroken (transcript text)) (lexed : Lexed)
    (found : (read text).lexed = some lexed) : '\n' ∉ lexed.spelling := by
  intro inside
  obtain ⟨outcome, spelling, rest⟩ := lexed
  cases outcome with
  | ok kind =>
      rw [transcript_token text kind spelling rest found] at unbroken
      have literal := literal_of_newline (read_of_lexed found).2.2.1 inside
      exact unbroken.literals _ List.mem_cons_self literal inside
  | error flaw =>
      rw [transcript_flaw text flaw spelling rest found] at unbroken
      have flawed := (read_flawed .start found).2
      exact unbroken.flawed flaw spelling rest rfl (literal_of_flawed flawed inside) inside

theorem transcript_returned (unbroken : Unbroken (transcript text)) :
    transcript (returned text) = (transcript text).returned := by
  induction text using transcript_induction with
  | finished text found =>
      have reading := read_returned text (unbroken_spelling unbroken)
      rw [found] at reading
      rw [transcript_end text found, transcript_end (returned text) (by rw [reading]; rfl)]
      rfl
  | token text kind spelling rest found ih =>
      have reading := read_returned text (unbroken_spelling unbroken)
      rw [found] at reading
      rw [transcript_token text kind spelling rest found,
        transcript_token (returned text) kind spelling (returned rest) (by rw [reading]; rfl), reading,
        ih (unbroken_behind found unbroken)]
      rfl
  | flaw text flaw spelling rest found =>
      have reading := read_returned text (unbroken_spelling unbroken)
      rw [found] at reading
      rw [transcript_flaw text flaw spelling rest found,
        transcript_flaw (returned text) flaw spelling (returned rest) (by rw [reading]; rfl), reading]
      rfl

theorem kinds_returned (transcript : Transcript) : transcript.returned.kinds = transcript.kinds := by
  rw [Transcript.kinds, Transcript.returned, List.map_map]
  rfl

theorem place_returned (p : Position) (lexemes : List Lexeme)
    (plain : ∀ lexeme ∈ lexemes, '\n' ∉ lexeme.spelling) :
    tokensFrom p (lexemes.map Lexeme.returned) = tokensFrom p lexemes ∧
      (place p (lexemes.map Lexeme.returned)).2 = (place p lexemes).2 := by
  induction lexemes generalizing p with
  | nil => exact ⟨rfl, rfl⟩
  | cons lexeme lexemes ih =>
      have text : p.advanceOver lexeme.returned.text = p.advanceOver lexeme.text := by
        simp only [Lexeme.text, Position.advance_over_append]
        exact congrArg (Position.advanceOver · lexeme.spelling) (advance_over_returned p lexeme.gap)
      have token : lexeme.returned.token p = lexeme.token p :=
        congrArg (Token.mk lexeme.kind) (advance_over_returned p lexeme.gap)
      obtain ⟨tokens, behind⟩ := ih (p.advanceOver lexeme.text)
        fun other member => plain other (List.mem_cons_of_mem _ member)
      constructor
      · simp [text, token, tokens]
      · rw [List.map_cons, place_cons, place_cons, text, behind]

end Transcripts

def Cursor.returned (cursor : Cursor) : Cursor :=
  { cursor with rest := ScriptReader.returned cursor.rest }

def TokenStream.returned (stream : TokenStream) : TokenStream :=
  { stream with cursor := stream.cursor.returned }

theorem Cursor.token_returned (cursor : Cursor) (unbroken : Unbroken (transcript cursor.rest)) :
    cursor.returned.token = (cursor.token.1, cursor.token.2.returned) := by
  have reading := read_returned cursor.rest (unbroken_spelling unbroken)
  have start := advance_over_returned cursor.position (read cursor.rest).gap
  simp only [token, returned, reading, start]
  cases (read cursor.rest).lexed with
  | none => rfl
  | some lexed =>
      obtain ⟨outcome, spelling, rest⟩ := lexed
      cases outcome <;> rfl

theorem Cursor.unbroken_token {cursor behind : Cursor} {found : Option Token}
    (unbroken : Unbroken (transcript cursor.rest)) (taken : cursor.token = (.ok found, behind)) :
    Unbroken (transcript behind.rest) := by
  simp only [token] at taken
  split at taken
  · cases taken
    exact unbroken_nil
  · rename_i outcome spelling rest read
    cases outcome with
    | error flaw => cases taken
    | ok kind =>
        cases taken
        exact unbroken_behind read unbroken

namespace TokenStream

variable {stream : TokenStream}

theorem next_returned (unbroken : Unbroken (transcript stream.cursor.rest)) :
    stream.returned.next = (stream.next.1, stream.next.2.returned) ∧
      stream.returned.peek = (stream.peek.1, stream.peek.2.returned) := by
  obtain ⟨cursor, peeked, failed⟩ := stream
  cases peeked with
  | some held => exact ⟨rfl, rfl⟩
  | none =>
      have same := Cursor.token_returned cursor unbroken
      simp only [next, peek, returned, same]
      cases cursor.token with
      | mk result behind => cases result <;> exact ⟨rfl, rfl⟩

theorem unbroken_next {found : Option Token} (unbroken : Unbroken (transcript stream.cursor.rest))
    (taken : stream.next.1 = .ok found) : Unbroken (transcript stream.next.2.cursor.rest) := by
  have front := front stream
  generalize stream.next = answer, stream.peek = shown at front taken ⊢
  cases front with
  | held => exact unbroken
  | found _ read | ended _ read => exact Cursor.unbroken_token unbroken read
  | flawed => cases taken

theorem upcoming_returned (unbroken : Unbroken (transcript stream.cursor.rest)) :
    stream.returned.upcoming = stream.upcoming := by
  simp only [upcoming, returned, Cursor.returned, transcript_returned unbroken, kinds_returned]

theorem skip_returned (unbroken : Unbroken (transcript stream.cursor.rest)) (count : Nat)
    (enough : count ≤ stream.upcoming.length) :
    stream.returned.skip count = (stream.skip count).returned ∧
      Unbroken (transcript (stream.skip count).cursor.rest) := by
  induction count generalizing stream with
  | zero => exact ⟨rfl, unbroken⟩
  | succ count ih =>
      obtain ⟨token, taken⟩ := next_of_more (Nat.lt_of_lt_of_le (Nat.succ_pos count) enough)
      have left := upcoming_skip stream 1 (by omega)
      rw [skip, skip] at left
      rw [skip, skip, (next_returned unbroken).1]
      refine ih (unbroken_next unbroken taken) ?_
      rw [left, List.length_drop]
      omega

theorem tokenize_returned (unbroken : Unbroken (transcript stream.cursor.rest)) :
    stream.returned.tokenize = (stream.tokenize.1, stream.tokenize.2.returned) := by
  obtain ⟨cursor, peeked, failed⟩ := stream
  cases failed with
  | true => rfl
  | false =>
      have plain : ∀ lexeme ∈ (transcript cursor.rest).lexemes, '\n' ∉ lexeme.spelling := by
        intro lexeme member inside
        have literal := literal_of_newline (transcript_lexeme member).2 inside
        exact unbroken.literals lexeme member literal inside
      obtain ⟨tokens, behind⟩ := place_returned cursor.position _ plain
      simp only [tokensFrom] at tokens
      simp only [tokenize, returned, Cursor.returned, transcript_returned unbroken, Transcript.returned,
        tokens, behind, advance_over_returned]
      cases (transcript cursor.rest).ending <;> rfl

end TokenStream

end ScriptReader
