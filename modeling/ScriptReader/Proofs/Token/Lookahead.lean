import ScriptReader.Token.Stream

set_option autoImplicit false

namespace ScriptReader

namespace TokenStream

def openAt (text : List Char) (p : Position) : TokenStream := ofCursor ⟨text, p⟩

theorem of_string_eq (source : String) : ofString source = openAt source.toList .start := rfl

theorem next_of_token (text spelling rest : List Char) (kind : TokenKind) (p : Position)
    (found : (read text).lexed = some ⟨.ok kind, spelling, rest⟩) :
    (openAt text p).next =
      (.ok (some ⟨kind, p.advanceOver (read text).gap⟩),
        openAt rest ((p.advanceOver (read text).gap).advanceOver spelling)) := by
  simp [openAt, ofCursor, next, Cursor.token, found]

theorem skip_lexemes (count : Nat) (text : List Char) (p : Position)
    (enough : count ≤ (transcript text).lexemes.length) :
    ∃ rest,
      transcript rest =
        { transcript text with lexemes := (transcript text).lexemes.drop count } ∧
      (openAt text p).skip count =
        openAt rest (p.advanceOver (((transcript text).lexemes.take count).flatMap Lexeme.text)) := by
  induction count generalizing text p with
  | zero => exact ⟨text, rfl, rfl⟩
  | succ count ih =>
      cases found : (read text).lexed with
      | none =>
          rw [transcript_end text found] at enough
          exact absurd enough (by simp)
      | some lexed =>
          obtain ⟨outcome, spelling, behind⟩ := lexed
          cases outcome with
          | error flaw =>
              rw [transcript_flaw text flaw spelling behind found] at enough
              exact absurd enough (by simp)
          | ok kind =>
              rw [transcript_token text kind spelling behind found] at enough ⊢
              obtain ⟨rest, same, skipped⟩ := ih behind
                ((p.advanceOver (read text).gap).advanceOver spelling) (by simpa using enough)
              refine ⟨rest, same, ?_⟩
              rw [skip, next_of_token text spelling behind kind p found, skipped]
              simp [Lexeme.text]

theorem peek_behind_lexemes (text : List Char) (p : Position)
    (ended : (transcript text).lexemes = []) :
    (openAt text p).peek.1 =
      match (transcript text).ending with
      | .complete => .ok none
      | .flawed flaw passed _ =>
          .error (flaw.locate (p.advanceOver (transcript text).gap)
            ((p.advanceOver (transcript text).gap).advanceOver passed)) := by
  cases found : (read text).lexed with
  | none => simp [openAt, ofCursor, peek, Cursor.token, found, transcript_end text found]
  | some lexed =>
      obtain ⟨outcome, spelling, behind⟩ := lexed
      cases outcome with
      | error flaw =>
          simp [openAt, ofCursor, peek, Cursor.token, found,
            transcript_flaw text flaw spelling behind found]
      | ok kind =>
          rw [transcript_token text kind spelling behind found] at ended
          cases ended

theorem peek_lexeme (text : List Char) (p : Position) (lexeme : Lexeme) (lexemes : List Lexeme)
    (first : (transcript text).lexemes = lexeme :: lexemes) :
    (openAt text p).peek.1 = .ok (some (lexeme.token p)) := by
  cases found : (read text).lexed with
  | none =>
      rw [transcript_end text found] at first
      cases first
  | some lexed =>
      obtain ⟨outcome, spelling, behind⟩ := lexed
      cases outcome with
      | error flaw =>
          rw [transcript_flaw text flaw spelling behind found] at first
          cases first
      | ok kind =>
          rw [transcript_token text kind spelling behind found] at first
          cases first
          simp [openAt, ofCursor, peek, Cursor.token, found, Lexeme.token]

end TokenStream

@[simp] theorem tokens_from_length (p : Position) (lexemes : List Lexeme) :
    (tokensFrom p lexemes).length = lexemes.length := by
  induction lexemes generalizing p with
  | nil => rfl
  | cons lexeme lexemes ih => simp [ih]

@[simp] theorem tokens_from_append (p : Position) (a b : List Lexeme) :
    tokensFrom p (a ++ b) =
      tokensFrom p a ++ tokensFrom (p.advanceOver (a.flatMap Lexeme.text)) b := by
  induction a generalizing p with
  | nil => rfl
  | cons lexeme a ih => simp [ih]

theorem tokens_from_getElem (p : Position) (before after : List Lexeme) (lexeme : Lexeme) :
    (tokensFrom p (before ++ lexeme :: after))[before.length]? =
      some ⟨lexeme.kind, p.advanceOver (before.flatMap Lexeme.text ++ lexeme.gap)⟩ := by
  have bound : (tokensFrom p before).length ≤ before.length := Nat.le_of_eq (tokens_from_length p before)
  rw [tokens_from_append, tokens_from_cons, List.getElem?_append_right bound, tokens_from_length,
    Nat.sub_self, Position.advance_over_append]
  rfl

theorem tokens_from_kinds (p : Position) (lexemes : List Lexeme) :
    (tokensFrom p lexemes).map Token.kind = lexemes.map Lexeme.kind := by
  induction lexemes generalizing p with
  | nil => rfl
  | cons lexeme lexemes ih => simp [ih, Lexeme.token]

theorem TokenStream.peek_after_skip (text : List Char) (p : Position) (count : Nat)
    (enough : count ≤ (transcript text).lexemes.length)
    (complete : (transcript text).ending = .complete) :
    ((openAt text p).skip count).peek.1 = .ok (tokensFrom p (transcript text).lexemes)[count]? := by
  obtain ⟨rest, same, skipped⟩ := skip_lexemes count text p enough
  rw [skipped]
  by_cases last : count = (transcript text).lexemes.length
  · have ended : (transcript rest).lexemes = [] := by rw [same, last, List.drop_length]
    have ending : (transcript rest).ending = .complete := by rw [same, complete]
    rw [peek_behind_lexemes rest _ ended, ending,
      List.getElem?_eq_none (by simp [last])]
  · have inside : count < (transcript text).lexemes.length := Nat.lt_of_le_of_ne enough last
    have first : (transcript rest).lexemes = (transcript text).lexemes[count] ::
        (transcript text).lexemes.drop (count + 1) := by
      rw [same, List.drop_eq_getElem_cons inside]
    have placed := tokens_from_getElem p ((transcript text).lexemes.take count)
      ((transcript text).lexemes.drop (count + 1)) (transcript text).lexemes[count]
    rw [List.length_take_of_le enough, ← List.drop_eq_getElem_cons inside, List.take_append_drop] at placed
    rw [peek_lexeme rest _ _ _ first, placed, Position.advance_over_append]
    rfl

theorem tokenize_complete {source : String} (complete : (transcript source.toList).ending = .complete) :
    tokenize source = .ok (tokensFrom .start (transcript source.toList).lexemes) := by
  simp only [tokenize, TokenStream.ofString, TokenStream.ofCursor, TokenStream.tokenize,
    Cursor.ofString, Cursor.ofText, complete]
  rfl

theorem TokenStream.tokenize_flawed {source : String} {flaw : Flaw} {passed rest : List Char}
    (flawed : (transcript source.toList).ending = .flawed flaw passed rest) :
    let start := Position.start.advanceOver
      ((transcript source.toList).lexemes.flatMap Lexeme.text ++ (transcript source.toList).gap)
    (ofString source).tokenize =
      (.error (flaw.locate start (start.advanceOver passed)),
        ⟨⟨rest, start.advanceOver passed⟩, none, true⟩) := by
  simp only [ofString, ofCursor, TokenStream.tokenize, Cursor.ofString, Cursor.ofText, flawed, place_end,
    Position.advance_over_append]
  rfl

theorem tokenize_ok_iff (source : String) (tokens : List Token) :
    tokenize source = .ok tokens ↔
      (transcript source.toList).ending = .complete ∧
        tokens = tokensFrom .start (transcript source.toList).lexemes := by
  cases ending : (transcript source.toList).ending with
  | complete =>
      rw [tokenize_complete ending]
      simp [eq_comm]
  | flawed flaw passed rest => simp [tokenize, TokenStream.tokenize_flawed ending]

theorem kinds_of_tokenize {source : String} {tokens : List Token}
    (lexed : tokenize source = .ok tokens) :
    tokens.map Token.kind = (transcript source.toList).kinds := by
  obtain ⟨_, rfl⟩ := (tokenize_ok_iff _ _).mp lexed
  exact tokens_from_kinds _ _

theorem tokenize_total (source : String) (complete : (transcript source.toList).ending = .complete) :
    ∃ tokens, tokenize source = .ok tokens :=
  ⟨_, tokenize_complete complete⟩

@[simp] theorem upcoming_of_string (source : String) :
    (TokenStream.ofString source).upcoming = (transcript source.toList).kinds := by
  simp [TokenStream.upcoming, TokenStream.ofString, TokenStream.ofCursor, Cursor.ofString,
    Cursor.ofText]

end ScriptReader
