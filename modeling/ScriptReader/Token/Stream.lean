import ScriptReader.Token.Error
import ScriptReader.Token.Transcript

/-!
A token stream reads its text on demand, with one token of lookahead. An error leaves the stream
usable: `peek` and `next` go on where reading stopped, only the items end for good.
-/

set_option autoImplicit false

namespace ScriptReader

def Cursor.token (cursor : Cursor) : Except LexicalError (Option Token) × Cursor :=
  let reading := read cursor.rest
  let start := cursor.position.advanceOver reading.gap
  match reading.lexed with
  | none => (.ok none, ⟨[], start⟩)
  | some ⟨outcome, spelling, rest⟩ =>
      let stop := start.advanceOver spelling
      match outcome with
      | .ok kind => (.ok (some ⟨kind, start⟩), ⟨rest, stop⟩)
      | .error flaw => (.error (flaw.locate start stop), ⟨rest, stop⟩)

structure TokenStream where
  cursor : Cursor
  peeked : Option Token
  failed : Bool
deriving DecidableEq

namespace TokenStream

def ofCursor (cursor : Cursor) : TokenStream := ⟨cursor, none, false⟩

def ofString (text : String) : TokenStream := ofCursor (.ofString text)

def peek (stream : TokenStream) : Except LexicalError (Option Token) × TokenStream :=
  match stream.peeked with
  | some token => (.ok (some token), stream)
  | none =>
      match stream.cursor.token with
      | (.ok found, cursor) => (.ok found, ⟨cursor, found, stream.failed⟩)
      | (.error error, cursor) => (.error error, ⟨cursor, none, true⟩)

def next (stream : TokenStream) : Except LexicalError (Option Token) × TokenStream :=
  match stream.peeked with
  | some token => (.ok (some token), ⟨stream.cursor, none, stream.failed⟩)
  | none =>
      match stream.cursor.token with
      | (.ok found, cursor) => (.ok found, ⟨cursor, none, stream.failed⟩)
      | (.error error, cursor) => (.error error, ⟨cursor, none, true⟩)

def atEnd (stream : TokenStream) : Except LexicalError Bool × TokenStream :=
  match stream.peek with
  | (.ok found, stream) => (.ok found.isNone, stream)
  | (.error error, stream) => (.error error, stream)

-- The start of the token looked at, else the character the cursor is about to read.
def position (stream : TokenStream) : Position :=
  match stream.peeked with
  | some token => token.position
  | none => stream.cursor.position

def item (stream : TokenStream) : Option (Except LexicalError Token) × TokenStream :=
  if stream.failed then (none, stream)
  else
    match stream.next with
    | (.ok found, stream) => (found.map .ok, stream)
    | (.error error, stream) => (some (.error error), stream)

def tokenize (stream : TokenStream) : Except LexicalError (List Token) × TokenStream :=
  if stream.failed then (.ok [], stream)
  else
    let ⟨lexemes, gap, ending⟩ := transcript stream.cursor.rest
    let (placed, behind) := place stream.cursor.position lexemes
    let start := behind.advanceOver gap
    match ending with
    | .complete =>
        (.ok (stream.peeked.toList ++ placed.map fun (p, lexeme) => lexeme.token p),
          ⟨⟨[], start⟩, none, false⟩)
    | .flawed flaw passed rest =>
        let stop := start.advanceOver passed
        (.error (flaw.locate start stop), ⟨⟨rest, stop⟩, none, true⟩)

def upcoming (stream : TokenStream) : List TokenKind :=
  stream.peeked.toList.map Token.kind ++ (transcript stream.cursor.rest).kinds

def skip : Nat → TokenStream → TokenStream
  | 0, stream => stream
  | count + 1, stream => skip count stream.next.2

theorem tokenize_of_failed (stream : TokenStream) (failed : stream.failed = true) :
    stream.tokenize = (.ok [], stream) := by
  simp [tokenize, failed]

theorem upcoming_next (stream : TokenStream) :
    stream.upcoming =
      match stream.next with
      | (.ok (some token), after) => token.kind :: after.upcoming
      | _ => [] := by
  obtain ⟨cursor, peeked, failed⟩ := stream
  cases peeked with
  | some held => simp [upcoming, next]
  | none =>
      simp only [upcoming, next, Option.toList_none, List.map_nil, List.nil_append]
      cases found : (read cursor.rest).lexed with
      | none => simp [Cursor.token, found, transcript_end cursor.rest found, Transcript.kinds]
      | some lexed =>
          obtain ⟨outcome, spelling, rest⟩ := lexed
          cases outcome with
          | error flaw =>
              simp [Cursor.token, found, transcript_flaw cursor.rest flaw spelling rest found,
                Transcript.kinds]
          | ok kind =>
              simp [Cursor.token, found, transcript_token cursor.rest kind spelling rest found,
                Transcript.kinds]

theorem upcoming_skip (stream : TokenStream) (count : Nat) (enough : count ≤ stream.upcoming.length) :
    (stream.skip count).upcoming = stream.upcoming.drop count := by
  induction count generalizing stream with
  | zero => rfl
  | succ count ih =>
      have unrolled := upcoming_next stream
      rw [skip]
      split at unrolled
      · rename_i token after taken
        rw [unrolled] at enough ⊢
        rw [List.drop_succ_cons, taken]
        exact ih after (by simpa using enough)
      · rw [unrolled] at enough
        exact absurd enough (by simp)

-- The loop of `tokenize` runs over the transcript; this is the same loop as calls of `item`.
theorem tokenize_item (stream : TokenStream) :
    stream.tokenize =
      match stream.item with
      | (none, after) => (.ok [], after)
      | (some (.ok token), after) => (after.tokenize.1.map (token :: ·), after.tokenize.2)
      | (some (.error error), after) => (.error error, after) := by
  obtain ⟨cursor, peeked, failed⟩ := stream
  cases failed with
  | true => simp [tokenize, item]
  | false =>
      cases peeked with
      | some held =>
          simp only [tokenize, item, next]
          cases ending : (transcript cursor.rest).ending <;> simp [ending, Except.map]
      | none =>
          cases found : (read cursor.rest).lexed with
          | none =>
              have gap := read_end cursor.rest found
              simp [tokenize, item, next, Cursor.token, found, transcript_end cursor.rest found, gap,
                place, placeOnto]
          | some lexed =>
              obtain ⟨outcome, spelling, rest⟩ := lexed
              cases outcome with
              | error flaw =>
                  simp [tokenize, item, next, Cursor.token, found,
                    transcript_flaw cursor.rest flaw spelling rest found, place, placeOnto]
              | ok kind =>
                  have first := transcript_token cursor.rest kind spelling rest found
                  cases ending : (transcript rest).ending <;>
                    simp [tokenize, item, next, Cursor.token, found, first, ending, Except.map, Lexeme.text,
                      Lexeme.token]

end TokenStream

def tokenize (text : String) : Except LexicalError (List Token) :=
  (TokenStream.ofString text).tokenize.1

end ScriptReader
