import ScriptReader.Token.Stream

set_option autoImplicit false

namespace ScriptReader.TokenStream

theorem skip_succ (count : Nat) (stream : TokenStream) :
    stream.skip (count + 1) = (stream.skip count).next.2 := by
  induction count generalizing stream with
  | zero => rfl
  | succ count ih => exact ih stream.next.2

theorem next_of_upcoming (stream : TokenStream) (kind : TokenKind) (rest : List TokenKind)
    (coming : stream.upcoming = kind :: rest) :
    ∃ position, stream.peek.1 = .ok (some ⟨kind, position⟩) ∧
      stream.next.1 = .ok (some ⟨kind, position⟩) := by
  obtain ⟨cursor, peeked, failed⟩ := stream
  cases peeked with
  | some held =>
      simp only [upcoming, Option.toList_some, List.map_cons, List.map_nil, List.singleton_append,
        List.cons.injEq] at coming
      rw [← coming.1]
      exact ⟨held.position, rfl, rfl⟩
  | none =>
      rw [upcoming_next] at coming
      simp only [next] at coming
      simp only [peek, next]
      generalize cursor.token = answer at coming ⊢
      obtain ⟨result, behind⟩ := answer
      cases result with
      | error error => cases coming
      | ok found =>
          cases found with
          | none => cases coming
          | some token =>
              rw [← (List.cons.inj coming).1]
              exact ⟨token.position, rfl, rfl⟩

theorem next_of_more {stream : TokenStream} (more : 0 < stream.upcoming.length) :
    ∃ token, stream.next.1 = .ok (some token) := by
  cases coming : stream.upcoming with
  | nil =>
      rw [coming] at more
      exact absurd more (Nat.lt_irrefl 0)
  | cons kind rest =>
      obtain ⟨position, _, taken⟩ := next_of_upcoming stream kind rest coming
      exact ⟨_, taken⟩

theorem next_of_nothing (stream : TokenStream) (nothing : stream.upcoming = []) :
    stream.next = stream.peek ∧
      (stream.peek.1 = .ok none ∨ ∃ error, stream.peek.1 = .error error) := by
  obtain ⟨cursor, peeked, failed⟩ := stream
  cases peeked with
  | some held => cases nothing
  | none =>
      rw [upcoming_next] at nothing
      simp only [next] at nothing
      simp only [peek, next]
      generalize cursor.token = answer at nothing ⊢
      obtain ⟨result, behind⟩ := answer
      cases result with
      | error error => exact ⟨rfl, .inr ⟨error, rfl⟩⟩
      | ok found =>
          cases found with
          | none => exact ⟨rfl, .inl rfl⟩
          | some token => cases nothing

theorem token_at_end (cursor behind : Cursor) (ended : cursor.token = (.ok none, behind)) :
    behind.token = (.ok none, behind) := by
  simp only [Cursor.token] at ended
  split at ended
  · cases ended
    rfl
  · split at ended <;> cases ended

theorem peek_again (stream : TokenStream) (found : Option Token) (shown : stream.peek.1 = .ok found) :
    stream.peek.2.peek = stream.peek ∧ stream.peek.2.next = stream.next := by
  obtain ⟨cursor, peeked, failed⟩ := stream
  cases peeked with
  | some held => exact ⟨rfl, rfl⟩
  | none =>
      cases looked : cursor.token with
      | mk result behind =>
          cases result with
          | error error => simp [peek, looked] at shown
          | ok other =>
              cases other with
              | some token => simp [peek, next, looked]
              | none => simp [peek, next, looked, token_at_end cursor behind looked]

theorem lexemes_length (text : List Char) : (transcript text).lexemes.length ≤ text.length := by
  induction text using transcript_induction with
  | finished text found => simp [transcript_end text found]
  | flaw text flaw spelling rest found => simp [transcript_flaw text flaw spelling rest found]
  | token text kind spelling rest found ih =>
      have shorter := read_shorter text _ kind found rfl
      rw [transcript_token text kind spelling rest found, List.length_cons]
      exact Nat.lt_of_le_of_lt ih shorter

theorem upcoming_length (stream : TokenStream) :
    stream.upcoming.length ≤ stream.cursor.rest.length + 1 := by
  have fewer := lexemes_length stream.cursor.rest
  rw [upcoming, List.length_append, Transcript.kinds, List.length_map, List.length_map]
  have one : stream.peeked.toList.length ≤ 1 := by cases stream.peeked <;> simp
  omega

variable {start stream : TokenStream} {tokens : List TokenKind} {looked : Bool}

def before (start : TokenStream) (tokens : List TokenKind) : TokenStream :=
  start.skip (start.upcoming.length - tokens.length)

structure Reached (start : TokenStream) (tokens : List TokenKind) (looked : Bool)
    (stream : TokenStream) : Prop where
  suffix : tokens <:+ start.upcoming
  same : stream = if looked then (before start tokens).peek.2 else before start tokens
  shown : looked = true → ∃ found, (before start tokens).peek.1 = .ok found

theorem reached_start (start : TokenStream) : Reached start start.upcoming false start := by
  refine ⟨List.suffix_rfl, ?_, fun looked => by cases looked⟩
  rw [before, Nat.sub_self]
  rfl

theorem before_upcoming (suffix : tokens <:+ start.upcoming) :
    (before start tokens).upcoming = tokens := by
  rw [before, upcoming_skip start _ (Nat.sub_le _ _)]
  exact (List.suffix_iff_eq_drop.mp suffix).symm

theorem before_cons {kind : TokenKind} (suffix : kind :: tokens <:+ start.upcoming) :
    (before start (kind :: tokens)).next.2 = before start tokens := by
  have longer := suffix.length_le
  rw [List.length_cons] at longer
  have one : start.upcoming.length - tokens.length =
      start.upcoming.length - (kind :: tokens).length + 1 := by
    rw [List.length_cons]
    omega
  rw [before, before, one, skip_succ]

theorem reached_peek (reached : Reached start tokens looked stream) :
    stream.peek = (before start tokens).peek := by
  rw [reached.same]
  cases looked with
  | false => rfl
  | true =>
      obtain ⟨found, shown⟩ := reached.shown rfl
      exact (peek_again _ found shown).1

theorem reached_next (reached : Reached start tokens looked stream) :
    stream.next = (before start tokens).next := by
  rw [reached.same]
  cases looked with
  | false => rfl
  | true =>
      obtain ⟨found, shown⟩ := reached.shown rfl
      exact (peek_again _ found shown).2

theorem reached_upcoming (reached : Reached start tokens looked stream) : stream.upcoming = tokens := by
  rw [upcoming_next, reached_next reached, ← upcoming_next, before_upcoming reached.suffix]

theorem reached_ahead (suffix : tokens <:+ start.upcoming) (found : Option Token)
    (shown : (before start tokens).peek.1 = .ok found) :
    Reached start tokens true (before start tokens).peek.2 :=
  ⟨suffix, rfl, fun _ => ⟨found, shown⟩⟩

theorem reached_behind {kind : TokenKind} (suffix : kind :: tokens <:+ start.upcoming) :
    Reached start tokens false (before start tokens) :=
  ⟨(List.suffix_cons kind tokens).trans suffix, rfl, fun looked => by cases looked⟩

end ScriptReader.TokenStream
