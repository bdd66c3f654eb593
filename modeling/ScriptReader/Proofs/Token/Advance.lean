import ScriptReader.Proofs.Token.Interleaved

set_option autoImplicit false

namespace ScriptReader

section Reading

variable {text spelling rest : List Char} {c : Char}

theorem Scan.token_unexpected
    (found : Scan.token text = some ⟨.error (.unexpectedCharacter c), spelling, rest⟩) :
    spelling = [] ∧ rest = text ∧ text.head? = some c := by
  cases text with
  | nil => cases found
  | cons d text =>
      simp only [Scan.token, Option.some.injEq] at found
      split at found
      · simp only [Scan.literal, Scan.stringMeaning] at found
        split at found <;> cases found
      split at found
      · simp only [Scan.literal] at found
        split at found
        · cases found
        · generalize Scan.unescape _ = value at found
          rcases value with _ | ⟨first, _ | ⟨second, more⟩⟩ <;> cases found
      split at found
      · simp only [Scan.numberAt] at found
        split at found <;> cases found
      split at found
      · cases found
      split at found
      · cases found
      split at found
      · cases found
      · cases found
        exact ⟨rfl, rfl, rfl⟩

theorem read_behind_gap (text : List Char) :
    read (Machine.longest Scan.gap false text).2 = ⟨[], (read text).lexed⟩ := by
  obtain ⟨last, _, halts⟩ := Machine.after_longest Scan.gap false text
  simp only [read]
  generalize Machine.longest Scan.gap false text = split at halts ⊢
  obtain ⟨gap, behind⟩ := split
  cases behind with
  | nil => rfl
  | cons d behind =>
      cases last with
      | true => cases halts
      | false => rw [Machine.longest_cons_halt Scan.gap false d behind halts]

theorem read_unexpected
    (found : (read text).lexed = some ⟨.error (.unexpectedCharacter c), spelling, rest⟩) :
    spelling = [] ∧ rest.head? = some c ∧
      read rest = ⟨[], some ⟨.error (.unexpectedCharacter c), [], rest⟩⟩ := by
  have again := read_behind_gap text
  rw [found] at again
  obtain ⟨rfl, rfl, head⟩ := Scan.token_unexpected found
  exact ⟨rfl, head, again⟩

end Reading

def LexicalFault.unexpected : LexicalFault → Bool
  | .unexpectedCharacter _ => true
  | _ => false

namespace Cursor

variable {cursor behind : Cursor}

theorem token_moves (cursor : Cursor) :
    cursor.position ≤ cursor.token.2.position ∧
      cursor.token.2.rest.length ≤ cursor.rest.length := by
  simp only [token]
  split
  · exact ⟨Position.le_advance_over _ _, Nat.zero_le _⟩
  · rename_i outcome spelling rest found
    have parts := congrArg List.length (read_parts cursor.rest _ found)
    simp only [List.length_append] at parts
    have less : rest.length ≤ cursor.rest.length := by omega
    have further := Position.le_trans (Position.le_advance_over cursor.position (read cursor.rest).gap)
      (Position.le_advance_over _ spelling)
    split <;> exact ⟨further, less⟩

theorem token_ended (ended : cursor.token = (.ok none, behind)) : behind.rest = [] := by
  simp only [token] at ended
  split at ended
  · cases ended
    rfl
  · split at ended <;> cases ended

theorem token_found {found : Token} (taken : cursor.token = (.ok (some found), behind)) :
    cursor.position ≤ found.position ∧ found.position < behind.position ∧
      behind.rest.length < cursor.rest.length := by
  simp only [token] at taken
  split at taken
  · cases taken
  · rename_i outcome spelling rest read
    split at taken
    · rename_i kind
      cases taken
      have shorter := read_shorter cursor.rest _ kind read rfl
      refine ⟨Position.le_advance_over _ _, Position.lt_advance_over _ _ fun empty => ?_, shorter⟩
      have parts := congrArg List.length (read_parts cursor.rest _ read)
      obtain ⟨c, flawed, _⟩ := Scan.token_spelling _ _ read empty
      cases flawed
    · cases taken

-- An error has read what it is about, or it stands in front of it and is met again.
theorem token_error {error : LexicalError} (failed : cursor.token = (.error error, behind)) :
    (∃ c, error = behind.error (.unexpectedCharacter c) ∧ behind.rest.head? = some c ∧
        behind.token = (.error error, behind)) ∨
      error.fault.unexpected = false ∧ cursor.position < behind.position ∧
        behind.rest.length < cursor.rest.length := by
  simp only [token] at failed
  split at failed
  · cases failed
  · rename_i outcome spelling rest found
    split at failed
    · cases failed
    · rename_i flaw
      have parts := congrArg List.length (read_parts cursor.rest _ found)
      simp only [List.length_append] at parts
      have beyond : spelling ≠ [] →
          cursor.position < (cursor.position.advanceOver (read cursor.rest).gap).advanceOver spelling ∧
            rest.length < cursor.rest.length := by
        intro filled
        have longer := List.length_pos_iff.mpr filled
        rw [← Position.advance_over_append]
        exact ⟨Position.lt_advance_over _ _ (List.append_ne_nil_of_right_ne_nil _ filled), by omega⟩
      cases failed
      by_cases filled : spelling = []
      · obtain ⟨c, flawed, _⟩ := Scan.token_spelling _ _ found filled
        cases flawed
        obtain ⟨_, head, again⟩ := read_unexpected found
        refine .inl ⟨c, rfl, head, ?_⟩
        simp only [filled, token, again, Position.advance_over_nil]
      · cases flaw with
        | unexpectedCharacter c => exact absurd (read_unexpected found).1 filled
        | _ => exact .inr ⟨rfl, beyond filled⟩

end Cursor

namespace TokenStream

-- A token that has been looked at lies before the cursor.
def Sound (stream : TokenStream) : Prop :=
  ∀ held, stream.peeked = some held → held.position < stream.cursor.position

-- What holds of every stream that holds no token, and what looking ahead keeps, is kept by all calls.
structure Lasting (kept : TokenStream → Prop) : Prop where
  nothing : ∀ stream, stream.peeked = none → kept stream
  looked : ∀ stream, kept stream → kept stream.peek.2

def unread (stream : TokenStream) : Nat := stream.cursor.rest.length + stream.peeked.toList.length

structure Moves (a b : TokenStream) : Prop where
  position : a.position ≤ b.position
  unread : b.unread ≤ a.unread

structure Advances (a b : TokenStream) : Prop where
  position : a.position < b.position
  unread : b.unread < a.unread

structure Stuck (stream : TokenStream) (c : Char) : Prop where
  nothing : stream.peeked = none
  head : stream.cursor.rest.head? = some c
  again : stream.cursor.token = (.error (stream.cursor.error (.unexpectedCharacter c)), stream.cursor)

structure Exhausted (stream : TokenStream) : Prop where
  nothing : stream.peeked = none
  ended : stream.cursor.rest = []

variable {a b c stream : TokenStream}

namespace Lasting

variable {kept : TokenStream → Prop} (lasting : Lasting kept)
include lasting

theorem next (stream : TokenStream) : kept stream.next.2 := lasting.nothing _ (next_peeked stream)

theorem skip (holds : kept stream) (count : Nat) : kept (stream.skip count) := by
  cases count with
  | zero => exact holds
  | succ count =>
      rw [skip_succ]
      exact lasting.next _

theorem item (holds : kept stream) : kept stream.item.2 := by
  cases failed : stream.failed with
  | true =>
      rw [item_of_failed failed]
      exact holds
  | false =>
      rw [item_of_unfailed failed]
      exact lasting.next stream

theorem tokenize (holds : kept stream) : kept stream.tokenize.2 := by
  cases failed : stream.failed with
  | true =>
      rw [tokenize_of_failed stream failed]
      exact holds
  | false =>
      apply lasting.nothing
      simp only [TokenStream.tokenize, failed]
      cases (transcript stream.cursor.rest).ending <;> rfl

end Lasting

theorem moves_refl (stream : TokenStream) : Moves stream stream := ⟨.inr rfl, Nat.le_refl _⟩

theorem moves_trans (first : Moves a b) (second : Moves b c) : Moves a c :=
  ⟨Position.le_trans first.position second.position, Nat.le_trans second.unread first.unread⟩

theorem moves_advances (first : Moves a b) (second : Advances b c) : Advances a c :=
  ⟨Position.lt_of_le_of_lt first.position second.position, Nat.lt_of_lt_of_le second.unread first.unread⟩

theorem advances_moves (first : Advances a b) (second : Moves b c) : Advances a c :=
  ⟨Position.lt_of_lt_of_le first.position second.position, Nat.lt_of_le_of_lt second.unread first.unread⟩

theorem sound_of_nothing (nothing : stream.peeked = none) : Sound stream := by
  intro held peeked
  rw [nothing] at peeked
  cases peeked

theorem sound_peek (sound : Sound stream) : Sound stream.peek.2 := by
  have front := front stream
  generalize stream.next = taken, stream.peek = shown at front ⊢
  cases front with
  | held => exact sound
  | ended | flawed => exact sound_of_nothing rfl
  | found _ read =>
      intro held same
      cases same
      exact (Cursor.token_found read).2.1

theorem sound_lasting : Lasting Sound := ⟨fun _ => sound_of_nothing, fun _ => sound_peek⟩

theorem sound_next (stream : TokenStream) : Sound stream.next.2 := sound_lasting.next stream

theorem sound_skip (sound : Sound stream) (count : Nat) : Sound (stream.skip count) :=
  sound_lasting.skip sound count

theorem next_moves (sound : Sound stream) : Moves stream stream.next.2 := by
  have front := front stream
  generalize stream.next = taken, stream.peek = shown at front ⊢
  cases front with
  | held cursor token => exact ⟨.inl (sound token rfl), Nat.le_succ _⟩
  | @found cursor _ _ _ read | @ended cursor _ _ read | @flawed cursor _ _ _ read =>
      have moves := Cursor.token_moves cursor
      rw [read] at moves
      exact ⟨moves.1, moves.2⟩

theorem peek_moves (stream : TokenStream) : Moves stream stream.peek.2 := by
  have front := front stream
  generalize stream.next = taken, stream.peek = shown at front ⊢
  cases front with
  | held => exact moves_refl _
  | found _ read =>
      obtain ⟨before, _, shorter⟩ := Cursor.token_found read
      exact ⟨before, shorter⟩
  | @ended cursor _ _ read | @flawed cursor _ _ _ read =>
      have moves := Cursor.token_moves cursor
      rw [read] at moves
      exact ⟨moves.1, moves.2⟩

theorem next_advances {token : Token} (sound : Sound stream) (taken : stream.next.1 = .ok (some token)) :
    Advances stream stream.next.2 := by
  have front := front stream
  generalize stream.next = answer, stream.peek = shown at front taken ⊢
  cases front with
  | held cursor token => exact ⟨sound token rfl, Nat.lt_succ_self _⟩
  | ended | flawed => cases taken
  | found _ read =>
      obtain ⟨before, after, shorter⟩ := Cursor.token_found read
      exact ⟨Position.lt_of_le_of_lt before after, shorter⟩

theorem next_ended (ended : stream.next.1 = .ok none) : Exhausted stream.next.2 := by
  have front := front stream
  generalize stream.next = taken, stream.peek = shown at front ended ⊢
  cases front with
  | held | found | flawed => cases ended
  | ended _ read => exact ⟨rfl, Cursor.token_ended read⟩

theorem next_error {error : LexicalError} (failed : stream.next.1 = .error error) :
    (∃ c, error = stream.next.2.cursor.error (.unexpectedCharacter c) ∧ Stuck stream.next.2 c) ∨
      error.fault.unexpected = false ∧ Advances stream stream.next.2 := by
  have front := front stream
  generalize stream.next = taken, stream.peek = shown at front failed ⊢
  cases front with
  | held | found | ended => cases failed
  | flawed _ read =>
      cases failed
      rcases Cursor.token_error read with ⟨c, rfl, head, again⟩ | ⟨other, further, shorter⟩
      · exact .inl ⟨c, rfl, rfl, head, again⟩
      · exact .inr ⟨other, further, shorter⟩

theorem skip_moves (sound : Sound stream) (count : Nat) : Moves stream (stream.skip count) := by
  induction count generalizing stream with
  | zero => exact moves_refl stream
  | succ count ih => exact moves_trans (next_moves sound) (ih (sound_next stream))

theorem skip_advances (sound : Sound stream) {count : Nat} (positive : 0 < count)
    (enough : count ≤ stream.upcoming.length) : Advances stream (stream.skip count) := by
  cases count with
  | zero => exact absurd positive (Nat.lt_irrefl 0)
  | succ count =>
      obtain ⟨token, taken⟩ := next_of_more (Nat.lt_of_lt_of_le positive enough)
      exact advances_moves (next_advances sound taken) (skip_moves (sound_next stream) count)

end TokenStream

namespace Call

open TokenStream

variable {kept : TokenStream → Prop} {stream : TokenStream}

theorem perform_lasting (lasting : Lasting kept) (holds : kept stream) (call : Call) :
    kept (call.perform stream).2 := by
  cases call with
  | peek => exact lasting.looked _ holds
  | next => exact lasting.next stream
  | position => exact holds
  | item => exact lasting.item holds
  | tokenize => exact lasting.tokenize holds
  | atEnd =>
      rw [perform, at_end_eq]
      exact lasting.looked _ holds

theorem run_lasting (lasting : Lasting kept) (holds : kept stream) (calls : List Call) :
    kept (run stream calls).2 := by
  induction calls generalizing stream with
  | nil => exact holds
  | cons call calls ih => exact ih (perform_lasting lasting holds call)

theorem run_sound (sound : Sound stream) (calls : List Call) : Sound (run stream calls).2 :=
  run_lasting sound_lasting sound calls

end Call

end ScriptReader
