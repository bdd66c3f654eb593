import ScriptReader.Proofs.Demand.Reader
import ScriptReader.Proofs.Program.Told

/-!
A parser that writes its log as it goes on. What it has written at any time is what its reader has read.
-/

set_option autoImplicit false

namespace ScriptReader

structure Record where
  stream : TokenStream
  log : List Event

def Record.ofString (source : String) : Record := ⟨.ofString source, []⟩

def Recorded (α : Type) := Record → Except ParseError α × Record

-- What the next reading of a stream tells. A token that has been looked at is not read again.
def TokenStream.heard (stream : TokenStream) : List Event :=
  if stream.peeked.isSome then [] else stream.cursor.heard

def drain {m : Type → Type} [Monad m] (next : m (Option Token)) : Nat → m (List Token)
  | 0 => return []
  | clock + 1 => do
      match ← next with
      | none => return []
      | some token => return token :: (← drain next clock)

namespace Recorded

variable {α β : Type}

instance : Monad Recorded where
  pure value := fun record => (.ok value, record)
  bind first next := fun record =>
    match first record with
    | (.error error, record) => (.error error, record)
    | (.ok value, record) => next value record

def write (event : Event) : Recorded Unit := fun record =>
  (.ok (), ⟨record.stream, record.log ++ [event]⟩)

def position : Recorded Position := fun record => (.ok record.stream.position, record)

def peek : Recorded (Option Token) := fun record =>
  (record.stream.peek.1.mapError .lexical,
    ⟨record.stream.peek.2, record.log ++ record.stream.heard⟩)

def next : Recorded (Option Token) := fun record =>
  (record.stream.next.1.mapError .lexical,
    ⟨record.stream.next.2, record.log ++ record.stream.heard⟩)

def fail (error : ParseError) : Recorded α := fun record =>
  (.error error, ⟨record.stream, record.log ++ [.parseError error]⟩)

def endOfInput (what : Expectation) : Recorded α := do
  fail (.grammatical (.unexpectedEnd what.text) (← position))

def take (what : Expectation) : Recorded Token := do
  match ← next with
  | some token => return token
  | none => endOfInput what

def ahead : Recorded (Option TokenKind) := do return (← peek).map Token.kind

def missing (what : Expectation) : Recorded α := fun record =>
  match peek record with
  | (.error error, record) => fail error record
  | (.ok none, record) => endOfInput what record
  | (.ok (some token), record) =>
      fail (.grammatical (what.faultAt token.kind) token.position) record

def parts : Parts Recorded where
  ahead := ahead
  take := take
  demand c what := do
    if (← ahead) = some (.punctuation c) then return () else missing what
  refuse what token := fail (.grammatical (what.faultAt token.kind) token.position)
  tooDeep limit := do fail (.grammatical (.nestingTooDeep limit) (← position))
  clock := fun record => (.ok (record.stream.cursor.rest.length + 2), record)

def parseProgram (limit : Nat) : Recorded Node := do
  write .parsingProgram
  let statements ← parts.program limit
  write (.parsedProgram statements.length)
  return .block statements

-- The clock lasts, since every token but the one that may be held takes a character.
def tokenize : Recorded (List Token) := fun record =>
  drain next (record.stream.cursor.rest.length + 2) record

end Recorded

-- What a recorder does where a reader goes from one stream to another: the events it writes are those that
-- the stream behind does not tell any more, and the error, if there is one, is the last of them.
inductive Logged {α : Type} (stream : TokenStream) (log : List Event) :
    Except ParseError α × TokenStream → Except ParseError α × Record → Prop where
  | ok {value : α} {after : TokenStream} (added : List Event)
      (told : added ++ after.cursor.told = stream.cursor.told)
      (reads : ∀ event ∈ added, event.reads = true) :
      Logged stream log (.ok value, after) (.ok value, ⟨after, log ++ added⟩)
  | grammatical {fault : GrammarFault} {p : Position} {after : TokenStream} (added : List Event)
      (told : added ++ after.cursor.told = stream.cursor.told)
      (reads : ∀ event ∈ added, event.reads = true) :
      Logged stream log (.error (.grammatical fault p), after)
        (.error (.grammatical fault p), ⟨after, log ++ (added ++ [.parseError (.grammatical fault p)])⟩)
  | lexical {error : LexicalError} {after : TokenStream} (added : List Event)
      (told : added ++ [.lexicalError error] = stream.cursor.told)
      (reads : ∀ event ∈ added, event.reads = true) :
      Logged stream log (.error (.lexical error), after)
        (.error (.lexical error), ⟨after, log ++ (added ++ [.lexicalError error])⟩)

def Logs {α : Type} (recorded : Recorded α) (reader : Reader α) : Prop :=
  ∀ stream log, Logged stream log (reader stream) (recorded ⟨stream, log⟩)

namespace Reader

def peek : Reader (Option Token) := fun stream => (stream.peek.1.mapError .lexical, stream.peek.2)

def next : Reader (Option Token) := fun stream => (stream.next.1.mapError .lexical, stream.next.2)

theorem ahead_peek : ahead = do return (← peek).map Token.kind := by
  funext stream
  simp only [ahead, peek, bind, pure]
  rcases stream.peek with ⟨_ | _, _⟩ <;> rfl

theorem take_next (what : Expectation) :
    take what = next >>= fun found => match found with
      | some token => pure token
      | none => fun stream =>
          (.error (.grammatical (.unexpectedEnd what.text) stream.position), stream) := by
  funext stream
  simp only [take, next, bind]
  rcases stream.next with ⟨_ | _ | _, _⟩ <;> rfl

end Reader

namespace Recorded

variable {α β : Type}

theorem logs_pure (value : α) : Logs (pure value : Recorded α) (pure value) := by
  intro stream log
  have logged : Logged stream log (.ok value, stream) (.ok value, ⟨stream, log ++ []⟩) :=
    .ok [] rfl nofun
  rwa [List.append_nil] at logged

theorem logged_bind {stream : TokenStream} {log : List Event} {first : Recorded α} {reader : Reader α}
    {next : α → Recorded β} {following : α → Reader β}
    (firsts : Logged stream log (reader stream) (first ⟨stream, log⟩))
    (nexts : ∀ value after log, reader stream = (.ok value, after) →
      Logged after log (following value after) (next value ⟨after, log⟩)) :
    Logged stream log ((reader >>= following) stream) ((first >>= next) ⟨stream, log⟩) := by
  simp only [bind]
  generalize reader stream = plain, first ⟨stream, log⟩ = answer at firsts nexts
  cases firsts with
  | grammatical added told reads => exact .grammatical added told reads
  | lexical added told reads => exact .lexical added told reads
  | @ok value after added told reads =>
      have later := nexts value after (log ++ added) rfl
      have both : ∀ more : List Event, (∀ event ∈ more, event.reads = true) →
          ∀ event ∈ added ++ more, event.reads = true :=
        fun more known => List.forall_mem_append.mpr ⟨reads, known⟩
      dsimp only
      generalize following value after = plain, next value ⟨after, log ++ added⟩ = answer at later
      cases later with
      | ok more further known =>
          rw [List.append_assoc]
          exact .ok (added ++ more) (by rw [List.append_assoc, further, told]) (both more known)
      | grammatical more further known =>
          rw [List.append_assoc, ← List.append_assoc added]
          exact .grammatical (added ++ more) (by rw [List.append_assoc, further, told]) (both more known)
      | lexical more further known =>
          rw [List.append_assoc, ← List.append_assoc added]
          exact .lexical (added ++ more) (by rw [List.append_assoc, further, told]) (both more known)

theorem logs_bind {first : Recorded α} {reader : Reader α} {next : α → Recorded β}
    {following : α → Reader β} (firsts : Logs first reader)
    (nexts : ∀ value, Logs (next value) (following value)) :
    Logs (first >>= next) (reader >>= following) :=
  fun stream log => logged_bind (firsts stream log) fun value after log _ => nexts value after log

section Parts

theorem logged_reading {stream after : TokenStream} {result : Except LexicalError (Option Token)}
    (read : (result, after) = stream.next ∨ (result, after) = stream.peek) (log : List Event) :
    Logged stream log (result.mapError .lexical, after)
      (result.mapError .lexical, ⟨after, log ++ stream.heard⟩) := by
  have front := TokenStream.front stream
  generalize stream.next = taken, stream.peek = shown at front read
  cases front with
  | held cursor token failed =>
      rcases read with same | same <;> cases same <;> exact .ok [] rfl nofun
  | found failed heard | ended failed heard =>
      obtain ⟨told, reads⟩ := Cursor.heard_ok heard
      rcases read with same | same <;> cases same <;> exact .ok _ told reads
  | @flawed cursor behind error failed heard =>
      obtain ⟨skipped, same, told, reads⟩ := Cursor.heard_error heard
      have all : TokenStream.heard ⟨cursor, none, failed⟩ = skipped ++ [.lexicalError error] := same
      obtain ⟨rfl, rfl⟩ := Prod.mk.inj (read.elim id id)
      rw [all]
      exact .lexical skipped (told.trans same).symm reads

theorem logs_peek : Logs peek Reader.peek := fun _ log => logged_reading (.inr rfl) log

theorem logs_next : Logs next Reader.next := fun _ log => logged_reading (.inl rfl) log

theorem logged_fail (stream : TokenStream) (log : List Event) (fault : GrammarFault) (p : Position) :
    Logged stream log (.error (.grammatical fault p), stream)
      ((fail (.grammatical fault p) : Recorded α) ⟨stream, log⟩) :=
  .grammatical [] rfl nofun

theorem logs_ahead : Logs ahead Reader.ahead := by
  rw [Reader.ahead_peek]
  exact logs_bind logs_peek fun found => logs_pure _

theorem logs_take (what : Expectation) : Logs (take what) (Reader.take what) := by
  rw [Reader.take_next]
  apply logs_bind logs_next
  intro found
  cases found with
  | some token => exact logs_pure token
  | none => exact fun stream log => logged_fail stream log _ _

theorem heard_again {stream after : TokenStream} {found : Option Token}
    (shown : stream.peek = (.ok found, after)) : after.peek = (.ok found, after) ∧ after.heard = [] := by
  have again := (TokenStream.peek_again stream found (congrArg Prod.fst shown)).1
  rw [shown] at again
  refine ⟨again, ?_⟩
  have front := TokenStream.front stream
  generalize stream.next = taken, stream.peek = answer at front shown
  cases front with
  | held | found => cases shown; rfl
  | flawed => cases shown
  | @ended cursor behind failed heard =>
      cases shown
      have silent : comments behind.position (read behind.rest).gap = [] := by
        rw [Cursor.token_ended heard]
        rfl
      simp only [TokenStream.heard, Cursor.heard, TokenStream.token_at_end _ _ heard, silent]
      rfl

-- The mark that is missing has been looked at before, so that looking once more fails no more.
theorem logs_demand (c : Char) (what : Expectation) :
    Logs (parts.demand c what) (Reader.parts.demand c what) := by
  intro stream log
  apply logged_bind (logs_ahead stream log)
  intro value after log looked
  rw [Reader.ahead_peek] at looked
  simp only [bind, Reader.peek, pure] at looked
  split
  · exact logs_pure () after log
  · generalize shown : stream.peek = answer at looked
    obtain ⟨_ | found, behind⟩ := answer
    · cases looked
    · cases looked
      obtain ⟨again, silent⟩ := heard_again shown
      rw [missing, Reader.missing, peek, again, silent, List.append_nil]
      cases found with
      | none => exact logged_fail behind log _ _
      | some token => exact logged_fail behind log _ _

theorem recorder_kin : Kin parts Reader.parts Logs where
  pure := logs_pure
  bind := logs_bind
  ahead := logs_ahead
  take := logs_take
  demand := logs_demand
  refuse _ _ stream log := logged_fail stream log _ _
  tooDeep _ stream log := logged_fail stream log _ _
  clock stream log := logs_pure _ stream log

theorem logs_drain (clock : Nat) : Logs (drain next clock) (drain Reader.next clock) := by
  induction clock with
  | zero => exact logs_pure []
  | succ clock ih =>
      apply logs_bind logs_next
      intro found
      cases found with
      | none => exact logs_pure []
      | some token => exact logs_bind ih fun tokens => logs_pure _

end Parts

end Recorded

namespace Reader

theorem drain_tokenize (clock : Nat) {stream : TokenStream} (unfailed : stream.failed = false)
    (enough : stream.upcoming.length < clock) :
    drain next clock stream = (stream.tokenize.1.mapError .lexical, stream.tokenize.2) := by
  induction clock generalizing stream with
  | zero => cases enough
  | succ clock ih =>
      have coming := TokenStream.upcoming_next stream
      have flag := TokenStream.next_failed stream
      rw [TokenStream.tokenize_item, TokenStream.item_of_unfailed unfailed]
      simp only [drain, bind, next]
      generalize stream.next = answer at coming flag ⊢
      obtain ⟨_ | _ | token, after⟩ := answer
      · rfl
      · rfl
      · rw [coming] at enough
        rw [unfailed] at flag
        have later := ih flag (Nat.lt_of_succ_lt_succ enough)
        simp only [TokenStream.itemOf, Except.mapError, Option.map_some, later]
        cases after.tokenize.1 <;> rfl

end Reader

theorem Recorded.logged_tokenize {stream : TokenStream} (unfailed : stream.failed = false)
    (log : List Event) :
    Logged stream log (stream.tokenize.1.mapError .lexical, stream.tokenize.2)
      (tokenize ⟨stream, log⟩) := by
  have logged := logs_drain (stream.cursor.rest.length + 2) stream log
  rw [Reader.drain_tokenize _ unfailed (Nat.lt_succ_of_le (TokenStream.upcoming_length stream))] at logged
  exact logged

end ScriptReader
