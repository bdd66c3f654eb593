import ScriptReader.Proofs.Demand.Routine

set_option autoImplicit false

namespace ScriptReader

-- A reader leaves the stream as far as it has read, also where it fails.
def Reader (α : Type) := TokenStream → Except ParseError α × TokenStream

namespace Reader

variable {α β : Type}

instance : Monad Reader where
  pure value := fun stream => (.ok value, stream)
  bind first next := fun stream =>
    match first stream with
    | (.error error, stream) => (.error error, stream)
    | (.ok value, stream) => next value stream

theorem bind_ok {first : Reader α} {stream behind : TokenStream} {value : α}
    (read : first stream = (.ok value, behind)) (next : α → Reader β) :
    (first >>= next) stream = next value behind := by
  simp only [bind, read]

theorem bind_error {first : Reader α} {stream behind : TokenStream} {error : ParseError}
    (failed : first stream = (.error error, behind)) (next : α → Reader β) :
    (first >>= next) stream = (.error error, behind) := by
  simp only [bind, failed]

def ahead : Reader (Option TokenKind) := fun stream =>
  match stream.peek with
  | (.error error, stream) => (.error (.lexical error), stream)
  | (.ok found, stream) => (.ok (found.map Token.kind), stream)

def take (what : Expectation) : Reader Token := fun stream =>
  match stream.next with
  | (.error error, stream) => (.error (.lexical error), stream)
  | (.ok none, stream) => (.error (.grammatical (.unexpectedEnd what.text) stream.position), stream)
  | (.ok (some token), stream) => (.ok token, stream)

def missing (what : Expectation) : Reader α := fun stream =>
  match stream.peek with
  | (.error error, stream) => (.error (.lexical error), stream)
  | (.ok none, stream) => (.error (.grammatical (.unexpectedEnd what.text) stream.position), stream)
  | (.ok (some token), stream) =>
      (.error (.grammatical (what.faultAt token.kind) token.position), stream)

def refuse (what : Expectation) (token : Token) : Reader α := fun stream =>
  (.error (.grammatical (what.faultAt token.kind) token.position), stream)

def tooDeep (limit : Nat) : Reader α := fun stream =>
  (.error (.grammatical (.nestingTooDeep limit) stream.position), stream)

-- Every round of a loop takes a token, so that there are no more rounds than characters.
def parts : Parts Reader where
  ahead := ahead
  take := take
  demand c what := do
    if (← ahead) = some (.punctuation c) then return () else missing what
  refuse := refuse
  tooDeep := tooDeep
  clock := fun stream => (.ok (stream.cursor.rest.length + 2), stream)

def program (limit : Nat) : Reader Node := do
  let statements ← parts.program limit
  return .block statements

theorem loop_rounds {σ τ : Type} (enters : Option TokenKind → Option τ) (body : τ → σ → Reader σ)
    (value : σ) (stream : TokenStream) :
    parts.loop enters body value stream =
      parts.rounds enters body (stream.cursor.rest.length + 2) value stream := rfl

theorem demand_bind (c : Char) (what : Expectation) (next : Unit → Reader α) :
    (parts.demand c what >>= next) =
      ahead >>= fun found => if found = some (.punctuation c) then next () else missing what := by
  funext stream
  simp only [parts, bind]
  cases ahead stream with
  | mk result behind =>
      cases result with
      | error error => rfl
      | ok found =>
          by_cases marked : found = some (.punctuation c)
          · simp only [if_pos marked]
            rfl
          · simp only [if_neg marked, missing]
            cases behind.peek with
            | mk result behind => rcases result with error | _ | token <;> rfl

end Reader

end ScriptReader
