import ScriptReader.Grammar.Progress
import ScriptReader.Proofs.Demand.Reached
import ScriptReader.Proofs.Demand.Reader

/-!
When a reader answers as a rule does: it returns the same value and leaves the stream in front of the
tokens that the rule leaves, or fails as the rule stops. Only where a flaw stands behind the last token
may the reader be ahead of the rule: it meets the flaw as soon as it looks there. The relation is kept
by what readers are put together from (`answers_bind`, `answers_ahead`, `loop_answers`).
-/

set_option autoImplicit false

namespace ScriptReader.Reader

open TokenStream

variable {α β σ τ : Type} {start stream : TokenStream} {limit : Nat} {tokens : List TokenKind}
  {looked : Bool}

def conclude (start : TokenStream) (limit : Nat) : Stop → ParseError × TokenStream
  | ⟨.tooDeep looked, unread⟩ =>
      let stream := before start unread
      let stream := if looked then stream.peek.2 else stream
      (.grammatical (.nestingTooDeep limit) stream.position, stream)
  | ⟨.missing what, unread⟩ =>
      match (before start unread).peek with
      | (.error error, stream) => (.lexical error, stream)
      | (.ok none, stream) => (.grammatical (.unexpectedEnd what.text) stream.position, stream)
      | (.ok (some token), stream) =>
          (.grammatical (what.faultAt token.kind) token.position,
            if what.takes then stream.next.2 else stream)

-- The edge tells what is known about whether the next token has been looked at.
inductive Answers (start : TokenStream) (limit : Nat) (edge : Bool → Prop) :
    Except Stop (α × List TokenKind) → Except ParseError α × TokenStream → Prop where
  | ok {value : α} {rest : List TokenKind} {looked : Bool} {stream : TokenStream}
      (reached : Reached start rest looked stream) (known : edge looked) :
      Answers start limit edge (.ok (value, rest)) (.ok value, stream)
  | missing {what : Expectation} {unread : List TokenKind} {error : ParseError} {stream : TokenStream}
      (concluded : conclude start limit ⟨.missing what, unread⟩ = (error, stream)) :
      Answers start limit edge (.error ⟨.missing what, unread⟩) (.error error, stream)
  | tooDeep {unread : List TokenKind} {looked : Bool} {stream : TokenStream}
      (reached : Reached start unread looked stream) :
      Answers start limit edge (.error ⟨.tooDeep looked, unread⟩)
        (.error (.grammatical (.nestingTooDeep limit) stream.position), stream)
  -- Behind the last token there is a flaw, and the reader has looked there.
  | lexical {value : α} {error : LexicalError} (unclosed : edge true)
      (flawed : (before start []).peek.1 = .error error) :
      Answers start limit edge (.ok (value, []))
        (.error (.lexical error), (before start []).peek.2)

-- The rule takes nothing more, so that nothing is lost if a flaw has ended the reader before.
def Quiet (edge : Bool → Prop) (outcome : Except Stop (α × List TokenKind)) : Prop :=
  (edge true ∧ ∃ value, outcome = .ok (value, [])) ∨
    ∃ what, outcome = .error ⟨.missing what, []⟩

theorem quiet_ok {edge : Bool → Prop} (value : α) (unclosed : edge true) :
    Quiet edge (.ok (value, [])) := .inl ⟨unclosed, value, rfl⟩

theorem quiet_missing {edge : Bool → Prop} (what : Expectation) :
    Quiet edge (.error ⟨.missing what, []⟩ : Except Stop (α × List TokenKind)) := .inr ⟨what, rfl⟩

theorem conclude_flawed {error : LexicalError} (what : Expectation)
    (flawed : (before start tokens).peek.1 = .error error) :
    conclude start limit ⟨.missing what, tokens⟩ =
      (.lexical error, (before start tokens).peek.2) := by
  have peeked : (before start tokens).peek = (.error error, (before start tokens).peek.2) :=
    Prod.ext flawed rfl
  rw [conclude, peeked]

theorem conclude_missing (start : TokenStream) (limit : Nat) (what : Expectation)
    (unread : List TokenKind) :
    (conclude start limit ⟨.missing what, unread⟩).1 =
      match (before start unread).peek.1 with
      | .error error => .lexical error
      | .ok none => .grammatical (.unexpectedEnd what.text) (before start unread).peek.2.position
      | .ok (some token) => .grammatical (what.faultAt token.kind) token.position := by
  rw [conclude]
  generalize (before start unread).peek = answer
  obtain ⟨result, behind⟩ := answer
  rcases result with error | _ | token <;> rfl

theorem answers_flawed {edge : Bool → Prop} {outcome : Except Stop (α × List TokenKind)}
    {error : LexicalError} (quiet : Quiet edge outcome)
    (flawed : (before start []).peek.1 = .error error) :
    Answers start limit edge outcome (.error (.lexical error), (before start []).peek.2) := by
  rcases quiet with ⟨unclosed, value, rfl⟩ | ⟨what, rfl⟩
  · exact .lexical unclosed flawed
  · exact .missing (conclude_flawed what flawed)

theorem answers_pure {edge : Bool → Prop} {value : α} (reached : Reached start tokens looked stream)
    (known : edge looked) :
    Answers start limit edge (.ok (value, tokens)) ((pure value : Reader α) stream) :=
  .ok reached known

theorem answers_loosen {first edge : Bool → Prop} {outcome : Except Stop (α × List TokenKind)}
    {answer : Except ParseError α × TokenStream} (answers : Answers start limit first outcome answer)
    (loose : ∀ looked, first looked → edge looked) : Answers start limit edge outcome answer := by
  cases answers with
  | ok reached known => exact .ok reached (loose _ known)
  | missing concluded => exact .missing concluded
  | tooDeep reached => exact .tooDeep reached
  | lexical unclosed flawed => exact .lexical (loose _ unclosed) flawed

theorem answers_bind {first edge : Bool → Prop} {outcome : Except Stop (α × List TokenKind)}
    {reader : Reader α} {rule : α × List TokenKind → Except Stop (β × List TokenKind)}
    {next : α → Reader β} (answers : Answers start limit first outcome (reader stream))
    (later : ∀ value rest looked behind, outcome = .ok (value, rest) →
      Reached start rest looked behind → first looked →
      Answers start limit edge (rule (value, rest)) (next value behind))
    (quiet : first true → ∀ value, outcome = .ok (value, []) → Quiet edge (rule (value, []))) :
    Answers start limit edge (outcome >>= rule) ((reader >>= next) stream) := by
  generalize answered : reader stream = answer at answers
  cases answers with
  | ok reached known =>
      rw [bind_ok answered]
      exact later _ _ _ _ rfl reached known
  | missing concluded =>
      rw [bind_error answered]
      exact .missing concluded
  | tooDeep reached =>
      rw [bind_error answered]
      exact .tooDeep reached
  | lexical unclosed flawed =>
      rw [bind_error answered]
      exact answers_flawed (quiet unclosed _ rfl) flawed

section Lookahead

theorem ahead_shown {found : Option Token} (reached : Reached start tokens looked stream)
    (shown : (before start tokens).peek.1 = .ok found) :
    ahead stream = (.ok (found.map Token.kind), (before start tokens).peek.2) := by
  have peeked : (before start tokens).peek = (.ok found, (before start tokens).peek.2) :=
    Prod.ext shown rfl
  rw [ahead, reached_peek reached, peeked]

theorem ahead_flawed {error : LexicalError} (reached : Reached start tokens looked stream)
    (flawed : (before start tokens).peek.1 = .error error) :
    ahead stream = (.error (.lexical error), (before start tokens).peek.2) := by
  have peeked : (before start tokens).peek = (.error error, (before start tokens).peek.2) :=
    Prod.ext flawed rfl
  rw [ahead, reached_peek reached, peeked]

theorem ahead_reached (reached : Reached start tokens looked stream) :
    (ahead stream = (.ok tokens.head?, (before start tokens).peek.2) ∧
        Reached start tokens true (before start tokens).peek.2) ∨
      tokens = [] ∧ ∃ error, (before start []).peek.1 = .error error ∧
        ahead stream = (.error (.lexical error), (before start []).peek.2) := by
  cases tokens with
  | cons kind rest =>
      obtain ⟨position, shown, _⟩ := next_of_upcoming _ kind rest (before_upcoming reached.suffix)
      exact .inl ⟨ahead_shown reached shown, reached_ahead reached.suffix _ shown⟩
  | nil =>
      rcases (next_of_nothing _ (before_upcoming reached.suffix)).2 with shown | ⟨error, flawed⟩
      · exact .inl ⟨ahead_shown reached shown, reached_ahead reached.suffix _ shown⟩
      · exact .inr ⟨rfl, error, flawed, ahead_flawed reached flawed⟩

theorem answers_ahead {edge : Bool → Prop} {outcome : Except Stop (α × List TokenKind)}
    {next : Option TokenKind → Reader α} (reached : Reached start tokens looked stream)
    (later : ∀ behind, Reached start tokens true behind →
      Answers start limit edge outcome (next tokens.head? behind))
    (quiet : tokens = [] → Quiet edge outcome) :
    Answers start limit edge outcome ((ahead >>= next) stream) := by
  rcases ahead_reached reached with ⟨read, seen⟩ | ⟨ended, error, flawed, failed⟩
  · rw [bind_ok read]
    exact later _ seen
  · rw [bind_error failed]
    exact answers_flawed (quiet ended) flawed

theorem answers_take {edge : Bool → Prop} {kind : TokenKind} {rest : List TokenKind}
    {outcome : Except Stop (α × List TokenKind)} {next : Token → Reader α} (what : Expectation)
    (reached : Reached start (kind :: rest) looked stream)
    (later : ∀ position, (before start (kind :: rest)).peek.1 = .ok (some ⟨kind, position⟩) →
      Reached start rest false (before start rest) →
      Answers start limit edge outcome (next ⟨kind, position⟩ (before start rest))) :
    Answers start limit edge outcome ((take what >>= next) stream) := by
  obtain ⟨position, shown, taken⟩ := next_of_upcoming _ kind rest (before_upcoming reached.suffix)
  have passed : stream.next = (.ok (some ⟨kind, position⟩), before start rest) := by
    rw [reached_next reached]
    exact Prod.ext taken (before_cons reached.suffix)
  have read : take what stream = (.ok ⟨kind, position⟩, before start rest) := by
    rw [take, passed]
  rw [bind_ok read]
  exact later position shown (reached_behind reached.suffix)

theorem answers_take_nothing {edge : Bool → Prop} {next : Token → Reader α} (what : Expectation)
    (reached : Reached start [] looked stream) :
    Answers start limit edge (.error ⟨.missing what, []⟩) ((take what >>= next) stream) := by
  have nothing := next_of_nothing _ (before_upcoming reached.suffix)
  have passed : stream.next = (before start []).peek := (reached_next reached).trans nothing.1
  rcases nothing.2 with shown | ⟨error, flawed⟩
  · have peeked : (before start []).peek = (.ok none, (before start []).peek.2) := Prod.ext shown rfl
    have failed : take what stream = (.error (.grammatical (.unexpectedEnd what.text)
        (before start []).peek.2.position), (before start []).peek.2) := by
      rw [take, passed, peeked]
    rw [bind_error failed]
    exact .missing (by rw [conclude, peeked])
  · have failed : take what stream = (.error (.lexical error), (before start []).peek.2) := by
      have peeked : (before start []).peek = (.error error, (before start []).peek.2) :=
        Prod.ext flawed rfl
      rw [take, passed, peeked]
    rw [bind_error failed]
    exact .missing (conclude_flawed what flawed)

theorem answers_missing {edge : Bool → Prop} (what : Expectation) (keeps : what.takes = false)
    (reached : Reached start tokens looked stream) :
    Answers start limit edge (.error ⟨.missing what, tokens⟩ : Except Stop (α × List TokenKind))
      (missing what stream) := by
  rw [missing, reached_peek reached]
  split
  all_goals exact .missing (by simp [conclude, *])

theorem answers_refuse {edge : Bool → Prop} {kind : TokenKind} {rest : List TokenKind}
    {token : Token} (what : Expectation) (takes : what.takes = true)
    (suffix : kind :: rest <:+ start.upcoming)
    (shown : (before start (kind :: rest)).peek.1 = .ok (some token)) :
    Answers start limit edge (.error ⟨.missing what, kind :: rest⟩ : Except Stop (α × List TokenKind))
      (refuse what token (before start rest)) := by
  have peeked : (before start (kind :: rest)).peek =
      (.ok (some token), (before start (kind :: rest)).peek.2) := Prod.ext shown rfl
  have behind : (before start (kind :: rest)).peek.2.next.2 = before start rest := by
    rw [(peek_again _ _ shown).2, before_cons suffix]
  exact .missing (by rw [conclude, peeked]; simp [takes, behind])

theorem answers_too_deep {edge : Bool → Prop} (reached : Reached start tokens looked stream) :
    Answers start limit edge (.error ⟨.tooDeep looked, tokens⟩ : Except Stop (α × List TokenKind))
      (tooDeep limit stream) :=
  .tooDeep reached

end Lookahead

section Loops

variable {enters : Option TokenKind → Option τ} {body : τ → σ → Reader σ} {step : Rule.Step σ}
  {round : τ → σ → Rule σ}

structure Entered (enters : Option TokenKind → Option τ) (round : τ → σ → Rule σ)
    (step : Rule.Step σ) : Prop where
  stays : ∀ value tokens, enters tokens.head? = none → step value tokens = .ok none
  moves : ∀ found value tokens, enters tokens.head? = some found →
    step value tokens = (round found value tokens).map some

theorem repeatedly_entered (entered : Entered enters round step) (progress : step.Progress)
    {found : τ} (value : σ) (enter : enters tokens.head? = some found) :
    Rule.repeatedly step value tokens =
      round found value tokens >>= fun item => Rule.repeatedly step item.1 item.2 := by
  rw [Rule.repeatedly_eq step progress, entered.moves found value tokens enter]
  cases round found value tokens <;> rfl

theorem entered_induction (entered : Entered enters round step) (progress : step.Progress)
    {motive : σ → List TokenKind → Prop}
    (stays : ∀ value tokens, enters tokens.head? = none → motive value tokens)
    (moves : ∀ found value tokens, enters tokens.head? = some found →
      (∀ next rest, round found value tokens = .ok (next, rest) → motive next rest) →
      motive value tokens) (value : σ) (tokens : List TokenKind) : motive value tokens := by
  induction value, tokens using Rule.step_induction step progress with
  | each value tokens ih =>
      cases enter : enters tokens.head? with
      | none => exact stays value tokens enter
      | some found =>
          refine moves found value tokens enter fun next rest read => ih next rest ?_
          rw [entered.moves found value tokens enter, read]
          rfl

theorem rounds_answers (entered : Entered enters round step) (progress : step.Progress)
    (bodies : ∀ found value tokens behind, enters tokens.head? = some found →
      Reached start tokens true behind →
      Answers start limit (fun _ => True) (round found value tokens) (body found value behind))
    (clock : Nat) (value : σ) (enough : tokens.length < clock)
    (reached : Reached start tokens looked stream) :
    Answers start limit (· = true) (Rule.repeatedly step value tokens)
      (parts.rounds enters body clock value stream) := by
  induction clock generalizing value tokens looked stream with
  | zero => exact absurd enough (Nat.not_lt_zero _)
  | succ clock ih =>
      have nothing : ∀ value, Rule.repeatedly step value [] = .ok (value, []) := fun _ => rfl
      refine answers_ahead reached (fun behind seen => ?_) (fun ended => ?_)
      · cases enter : enters tokens.head? with
        | none =>
            rw [Rule.repeatedly_eq step progress, entered.stays value tokens enter]
            exact answers_pure seen rfl
        | some found =>
            rw [repeatedly_entered entered progress value enter]
            refine answers_bind (bodies found value tokens behind enter seen) ?_ fun _ next _ => ?_
            · intro next rest looked later took reached _
              have shorter := progress.2 value tokens next rest
                (by rw [entered.moves found value tokens enter, took]; rfl)
              have fewer : rest.length < clock := by omega
              exact ih next fewer reached
            · dsimp only
              rw [nothing next]
              exact quiet_ok next rfl
      · rw [ended, nothing value]
        exact quiet_ok value rfl

theorem loop_answers (entered : Entered enters round step) (progress : step.Progress)
    (bodies : ∀ found value tokens behind, enters tokens.head? = some found →
      Reached start tokens true behind →
      Answers start limit (fun _ => True) (round found value tokens) (body found value behind))
    (value : σ) (reached : Reached start tokens looked stream) :
    Answers start limit (· = true) (Rule.repeatedly step value tokens)
      (parts.loop enters body value stream) := by
  rw [loop_rounds]
  have bound := upcoming_length stream
  rw [reached_upcoming reached] at bound
  exact rounds_answers entered progress bodies _ value (by omega) reached

end Loops

end ScriptReader.Reader
