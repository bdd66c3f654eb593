import ScriptReader.Proofs.Demand.Rules
import ScriptReader.Proofs.Phrase.Separated
import ScriptReader.Proofs.Phrase.Sequences
import ScriptReader.Proofs.Token.Lexable

set_option autoImplicit false

namespace ScriptReader.Rule

open Phrase
open Reader (Entered repeatedly_entered entered_induction)

variable {α β σ τ : Type}

-- What has been taken holds, and what is wanted at the end can be written there.
structure Viable (holds : List TokenKind → Prop) (tokens : List TokenKind)
    (outcome : Except Stop (α × List TokenKind)) : Prop where
  takes : ∀ value rest, outcome = .ok (value, rest) → ∃ taken, tokens = taken ++ rest ∧ holds taken
  completes : ∀ what, outcome = .error ⟨.missing what, []⟩ →
    ∃ more, Lexable more ∧ holds (tokens ++ more)

def Completable (holds : List TokenKind → Prop) (rule : Rule α) : Prop :=
  ∀ tokens, Viable holds tokens (rule tokens)

theorem viable_ok {holds : List TokenKind → Prop} (tokens : List TokenKind) (value : α)
    (nothing : holds []) : Viable holds tokens (.ok (value, tokens)) := by
  refine ⟨fun _ _ read => ?_, fun _ stopped => (by cases stopped)⟩
  cases read
  exact ⟨[], rfl, nothing⟩

-- Only a rule that stops without any token left has to be completed.
theorem viable_missing {holds : List TokenKind → Prop} (tokens : List TokenKind) (what : Expectation)
    (filled : ∃ more, Lexable more ∧ holds more) :
    Viable holds tokens (.error ⟨.missing what, tokens⟩ : Except Stop (α × List TokenKind)) := by
  refine ⟨fun _ _ read => (by cases read), fun _ stopped => ?_⟩
  cases stopped
  exact filled

theorem viable_mono {first holds : List TokenKind → Prop} {tokens : List TokenKind}
    {outcome : Except Stop (α × List TokenKind)} (viable : Viable first tokens outcome)
    (weaken : ∀ tokens, first tokens → holds tokens) : Viable holds tokens outcome := by
  refine ⟨fun value rest read => ?_, fun what stopped => ?_⟩
  · obtain ⟨taken, same, known⟩ := viable.takes value rest read
    exact ⟨taken, same, weaken taken known⟩
  · obtain ⟨more, lexable, known⟩ := viable.completes what stopped
    exact ⟨more, lexable, weaken _ known⟩

theorem viable_cons {first holds : List TokenKind → Prop} {kind : TokenKind} {tokens : List TokenKind}
    {outcome : Except Stop (α × List TokenKind)} (viable : Viable first tokens outcome)
    (put : ∀ tokens, first tokens → holds (kind :: tokens)) : Viable holds (kind :: tokens) outcome := by
  refine ⟨fun value rest read => ?_, fun what stopped => ?_⟩
  · obtain ⟨taken, rfl, known⟩ := viable.takes value rest read
    exact ⟨kind :: taken, rfl, put taken known⟩
  · obtain ⟨more, lexable, known⟩ := viable.completes what stopped
    exact ⟨more, lexable, put _ known⟩

theorem viable_bind {first second holds : List TokenKind → Prop} {tokens : List TokenKind}
    {outcome : Except Stop (α × List TokenKind)}
    {next : α × List TokenKind → Except Stop (β × List TokenKind)} (viable : Viable first tokens outcome)
    (later : ∀ value rest, outcome = .ok (value, rest) → Viable second rest (next (value, rest)))
    (filled : ∃ more, Lexable more ∧ second more)
    (join : ∀ a b, first a → second b → holds (a ++ b)) : Viable holds tokens (outcome >>= next) := by
  cases outcome with
  | error stop =>
      refine ⟨fun _ _ read => (by cases read), fun what stopped => ?_⟩
      cases stopped
      obtain ⟨a, lexableA, known⟩ := viable.completes what rfl
      obtain ⟨b, lexableB, filler⟩ := filled
      exact ⟨a ++ b, lexable_append.mpr ⟨lexableA, lexableB⟩,
        List.append_assoc tokens a b ▸ join _ _ known filler⟩
  | ok item =>
      obtain ⟨a, rfl, known⟩ := viable.takes item.1 item.2 rfl
      have further := later item.1 item.2 rfl
      refine ⟨fun value rest read => ?_, fun what stopped => ?_⟩
      · obtain ⟨b, same, behind⟩ := further.takes value rest read
        exact ⟨a ++ b, by rw [same, List.append_assoc], join a b known behind⟩
      · obtain ⟨more, lexable, behind⟩ := further.completes what stopped
        exact ⟨more, lexable, List.append_assoc a item.2 more ▸ join _ _ known behind⟩

theorem lexable_mark (c : Char) (known : isPunctuation c = true) : Lexable [.punctuation c] :=
  lexable_single known

theorem mark_viable (c : Char) (known : isPunctuation c = true) :
    Completable (· = [.punctuation c]) (mark c) := by
  intro tokens
  refine ⟨fun _ rest read => ⟨_, mark_eq_ok read, rfl⟩, fun what stopped => ?_⟩
  rw [Reader.mark_eq] at stopped
  split at stopped
  · cases stopped
  · cases stopped
    exact ⟨_, lexable_mark c known, rfl⟩

section Loops

variable {step : Step σ}

theorem repeatedly_stop_induction (progress : step.Progress) {stop : Stop}
    {motive : σ → List TokenKind → Prop}
    (here : ∀ value tokens, step value tokens = .error stop → motive value tokens)
    (further : ∀ value tokens next behind, step value tokens = .ok (some (next, behind)) →
      repeatedly step next behind = .error stop → motive next behind → motive value tokens)
    (value : σ) (tokens : List TokenKind) (stopped : repeatedly step value tokens = .error stop) :
    motive value tokens := by
  induction value, tokens using step_induction step progress with
  | each value tokens ih =>
      have unrolled := repeatedly_eq step progress value tokens
      rw [stopped] at unrolled
      split at unrolled
      · rename_i failed
        cases unrolled
        exact here value tokens failed
      · cases unrolled
      · rename_i next behind took
        exact further value tokens next behind took unrolled.symm (ih next behind took unrolled.symm)

variable {enters : Option TokenKind → Option τ} {round : τ → σ → Rule σ}
  {holds : List TokenKind → Prop}

theorem repeatedly_viable (entered : Entered enters round step) (progress : step.Progress)
    (nothing : holds []) (join : ∀ a b, holds a → holds b → holds (a ++ b))
    (rounds : ∀ found value tokens, enters tokens.head? = some found →
      Viable holds tokens (round found value tokens)) (value : σ) :
    Completable holds (repeatedly step value) := by
  intro tokens
  induction value, tokens using entered_induction entered progress with
  | stays value tokens enter =>
      rw [repeatedly_eq step progress, entered.stays value tokens enter]
      exact viable_ok tokens value nothing
  | moves found value tokens enter ih =>
      rw [repeatedly_entered entered progress value enter]
      exact viable_bind (rounds found value tokens enter) ih ⟨[], lexable_nil, nothing⟩ join

end Loops

theorem viable_return {holds : List TokenKind → Prop} {tokens : List TokenKind}
    {outcome : Except Stop (α × List TokenKind)} (viable : Viable holds tokens outcome) (f : α → β) :
    Viable holds tokens (outcome >>= fun (value, rest) => .ok (f value, rest)) := by
  have ended : ∀ value rest, outcome = .ok (value, rest) →
      Viable (· = []) rest (.ok (f value, rest)) :=
    fun value rest _ => viable_ok rest (f value) rfl
  refine viable_bind viable ended ⟨[], lexable_nil, rfl⟩ ?_
  rintro a _ known rfl
  rwa [List.append_nil]

def Closing (c : Char) (holds : List TokenKind → Prop) (tokens : List TokenKind) : Prop :=
  ∃ inside, holds inside ∧ tokens = inside ++ [.punctuation c]

theorem viable_closing (c : Char) (known : isPunctuation c = true) {holds : List TokenKind → Prop}
    {tokens : List TokenKind} {outcome : Except Stop (α × List TokenKind)}
    (viable : Viable holds tokens outcome) :
    Viable (Closing c holds) tokens (outcome >>= fun (value, rest) =>
      mark c rest >>= fun (_, rest) => .ok (value, rest)) := by
  have closed : ∀ value rest, outcome = .ok (value, rest) →
      Viable (· = [.punctuation c]) rest (mark c rest >>= fun (_, rest) => .ok (value, rest)) :=
    fun value rest _ => viable_return (mark_viable c known rest) fun _ => value
  refine viable_bind viable closed ⟨_, lexable_mark c known, rfl⟩ ?_
  rintro inside _ within rfl
  exact ⟨inside, within, rfl⟩

section Lists

variable {element : Rule α} {holds : List TokenKind → Prop} {separator : Char}
  {ends : List TokenKind → Bool}

def Listing (holds : List TokenKind → Prop) (separator : Char) (tokens : List TokenKind) : Prop :=
  ∃ pieces, (∀ piece ∈ pieces, holds piece) ∧ Separated separator pieces tokens

def Followers (holds : List TokenKind → Prop) (separator : Char) (tokens : List TokenKind) : Prop :=
  ∃ (pieces : List (List TokenKind)) (last : List TokenKind),
    (∀ piece ∈ pieces, holds piece) ∧ (last = [] ∨ last = [.punctuation separator]) ∧
      tokens = pieces.flatMap (.punctuation separator :: ·) ++ last

theorem listing_nil : Listing holds separator [] :=
  ⟨[], by simp, (separated_nil _ _).mpr rfl⟩

theorem followers_nil : Followers holds separator [] :=
  ⟨[], [], by simp, .inl rfl, rfl⟩

theorem followers_cons {piece tokens : List TokenKind} (first : holds piece)
    (later : Followers holds separator tokens) :
    Followers holds separator (.punctuation separator :: (piece ++ tokens)) := by
  obtain ⟨pieces, last, each, closes, rfl⟩ := later
  exact ⟨piece :: pieces, last, List.forall_mem_cons.mpr ⟨first, each⟩, closes, by simp⟩

theorem listing_cons {piece tokens : List TokenKind} (first : holds piece)
    (later : Followers holds separator tokens) : Listing holds separator (piece ++ tokens) := by
  obtain ⟨pieces, last, each, closes, rfl⟩ := later
  exact ⟨piece :: pieces, List.forall_mem_cons.mpr ⟨first, each⟩,
    (separated_cons _ _ _ _).mpr ⟨last, closes, rfl⟩⟩

theorem further_element_stopped (found : List α) (tokens : List TokenKind) (what : Expectation)
    (stopped : furtherElement element separator ends found tokens = .error ⟨.missing what, []⟩) :
    ∃ separated, tokens = .punctuation separator :: separated ∧
      element separated = .error ⟨.missing what, []⟩ := by
  unfold furtherElement at stopped
  split at stopped
  · cases stopped
  · rename_i further
    cases marked : mark separator tokens with
    | error stop =>
        rw [Reader.mark_eq] at marked
        split at marked
        · cases marked
        · rw [Reader.mark_eq, if_neg (by assumption)] at stopped
          cases stopped
          exact absurd rfl further
    | ok item =>
        rw [marked, ok_bind] at stopped
        refine ⟨item.2, mark_eq_ok marked, ?_⟩
        dsimp only at stopped
        split at stopped
        · cases stopped
        · cases read : element item.2 with
          | error stop =>
              rw [read] at stopped
              cases stopped
              rfl
          | ok next =>
              rw [read] at stopped
              cases stopped

theorem takes_reads (completable : Completable holds element) :
    Reads element fun taken value rest => element (taken ++ rest) = .ok (value, rest) where
  accepts _ _ _ read := read
  takes tokens value rest read := by
    obtain ⟨taken, rfl, _⟩ := (completable tokens).takes value rest read
    exact ⟨taken, rfl, read⟩

theorem holds_of_read (completable : Completable holds element) {taken rest : List TokenKind}
    {value : α} (read : element (taken ++ rest) = .ok (value, rest)) : holds taken := by
  obtain ⟨front, same, known⟩ := (completable _).takes value rest read
  rwa [List.append_cancel_right same]

theorem followers_viable (shortens : Shortens element) (completable : Completable holds element)
    (apart : ∀ tokens, ends (.punctuation separator :: tokens) = false) (found : List α) :
    Completable (Followers holds separator)
      (repeatedly (furtherElement element separator ends) found) := by
  have progress := further_element_progress element separator ends shortens
  intro tokens
  refine ⟨fun values rest read => ?_, fun what stopped => ?_⟩
  · obtain ⟨taken, _, rfl, _, further⟩ :=
      further_takes (takes_reads completable) shortens apart _ _ _ _ read
    obtain ⟨pieces, last, _, closes, rfl, each⟩ := pieces_of_further further
      fun tokens _ _ read => show holds tokens from holds_of_read completable read
    refine ⟨_, rfl, pieces.map Prod.fst, last, fun piece inside => ?_, closes, rfl⟩
    obtain ⟨pair, member, rfl⟩ := List.mem_map.mp inside
    exact each pair member
  · refine repeatedly_stop_induction progress (motive := fun _ tokens =>
      ∃ more, Lexable more ∧ Followers holds separator (tokens ++ more)) ?here ?further found tokens
      stopped
    case here =>
      intro found tokens stopped
      obtain ⟨separated, rfl, read⟩ := further_element_stopped found tokens what stopped
      obtain ⟨more, lexable, known⟩ := (completable separated).completes what read
      have only : Followers holds separator (.punctuation separator :: (separated ++ more ++ [])) :=
        followers_cons known followers_nil
      exact ⟨more, lexable, by simpa using only⟩
    case further =>
      rintro found tokens next behind took again ⟨more, lexable, later⟩
      obtain ⟨separated, rfl, ⟨ended, rfl, rfl⟩ | ⟨_, value, rfl, read⟩⟩ :=
        further_element_some found next tokens behind took
      · -- A separator that ends the list ends the loop, which does not stop then.
        have ending : noMore ends behind = true := by simp [noMore, ended]
        rw [repeatedly_eq _ progress, further_element_no_more _ _ ending] at again
        cases again
      · obtain ⟨piece, rfl, known⟩ := (completable separated).takes value behind read
        have whole := followers_cons known later
        exact ⟨more, lexable, by simpa using whole⟩

theorem elements_viable (shortens : Shortens element) (completable : Completable holds element)
    (apart : ∀ tokens, ends (.punctuation separator :: tokens) = false) :
    Completable (Listing holds separator) (elements element separator ends) := by
  intro tokens
  unfold elements
  split
  · exact viable_ok tokens [] listing_nil
  · have looped := fun first rest (_ : element tokens = .ok (first, rest)) =>
      viable_return (followers_viable shortens completable apart [first] rest) List.reverse
    exact viable_bind (completable tokens) looped ⟨[], lexable_nil, followers_nil⟩
      fun _ _ first later => listing_cons first later

def Bracketed (opening closing separator : Char) (holds : List TokenKind → Prop)
    (tokens : List TokenKind) : Prop :=
  ∃ inside, Listing holds separator inside ∧
    tokens = .punctuation opening :: (inside ++ [.punctuation closing])

theorem enclosed_viable (opening closing : Char) (opens : isPunctuation opening = true)
    (closes : isPunctuation closing = true) (different : separator ≠ closing)
    (shortens : Shortens element) (completable : Completable holds element) :
    Completable (Bracketed opening closing separator holds)
      (enclosed opening closing separator element) := by
  intro tokens
  have apart : ∀ tokens, opensWith closing (.punctuation separator :: tokens) = false := by
    simp [opensWith, different]
  have listed := fun (_ : Unit) rest (_ : mark opening tokens = .ok ((), rest)) =>
    viable_closing closing closes (elements_viable shortens completable apart rest)
  refine viable_bind (mark_viable opening opens tokens) listed ?_ ?_
  · exact ⟨_, lexable_mark closing closes, [], listing_nil, rfl⟩
  · rintro _ _ rfl ⟨inside, within, rfl⟩
    exact ⟨inside, within, rfl⟩

end Lists

end ScriptReader.Rule
