import ScriptReader.Proofs.Program.Effort
import ScriptReader.Proofs.Token.Advance

set_option autoImplicit false

namespace ScriptReader

open Descent

def TokenStream.EndsOrShows (shown : TokenKind → Prop) (stream : TokenStream) : Prop :=
  Exhausted stream ∨ ∃ token, stream.peeked = some token ∧ shown token.kind

def TokenKind.GoesOn (kind : TokenKind) : Prop :=
  kind = .punctuation '(' ∨ ∃ op : Operator, kind = .operator op.symbol

-- What has no mark of its own at its end.
def Node.OpenEnded : Node → Prop
  | .function _ _ | .ifThen _ _ | .ifElse _ _ _ => True
  | _ => False

namespace Descent

variable {visit after : Visit} {stream : TokenStream} {kept : Option TokenKind → Prop} {node : Node}
  {limit fuel : Nat} {kind : TokenKind}

theorem ends_or_shows {shown : TokenKind → Prop} (closed : Closed kept stream)
    (holds : ∀ kind, kept (some kind) → shown kind) : stream.EndsOrShows shown := by
  obtain ⟨found, looked, known⟩ := closed
  rw [Shown, Reader.ahead] at looked
  obtain ⟨cursor, _ | held, failed⟩ := stream
  · rw [TokenStream.peek] at looked
    rcases read : cursor.token with ⟨error | _ | token, behind⟩ <;> rw [read] at looked <;> cases looked
    exact .inl ⟨rfl, Cursor.token_ended read⟩
  · cases looked
    exact .inr ⟨held, rfl, holds held.kind known⟩

theorem not_call_of_uncalled (uncalled : Uncalled (some kind)) : kind ≠ .punctuation '(' := by
  rintro rfl
  rw [Uncalled, Parts.opensCall, if_pos rfl] at uncalled
  cases uncalled

theorem not_going_of_final (final : Final (some kind)) : ¬ kind.GoesOn := by
  obtain ⟨uncalled, leaves⟩ := final
  rintro (call | ⟨op, rfl⟩)
  · exact not_call_of_uncalled uncalled call
  · simp only [Parts.operatorAbove, Operator.of_symbol_symbol, Option.filter_eq_none_iff] at leaves
    exact leaves op rfl (decide_eq_true op.precedence_pos)

theorem ahead_of_upcoming {rest : List TokenKind} (coming : stream.upcoming = kind :: rest) :
    ∃ behind, Reader.ahead stream = (.ok (some kind), behind) := by
  rcases Reader.ahead_reached (TokenStream.reached_start stream) with ⟨read, _⟩ | ⟨ended, _⟩
  · rw [coming] at read
    exact ⟨_, read⟩
  · rw [coming] at ended
    cases ended

theorem open_operand_closed {again : Bool} {word : Keyword} {rest : List TokenKind}
    (coming : visit.stream.upcoming = .keyword word :: rest) (opens : word = .defWord ∨ word = .ifWord)
    (read : operand limit (expression again limit fuel) (fuel + 1) visit = some (.ok node, after)) :
    node.OpenEnded ∧ Closed Final after.stream := by
  obtain ⟨outer, read, same⟩ := routine_ok read
  obtain ⟨last, read, level⟩ := nested_ok read
  obtain ⟨callee, middle, read, called⟩ := bind_ok read
  obtain ⟨found, _, looked, read⟩ := bind_ok read
  obtain ⟨behind, shown⟩ := ahead_of_upcoming coming
  have seen := ahead_ok looked
  obtain rfl : some (.keyword word) = found := by
    injection (shown.symm.trans seen) with value _
    exact Except.ok.inj value
  have inners : ∀ visit node after, expression again limit fuel visit = some (.ok node, after) →
      Closed Final after.stream := fun _ _ _ => expression_closed
  have ended : callee.OpenEnded ∧ Closed Final middle.stream := by
    rcases opens with rfl | rfl
    · obtain ⟨⟨_, _, rfl⟩, closed⟩ := function_closed inners read
      exact ⟨trivial, closed⟩
    · rcases conditional_closed inners read with ⟨⟨_, _, rfl⟩, closed⟩ | ⟨⟨_, _, _, rfl⟩, closed⟩
      · exact ⟨trivial, closed_weaken closed fun _ both => both.1⟩
      · exact ⟨trivial, closed⟩
  rw [calls_of_closed (closed_weaken ended.2 fun _ both => both.1)] at called
  cases called
  rw [same, level]
  exact ended

theorem expression_ends {again : Bool} (few : visit.remaining < fuel) :
    ∃ result after, expression again limit fuel visit = some (result, after) ∧
      ∀ node, result = .ok node → after.stream.EndsOrShows fun kind => ¬ kind.GoesOn := by
  obtain ⟨_, ran, _⟩ := accords_told ((level_meets again limit fuel visit.depth).1 visit rfl few)
  refine ⟨_, _, ran, fun node read => ?_⟩
  rw [read] at ran
  exact ends_or_shows (expression_closed ran) fun _ => not_going_of_final

theorem operand_ends {again : Bool} (few : visit.remaining < fuel + 1) :
    ∃ result after, operand limit (expression again limit fuel) (fuel + 1) visit = some (result, after) ∧
      ∀ node, result = .ok node →
        after.stream.EndsOrShows (fun kind => kind ≠ .punctuation '(') ∧
          calls (expression again limit fuel) (fuel + 1) node after = some (.ok node, after) := by
  have inners := (level_meets again limit fuel (visit.depth + 1)).1
  obtain ⟨_, ran, _⟩ := accords_told (operand_meets (Nat.le_refl _) inners visit rfl few)
  refine ⟨_, _, ran, fun node read => ?_⟩
  rw [read] at ran
  have closed := operand_closed ran
  exact ⟨ends_or_shows closed fun _ => not_call_of_uncalled, calls_of_closed closed⟩

theorem conditional_ends {again : Bool} (few : visit.remaining < fuel + 1) :
    ∃ result after, conditional (expression again limit fuel) visit = some (result, after) ∧
      ∀ condition branch, result = .ok (.ifThen condition branch) →
        after.stream.EndsOrShows fun kind => kind ≠ .keyword .elseWord := by
  have inners := (level_meets again limit fuel visit.depth).1
  obtain ⟨_, ran, _⟩ := accords_told (conditional_meets inners visit rfl few)
  refine ⟨_, _, ran, fun condition branch read => ?_⟩
  rw [read] at ran
  rcases conditional_closed (fun _ _ _ => expression_closed) ran with
    ⟨_, closed⟩ | ⟨⟨_, _, _, other⟩, _⟩
  · exact ends_or_shows closed fun _ both same => both.2 (congrArg some same)
  · cases other

theorem open_expression_ended {again : Bool} {word : Keyword} {rest : List TokenKind}
    (coming : visit.stream.upcoming = .keyword word :: rest) (opens : word = .defWord ∨ word = .ifWord)
    (read : expression again limit (fuel + 1) visit = some (.ok node, after)) : node.OpenEnded := by
  rw [expression_eq] at read
  obtain ⟨last, read, _⟩ := routine_ok read
  obtain ⟨left, middle, opened, read⟩ := bind_ok read
  have stands : (visit.told [.enters .expression]).stream.upcoming = .keyword word :: rest := coming
  obtain ⟨ended, closed⟩ := open_operand_closed stands opens opened
  rw [bind_of_ok (recalled_of_closed (operand_closed opened)), climb_of_closed closed] at read
  cases read
  exact ended

-- The two parsers are one function: of the visit, the answer and all that is told on the way.
theorem recalls_nothing (limit fuel : Nat) :
    expression false limit fuel = expression true limit fuel ∧
      climb false limit fuel = climb true limit fuel := by
  induction fuel with
  | zero => exact ⟨rfl, rfl⟩
  | succ fuel ih =>
      obtain ⟨expressions, climbs⟩ := ih
      have same : climb false limit (fuel + 1) = climb true limit (fuel + 1) := by
        funext floor left
        simp only [climb, expressions, climbs]
      refine ⟨?_, same⟩
      rw [expression_eq, expression_eq, expressions, same]
      congr 1
      funext visit
      rcases read : operand limit (expression true limit fuel) (fuel + 1) visit with
        _ | ⟨error | left, after⟩
      · simp only [bind, read]
      · simp only [bind, read]
      · have closed := operand_closed read
        rw [bind_of_ok read, bind_of_ok read, bind_of_ok (recalled_of_closed closed),
          bind_of_ok (recalled_of_closed closed)]

end Descent

theorem nothing_goes_on (limit fuel : Nat) (visit : Visit) (enough : visit.remaining ≤ fuel) :
    let inner := expression true limit fuel
    (∃ result after, expression true limit (fuel + 1) visit = some (result, after) ∧
      ∀ node, result = .ok node → after.stream.EndsOrShows fun kind => ¬ kind.GoesOn) ∧
    (∃ result after, operand limit inner (fuel + 1) visit = some (result, after) ∧
      ∀ node, result = .ok node →
        after.stream.EndsOrShows (fun kind => kind ≠ .punctuation '(') ∧
          calls inner (fuel + 1) node after = some (.ok node, after)) ∧
    (∃ result after, conditional inner visit = some (result, after) ∧
      ∀ condition branch, result = .ok (.ifThen condition branch) →
        after.stream.EndsOrShows fun kind => kind ≠ .keyword .elseWord) ∧
    (∀ word rest, visit.stream.upcoming = .keyword word :: rest → word = .defWord ∨ word = .ifWord →
      (∀ node after, operand limit inner (fuel + 1) visit = some (.ok node, after) →
        node.OpenEnded ∧ (after.stream.EndsOrShows fun kind => ¬ kind.GoesOn) ∧
          ∀ more later, later.stream = after.stream →
            calls inner (more + 1) node later = some (.ok node, later) ∧
              ∀ floor, climb true limit (more + 1) floor node later = some (.ok node, later)) ∧
      ∀ node after, expression true limit (fuel + 1) visit = some (.ok node, after) → node.OpenEnded) ∧
    Descent.program false = Descent.program true ∧
      ∀ again source more, (yielded source).length < more →
        (Descent.program again limit more ⟨.ofString source, 0, []⟩).map Prod.fst =
          some (parseWithin limit source) := by
  have few : visit.remaining < fuel + 1 := Nat.lt_succ_of_le enough
  refine ⟨expression_ends few, operand_ends few, conditional_ends few,
    fun word rest coming opens => ?_, ?_, fun again source more shorter => ?_⟩
  · refine ⟨fun node after read => ?_, fun node after read => open_expression_ended coming opens read⟩
    obtain ⟨ended, closed⟩ := open_operand_closed coming opens read
    refine ⟨ended, ends_or_shows closed fun _ => not_going_of_final, fun more later same => ?_⟩
    rw [← same] at closed
    have uncalled := closed_weaken closed fun _ both => both.1
    exact ⟨calls_of_closed uncalled, fun floor => climb_of_closed closed⟩
  · funext limit fuel
    simp only [Descent.program, (recalls_nothing limit fuel).1]
  · obtain ⟨_, ran, _⟩ := program_told again limit shorter
    rw [ran]
    rfl

theorem function_takes_sum :
    let visit : Visit := ⟨.ofString "def() 1 + 2", 0, []⟩
    visit.remaining ≤ 6 ∧ visit.stream.upcoming.head? = some (.keyword .defWord) ∧
      (∃ node after, operand 3 (expression true 3 6) 7 visit = some (.ok node, after) ∧ node.OpenEnded ∧
        ∀ floor, climb true 3 7 floor node after = some (.ok node, after)) ∧
      (Descent.program false 3 7 visit).map Prod.fst =
        some (.ok (.block [.function [] (.operation .add (.number "1") (.number "2"))])) := by
  intro visit
  have upcoming : visit.stream.upcoming = [.keyword .defWord, .punctuation '(', .punctuation ')',
      .number "1", .operator "+", .number "2"] := by
    with_unfolding_all rfl
  have enough : visit.remaining ≤ 6 := by
    rw [Visit.remaining, upcoming]
    exact Nat.le_refl 6
  have few : (yielded "def() 1 + 2").length < 7 := by
    rw [← List.length_map Token.kind, ← upcoming_yielded]
    exact Nat.lt_succ_of_le enough
  have parsed : parseWithin 3 "def() 1 + 2" =
      .ok (.block [.function [] (.operation .add (.number "1") (.number "2"))]) := by
    with_unfolding_all rfl
  have succeeds : (operand 3 (expression true 3 6) 7 visit).any fun answer => answer.1.isOk := by
    decide +kernel
  obtain ⟨_, ⟨result, after, ran, _⟩, _, opens, _, parses⟩ := nothing_goes_on 3 6 visit enough
  rw [ran] at succeeds
  cases result with
  | error error => cases succeeds
  | ok node =>
      obtain ⟨ended, _, still⟩ := (opens .defWord _ upcoming (.inl rfl)).1 node after ran
      refine ⟨enough, ?_, ⟨node, after, ran, ended, (still 6 after rfl).2⟩, ?_⟩
      · rw [upcoming, List.head?_cons]
      · rw [parses false "def() 1 + 2" 7 few, parsed]

end ScriptReader
