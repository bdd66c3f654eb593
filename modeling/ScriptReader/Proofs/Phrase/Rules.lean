import ScriptReader.Proofs.Phrase.Operands

set_option autoImplicit false

namespace ScriptReader.Rule

open Phrase

section Operations

variable {operand : Rule Node} {rise : Nat → Node → Rule Node} {operandPhrase : Phrase Node}
  {risePhrase : Nat → Node → Phrase Node}

theorem operator_above_some (floor : Nat) (tokens rest : List TokenKind) (op : Operator)
    (found : operatorAbove floor tokens = some (op, rest)) :
    tokens = .operator op.symbol :: rest ∧ floor < op.precedence := by
  unfold operatorAbove at found
  split at found
  · split at found
    · rename_i known
      split at found
      · rename_i above
        cases found
        exact ⟨by rw [(Operator.of_symbol_eq_some _ _).mp known], above⟩
      · cases found
    · cases found
  · cases found

theorem operator_above_here (floor : Nat) (tokens : List TokenKind) (op : Operator)
    (above : floor < op.precedence) :
    operatorAbove floor (.operator op.symbol :: tokens) = some (op, tokens) := by
  simp [operatorAbove, above]

theorem further_operation_some (floor : Nat) (left next : Node) (tokens behind : List TokenKind)
    (took : furtherOperation operand rise floor left tokens = .ok (some (next, behind))) :
    ∃ op later first middle right, operatorAbove floor tokens = some (op, later) ∧
      operand later = .ok (first, middle) ∧ rise op.rightFloor first middle = .ok (right, behind) ∧
      next = .operation op left right := by
  unfold furtherOperation at took
  split at took
  · cases took
  · rename_i op later found
    obtain ⟨⟨first, middle⟩, read, took⟩ := bind_ok took
    obtain ⟨⟨right, last⟩, risen, took⟩ := bind_ok took
    cases took
    exact ⟨op, later, first, middle, right, found, read, risen, rfl⟩

theorem further_operation_none (floor : Nat) (left : Node) (tokens : List TokenKind)
    (ended : furtherOperation operand rise floor left tokens = .ok none) :
    operatorAbove floor tokens = none := by
  unfold furtherOperation at ended
  split at ended
  · assumption
  · obtain ⟨⟨_, _⟩, _, ended⟩ := bind_ok ended
    obtain ⟨⟨_, _⟩, _, ended⟩ := bind_ok ended
    cases ended

theorem climbing_reads (reads : Reads operand operandPhrase)
    (rises : ∀ floor left, Reads (rise floor left) (risePhrase floor left))
    (shortens : Shortens operand) (keeps : ∀ floor left, Keeps (rise floor left)) (floor : Nat)
    (left : Node) :
    Reads (climbOver operand rise floor left) (Climbing operandPhrase risePhrase floor left) := by
  have progress := further_operation_progress operand rise floor shortens keeps
  constructor
  · intro taken node rest climbing
    induction climbing with
    | done below =>
        rw [List.nil_append, climbOver, repeatedly_eq _ progress, furtherOperation, below]
    | further op above read risen later ih =>
        have first := reads.accepts _ _ _ read
        have second := (rises _ _).accepts _ _ _ risen
        rw [climbOver, repeatedly_eq _ progress, furtherOperation, List.cons_append,
          operator_above_here floor _ op above]
        dsimp only
        rw [List.append_assoc, List.append_assoc, first, ok_bind]
        dsimp only
        rw [second]
        exact ih
  · intro tokens node rest read
    refine repeatedly_induction _ progress (motive := fun left tokens =>
      ∃ taken, tokens = taken ++ rest ∧ Climbing operandPhrase risePhrase floor left taken node rest)
      _ _ _ _ read ?done ?further
    case done =>
      exact fun ended => ⟨[], rfl, .done (further_operation_none _ _ _ ended)⟩
    case further =>
      rintro left tokens next behind took ⟨c, rfl, climbing⟩
      obtain ⟨op, later, first, middle, right, found, read, risen, rfl⟩ :=
        further_operation_some _ _ _ _ _ took
      obtain ⟨rfl, above⟩ := operator_above_some _ _ _ _ found
      obtain ⟨b, rfl, second⟩ := (rises _ _).takes _ _ _ risen
      obtain ⟨a, rfl, operand⟩ := reads.takes _ _ _ read
      exact ⟨.operator op.symbol :: (a ++ (b ++ c)), by simp,
        .further op above operand second climbing⟩

end Operations

theorem too_deep_reads (looked : Bool) : Reads (tooDeep looked) Nothing where
  accepts _ _ _ read := read.elim
  takes _ _ _ read := by cases read

theorem level_reads (level : Nat) :
    (∀ looked, Reads (expression level looked) (Expression level)) ∧
      ∀ floor left, Reads (climb level floor left) (Climb level floor left) := by
  induction level with
  | zero =>
      refine ⟨fun looked => ?_, fun floor left => ?_⟩
      · have same : expression 0 looked = tooDeep looked := by
          funext tokens
          rw [expression]
        rw [same, expression_zero]
        exact too_deep_reads looked
      · have same : climb 0 floor left = climbOver (tooDeep false) (fun _ _ => tooDeep true) floor left := by
          funext tokens
          rw [climb]
        rw [same, climb_zero]
        exact climbing_reads (too_deep_reads false) (fun _ _ => too_deep_reads true)
          (too_deep_shortens false) (fun _ _ => keeps_of_shortens (too_deep_shortens true)) floor left
  | succ level ih =>
      have operands := operand_reads ih.1 (expression_shortens level)
      have climbs : ∀ floor left, Reads (climb (level + 1) floor left) (Climb (level + 1) floor left) := by
        intro floor left
        rw [Rule.climb_succ, Phrase.climb_succ]
        exact climbing_reads operands ih.2 (operand_shortens (level + 1) false) (climb_keeps level)
          floor left
      refine ⟨fun looked => ⟨?_, ?_⟩, climbs⟩
      · intro taken node rest read
        obtain ⟨a, b, first, rfl, opened, climbed⟩ := (expression_succ _ _ _ _).mp read
        rw [expression_eq, List.append_assoc, operand, operands.accepts _ _ _ opened]
        exact (climbs 0 first).accepts _ _ _ climbed
      · intro tokens node rest read
        rw [expression_eq] at read
        obtain ⟨⟨first, behind⟩, opened, climbed⟩ := bind_ok read
        obtain ⟨b, rfl, second⟩ := (climbs 0 first).takes _ _ _ climbed
        obtain ⟨a, rfl, begun⟩ := operands.takes _ _ _ opened
        exact ⟨a ++ b, by simp, (expression_succ _ _ _ _).mpr ⟨a, b, first, rfl, begun, second⟩⟩

theorem expression_reads (level : Nat) (looked : Bool) :
    Reads (expression level looked) (Expression level) :=
  (level_reads level).1 looked

theorem program_reads (level : Nat) :
    Reads (program level) (Listed (Expression level) ';' List.isEmpty) :=
  elements_reads (expression_reads level true) (expression_shortens level true) fun _ => rfl

end ScriptReader.Rule
