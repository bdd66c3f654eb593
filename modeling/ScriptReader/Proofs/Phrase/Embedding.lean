import ScriptReader.Proofs.Phrase.Context
import ScriptReader.Proofs.Phrase.Program

set_option autoImplicit false

namespace ScriptReader.Phrase

open Rule Greedy

variable {level : Nat} {tokens rest : List TokenKind} {node : Node} {dangling : Bool}

theorem expression_of_operand (operand : Operand (Expression level) tokens node rest)
    (below : operatorAbove 0 rest = none) : Expression (level + 1) tokens node rest := by
  refine (expression_succ _ _ _ _).mpr ⟨tokens, [], node, (List.append_nil tokens).symm, operand, ?_⟩
  rw [Phrase.climb_succ]
  exact .done below

theorem expression_of_primary (primary : Primary (Expression level) tokens node rest)
    (stops : Stops dangling rest) : Expression (level + 1) tokens node rest :=
  expression_of_operand (alone_accepted level tokens rest node primary stops.call) stops.operator

theorem grouped (read : Expression level tokens node []) :
    Expression (level + 1) (.punctuation '(' :: (tokens ++ [.punctuation ')'])) node [] := by
  have inside := expression_in_context read (stops_mark true ')' [] (by decide))
  exact expression_of_primary (.group inside) (stops_nil true)

theorem called (name : String) (pieces : List (List TokenKind × Node)) (inside : List TokenKind)
    (each : ∀ piece ∈ pieces, Expression level piece.1 piece.2 [])
    (apart : Separated ',' (pieces.map Prod.fst) inside) :
    Expression (level + 1)
      (.identifier name :: .punctuation '(' :: (inside ++ [.punctuation ')']))
      (.call (.identifier name) (pieces.map Prod.snd)) [] := by
  have listed := enclosed_accepted '(' ')' ',' level pieces inside [] (by decide) (by decide) (by decide)
    (fun piece member => sentence_loosen (expression_sentence (each piece member)).1)
    (fun piece member behind stops => expression_in_context (each piece member) stops) apart
  have operand := Operand.mk (.identifier name _) (.further listed (.done rfl))
  have expression := expression_of_operand operand rfl
  simpa using expression

theorem defined (names : List String) (inside : List TokenKind)
    (apart : Separated ',' (names.map fun name => [.identifier name]) inside)
    (read : Expression level tokens node []) :
    Expression (level + 1)
      (.keyword .defWord :: .punctuation '(' :: (inside ++ .punctuation ')' :: tokens))
      (.function names node) [] := by
  have listed := parameters_accepted names inside (tokens ++ []) apart
  have function := expression_of_primary (Primary.function listed read) (stops_nil true)
  simpa using function

-- An operand keeps a level more for itself than what is behind an assignment needs.
theorem assigned (op : Operator) (assigns : op.isAssignment = true) (name : String)
    (read : Expression level tokens node []) :
    Expression (level + 1) (.identifier name :: .operator op.symbol :: tokens)
      (.operation op (.identifier name) node) [] := by
  obtain ⟨level, rfl⟩ := level_of_expression read
  obtain ⟨a, b, first, rfl, opened, climbed⟩ := (expression_succ _ _ _ _).mp read
  have above : 0 < op.precedence := op.precedence_pos
  have floor := op.right_floor_of_assignment assigns
  have target : Operand (Expression (level + 1)) [.identifier name] (.identifier name)
      (.operator op.symbol :: (a ++ b) ++ []) :=
    alone_accepted (level + 1) _ _ _ (.identifier name _) rfl
  refine (expression_succ _ _ _ _).mpr ⟨_, _, _, rfl, target, ?_⟩
  rw [Phrase.climb_succ]
  have further : Climbing (Operand (Expression (level + 1))) (Climb (level + 1)) 0
      (.identifier name) (.operator op.symbol :: (a ++ (b ++ []))) (.operation op (.identifier name) node)
      [] :=
    .further op above (operand_next_level opened) (floor ▸ climbed) (.done rfl)
  simpa using further

theorem empty_block (level : Nat) (stops : Stops dangling rest) :
    Expression (level + 1) [.punctuation '\x7b', .punctuation '\x7d'] (.block []) rest :=
  expression_of_primary (.block (.mk (.none rfl))) stops

theorem conditioned (read : Expression level tokens node []) :
    Expression (level + 1)
      (.keyword .ifWord :: (tokens ++ [.punctuation '\x7b', .punctuation '\x7d']))
      (.ifThen node (.block [])) [] := by
  obtain ⟨level, rfl⟩ := level_of_expression read
  have condition := expression_in_context read (stops_mark true '\x7b' [.punctuation '\x7d'] (by decide))
  exact expression_of_primary (.ifThen condition rfl (empty_block level (stops_nil true)) rfl)
    (stops_nil true)

theorem otherwise (name : String) (read : Expression level tokens node []) :
    Expression (level + 1)
      (.keyword .ifWord :: .identifier name :: .punctuation '\x7b' :: .punctuation '\x7d' ::
        .keyword .elseWord :: tokens)
      (.ifElse (.identifier name) (.block []) node) [] := by
  obtain ⟨level, rfl⟩ := level_of_expression read
  have condition : Expression (level + 1) [.identifier name] (.identifier name)
      (.punctuation '\x7b' :: .punctuation '\x7d' :: .keyword .elseWord :: (tokens ++ [])) :=
    expression_of_primary (.identifier name _) (stops_mark true '\x7b' _ (by decide))
  have branch := empty_block level (stops_else (tokens ++ []))
  exact expression_of_primary (Primary.ifElse condition rfl branch read) (stops_nil true)

theorem program_of_expressions (pieces : List (List TokenKind × Node))
    (each : ∀ piece ∈ pieces, Expression level piece.1 piece.2 [])
    (apart : Separated ';' (pieces.map Prod.fst) tokens) :
    program level tokens = .ok (pieces.map Prod.snd, []) := by
  apply program_of_pieces level pieces tokens apart
  · intro piece member behind next
    rcases next with next | rfl
    · exact expression_in_context (each piece member) (stops_opened true ';' behind (by decide) next)
    · exact each piece member
  · exact fun piece member => expression_filled (each piece member)

theorem program_of_expression (read : Expression level tokens node []) :
    program level tokens = .ok ([node], []) :=
  program_of_expressions [(tokens, node)] (by simpa using read) (.inl (by simp))

theorem expression_of_program (read : program level tokens = .ok ([node], []))
    (unmarked : tokens.getLast? ≠ some (.punctuation ';')) : Expression level tokens node [] := by
  obtain ⟨taken, same, listed⟩ := (program_reads level).takes _ _ _ read
  rw [List.append_nil] at same
  subst same
  cases listed with
  | some unended first later =>
      cases later with
      | done ended => simpa using first
      | trailing ended => exact absurd (by simp) unmarked

end ScriptReader.Phrase
