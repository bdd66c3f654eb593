import ScriptReader.Grammar.Progress

/-!
Every rule takes a token before it asks for a level more than it was given, so with a level left for
each token no rule runs out of levels.
-/

set_option autoImplicit false

namespace ScriptReader.Rule

variable {α β : Type}

def Deep (outcome : Except Stop α) : Prop :=
  ∃ looked unread, outcome = .error ⟨.tooDeep looked, unread⟩

def Shallow (bound : Nat) (rule : Rule α) : Prop := ∀ tokens, tokens.length < bound → ¬ Deep (rule tokens)

theorem ok_not_deep (item : α) : ¬ Deep (.ok item : Except Stop α) := by
  rintro ⟨looked, unread, same⟩
  cases same

theorem missing_not_deep (what : Expectation) (tokens : List TokenKind) :
    ¬ Deep (missing what tokens : Except Stop (α × List TokenKind)) := by
  rintro ⟨looked, unread, same⟩
  cases same

theorem bind_not_deep {action : Except Stop α} {next : α → Except Stop β} (first : ¬ Deep action)
    (later : ∀ item, action = .ok item → ¬ Deep (next item)) : ¬ Deep (action >>= next) := by
  cases action with
  | error stop =>
      rintro ⟨looked, unread, same⟩
      cases same
      exact first ⟨looked, unread, rfl⟩
  | ok item => exact later item rfl

theorem mark_shallow (bound : Nat) (c : Char) : Shallow bound (mark c) := by
  intro tokens _
  unfold mark
  split
  · split
    · exact ok_not_deep _
    · exact missing_not_deep _ _
  · exact missing_not_deep _ _

theorem repeatedly_shallow {step : Step α} {bound : Nat} (progress : step.Progress)
    (steps : ∀ value tokens, tokens.length < bound → ¬ Deep (step value tokens)) (value : α) :
    Shallow bound (repeatedly step value) := by
  intro tokens fewer
  induction value, tokens using step_induction step progress with
  | each value tokens ih =>
      rw [repeatedly_eq step progress]
      split
      · rename_i stop stopped
        rintro ⟨looked, unread, same⟩
        cases same
        exact steps value tokens fewer ⟨looked, unread, stopped⟩
      · exact ok_not_deep _
      · rename_i next rest took
        exact ih next rest took (Nat.lt_trans (progress.2 value tokens next rest took) fewer)

section Lists

variable {element : Rule α} {bound : Nat}

theorem elements_shallow (separator : Char) (ends : List TokenKind → Bool)
    (shortens : Shortens element) (shallow : Shallow bound element) :
    Shallow bound (elements element separator ends) := by
  have steps : ∀ found tokens, tokens.length < bound →
      ¬ Deep (furtherElement element separator ends found tokens) := by
    intro found tokens fewer
    unfold furtherElement
    split
    · exact ok_not_deep _
    · refine bind_not_deep (mark_shallow bound separator tokens fewer) fun (_, behind) marked => ?_
      have shorter := mark_shortens separator tokens _ behind marked
      dsimp only
      split
      · exact ok_not_deep _
      · refine bind_not_deep (shallow behind (Nat.lt_trans shorter fewer)) fun _ _ => ok_not_deep _
  intro tokens fewer
  unfold elements
  split
  · exact ok_not_deep _
  · refine bind_not_deep (shallow tokens fewer) fun (first, behind) read => ?_
    have shorter := shortens tokens first behind read
    have progress := further_element_progress element separator ends shortens
    refine bind_not_deep ?_ fun _ _ => ok_not_deep _
    exact repeatedly_shallow progress steps [first] behind (Nat.lt_trans shorter fewer)

theorem enclosed_shallow (opening closing separator : Char) (shortens : Shortens element)
    (shallow : Shallow bound element) :
    Shallow (bound + 1) (enclosed opening closing separator element) := by
  intro tokens fewer
  refine bind_not_deep (mark_shallow _ opening tokens fewer) fun (_, inside) opened => ?_
  have shorter := mark_shortens opening tokens _ inside opened
  refine bind_not_deep ?_ fun (_, behind) listed => ?_
  · exact elements_shallow separator _ shortens shallow inside (by omega)
  · have kept := elements_keeps element separator _ shortens inside _ behind listed
    exact bind_not_deep (mark_shallow bound closing behind (by omega)) fun _ _ => ok_not_deep _

end Lists

theorem parameter_shallow (bound : Nat) : Shallow bound parameter := by
  intro tokens _
  unfold parameter
  split
  · exact ok_not_deep _
  · exact missing_not_deep _ _

section Operands

variable {inner : Inner} {bound : Nat}

theorem group_shallow (shallow : ∀ looked, Shallow bound (inner looked))
    (shortens : ∀ looked, Shortens (inner looked)) : Shallow (bound + 1) (group inner) := by
  intro tokens fewer
  refine bind_not_deep (mark_shallow _ '(' tokens fewer) fun (_, inside) opened => ?_
  have shorter := mark_shortens '(' tokens _ inside opened
  refine bind_not_deep (shallow false inside (by omega)) fun (_, behind) read => ?_
  have kept := shortens false inside _ behind read
  exact bind_not_deep (mark_shallow bound ')' behind (by omega)) fun _ _ => ok_not_deep _

theorem block_shallow (shallow : ∀ looked, Shallow bound (inner looked))
    (shortens : ∀ looked, Shortens (inner looked)) : Shallow (bound + 1) (block inner) :=
  fun tokens fewer => bind_not_deep
    (enclosed_shallow _ _ _ (shortens true) (shallow true) tokens fewer) fun _ _ => ok_not_deep _

theorem alternative_shallow (shallow : ∀ looked, Shallow bound (inner looked)) :
    Shallow bound (alternative inner) := by
  intro tokens fewer
  unfold alternative
  split
  · rw [List.length_cons] at fewer
    exact bind_not_deep (shallow false _ (by omega)) fun _ _ => ok_not_deep _
  · exact ok_not_deep _

theorem conditional_shallow (shallow : ∀ looked, Shallow bound (inner looked))
    (shortens : ∀ looked, Shortens (inner looked)) : Shallow bound (conditional inner) := by
  intro tokens fewer
  refine bind_not_deep (shallow false tokens fewer) fun (_, behind) condition => ?_
  have first := shortens false tokens _ behind condition
  dsimp only
  split
  · refine bind_not_deep (shallow true behind (by omega)) fun (_, later) branch => ?_
    have second := shortens true behind _ later branch
    refine bind_not_deep (alternative_shallow shallow later (by omega)) fun (other, _) _ => ?_
    cases other <;> exact ok_not_deep _
  · exact missing_not_deep _ _

theorem function_shallow (shallow : ∀ looked, Shallow bound (inner looked)) :
    Shallow bound (function inner) := by
  intro tokens fewer
  have parameters := enclosed_shallow '(' ')' ',' parameter_shortens (parameter_shallow bound)
  refine bind_not_deep (parameters tokens (by omega)) fun (_, behind) listed => ?_
  have shorter := enclosed_shortens _ _ _ parameter parameter_shortens tokens _ behind listed
  exact bind_not_deep (shallow false behind (by omega)) fun _ _ => ok_not_deep _

theorem primary_shallow (shallow : ∀ looked, Shallow bound (inner looked))
    (shortens : ∀ looked, Shortens (inner looked)) : Shallow (bound + 1) (primary inner) := by
  intro tokens fewer
  cases tokens with
  | nil => exact missing_not_deep _ _
  | cons kind tokens =>
      have behind : tokens.length < bound := Nat.lt_of_succ_lt_succ fewer
      cases kind with
      | keyword word =>
          cases word with
          | ifWord => exact conditional_shallow shallow shortens tokens behind
          | defWord => exact function_shallow shallow tokens behind
          | trueWord => exact ok_not_deep _
          | falseWord => exact ok_not_deep _
          | _ => exact missing_not_deep _ _
      | punctuation c =>
          simp only [primary]
          split
          · exact group_shallow shallow shortens _ fewer
          · split
            · exact block_shallow shallow shortens _ fewer
            · exact missing_not_deep _ _
      | operator symbol => exact missing_not_deep _ _
      | number text => exact ok_not_deep _
      | string value => exact ok_not_deep _
      | character value => exact ok_not_deep _
      | identifier name => exact ok_not_deep _

theorem operand_over_shallow (shallow : ∀ looked, Shallow bound (inner looked))
    (shortens : ∀ looked, Shortens (inner looked)) : Shallow (bound + 1) (operandOver inner) := by
  have calls : ∀ callee tokens, tokens.length < bound + 1 → ¬ Deep (furtherCall inner callee tokens) := by
    intro callee tokens fewer
    unfold furtherCall
    split
    · exact bind_not_deep (enclosed_shallow _ _ _ (shortens true) (shallow true) tokens fewer)
        fun _ _ => ok_not_deep _
    · exact ok_not_deep _
  intro tokens fewer
  refine bind_not_deep (primary_shallow shallow shortens tokens fewer) fun (node, behind) read => ?_
  have shorter := primary_shortens inner shortens tokens node behind read
  exact repeatedly_shallow (further_call_progress inner shortens) calls node behind
    (Nat.lt_trans shorter fewer)

end Operands

-- The operator leaves a token less for the operand, and both leave two for what rises behind them.
theorem climb_over_shallow {operand : Rule Node} {rise : Nat → Node → Rule Node} {bound : Nat}
    (shortens : Shortens operand) (keeps : ∀ floor left, Keeps (rise floor left))
    (operands : Shallow bound operand) (rises : ∀ floor left, Shallow bound (rise floor left))
    (floor : Nat) (left : Node) : Shallow (bound + 1) (climbOver operand rise floor left) := by
  refine repeatedly_shallow (further_operation_progress operand rise floor shortens keeps) ?_ left
  intro left tokens fewer
  unfold furtherOperation
  split
  · exact ok_not_deep _
  · rename_i op behind found
    have first := operator_above_length found
    refine bind_not_deep (operands behind (by omega)) fun (next, later) read => ?_
    have second := shortens behind next later read
    exact bind_not_deep (rises _ next later (by omega)) fun _ _ => ok_not_deep _

theorem level_shallow (level : Nat) :
    (∀ looked, Shallow level (expression level looked)) ∧
      ∀ floor left, Shallow (level + 1) (climb level floor left) := by
  induction level with
  | zero =>
      refine ⟨fun looked tokens fewer => absurd fewer (Nat.not_lt_zero _), ?_⟩
      intro floor left tokens fewer
      rw [climb]
      exact climb_over_shallow (too_deep_shortens false)
        (fun _ _ => keeps_of_shortens (too_deep_shortens true))
        (fun tokens fewer => absurd fewer (Nat.not_lt_zero _))
        (fun _ _ tokens fewer => absurd fewer (Nat.not_lt_zero _)) floor left tokens fewer
  | succ level ih =>
      have shortens := expression_shortens level
      have operands := operand_over_shallow ih.1 shortens
      have climbs := climb_over_shallow (operand_over_shortens _ shortens) (climb_keeps level) operands ih.2
      refine ⟨fun looked tokens fewer => ?_, fun floor left tokens fewer => ?_⟩
      · rw [expression]
        apply bind_not_deep (operands tokens fewer)
        intro item read
        have shorter := operand_over_shortens _ shortens tokens item.1 item.2 read
        exact climbs 0 item.1 item.2 (by omega)
      · rw [climb]
        exact climbs floor left tokens fewer

theorem program_shallow (level : Nat) : Shallow level (program level) :=
  elements_shallow ';' List.isEmpty (expression_shortens level true) ((level_shallow level).1 true)

end ScriptReader.Rule
