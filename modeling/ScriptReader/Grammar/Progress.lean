import ScriptReader.Grammar.Expression

set_option autoImplicit false

namespace ScriptReader.Rule

variable {α β : Type}

def Shortens (rule : Rule α) : Prop :=
  ∀ tokens value rest, rule tokens = .ok (value, rest) → rest.length < tokens.length

def Keeps (rule : Rule α) : Prop :=
  ∀ tokens value rest, rule tokens = .ok (value, rest) → rest.length ≤ tokens.length

theorem keeps_of_shortens {rule : Rule α} (shortens : Shortens rule) : Keeps rule :=
  fun tokens value rest read => Nat.le_of_lt (shortens tokens value rest read)

theorem bind_ok {action : Except Stop α} {next : α → Except Stop β} {value : β}
    (read : action >>= next = .ok value) : ∃ item, action = .ok item ∧ next item = .ok value := by
  cases action with
  | error stop => cases read
  | ok item => exact ⟨item, rfl, read⟩

theorem mark_eq_ok {c : Char} {tokens : List TokenKind} {result : Unit × List TokenKind}
    (read : mark c tokens = .ok result) : tokens = .punctuation c :: result.2 := by
  unfold mark at read
  split at read
  · split at read
    · rename_i same
      cases read
      rw [same]
    · cases read
  · cases read

theorem mark_shortens (c : Char) : Shortens (mark c) := by
  intro tokens value rest read
  simp [mark_eq_ok read]

theorem repeatedly_keeps (step : Step α) (progress : step.Progress) (value : α) :
    Keeps (repeatedly step value) := by
  intro tokens result rest read
  refine repeatedly_induction step progress (motive := fun _ tokens => rest.length ≤ tokens.length) value
    result tokens rest read (fun _ => Nat.le_refl _) ?_
  intro value tokens next behind took later
  exact Nat.le_trans later (Nat.le_of_lt (progress.2 value tokens next behind took))

theorem further_element_progress (element : Rule α) (separator : Char)
    (ends : List TokenKind → Bool) (shortens : Shortens element) :
    (furtherElement element separator ends).Progress := by
  refine ⟨fun _ => rfl, ?_⟩
  intro found tokens next rest took
  unfold furtherElement at took
  split at took
  · cases took
  · obtain ⟨⟨_, behind⟩, marked, took⟩ := bind_ok took
    have separated := mark_shortens separator tokens _ behind marked
    dsimp only at took
    split at took
    · cases took
      exact separated
    · obtain ⟨⟨_, last⟩, read, took⟩ := bind_ok took
      have shorter := shortens behind _ last read
      cases took
      exact Nat.lt_trans shorter separated

theorem elements_keeps (element : Rule α) (separator : Char) (ends : List TokenKind → Bool)
    (shortens : Shortens element) : Keeps (elements element separator ends) := by
  intro tokens value rest read
  unfold elements at read
  split at read
  · cases read
    exact Nat.le_refl _
  · obtain ⟨⟨_, behind⟩, first, read⟩ := bind_ok read
    obtain ⟨⟨_, last⟩, further, read⟩ := bind_ok read
    have shorter := shortens tokens _ behind first
    have kept := repeatedly_keeps _ (further_element_progress element separator ends shortens) _
      behind _ last further
    cases read
    omega

theorem bracketed_ok {opening closing : Char} {middle : Rule α} {tokens rest : List TokenKind} {value : α}
    (read : (do
      let (_, tokens) ← mark opening tokens
      let (value, tokens) ← middle tokens
      let (_, tokens) ← mark closing tokens
      return (value, tokens)) = Except.ok (value, rest)) :
    ∃ inside, tokens = .punctuation opening :: inside ∧
      middle inside = .ok (value, .punctuation closing :: rest) := by
  obtain ⟨⟨_, inside⟩, opened, read⟩ := bind_ok read
  obtain ⟨⟨_, behind⟩, found, read⟩ := bind_ok read
  obtain ⟨⟨_, last⟩, closed, read⟩ := bind_ok read
  have first := mark_eq_ok opened
  have final := mark_eq_ok closed
  dsimp only at first final
  cases read
  subst final
  exact ⟨inside, first, found⟩

theorem enclosed_shortens (opening closing separator : Char) (element : Rule α)
    (shortens : Shortens element) : Shortens (enclosed opening closing separator element) := by
  intro tokens value rest read
  obtain ⟨inside, rfl, listed⟩ := bracketed_ok read
  have kept := elements_keeps element separator _ shortens inside _ _ listed
  simp only [List.length_cons] at kept ⊢
  omega

theorem group_shortens (inner : Inner) (shortens : ∀ looked, Shortens (inner looked)) :
    Shortens (group inner) := by
  intro tokens value rest read
  obtain ⟨inside, rfl, grouped⟩ := bracketed_ok read
  have shorter := shortens false inside _ _ grouped
  simp only [List.length_cons] at shorter ⊢
  omega

theorem block_shortens (inner : Inner) (shortens : ∀ looked, Shortens (inner looked)) :
    Shortens (block inner) := by
  intro tokens value rest read
  obtain ⟨⟨_, behind⟩, listed, read⟩ := bind_ok read
  have shorter := enclosed_shortens _ _ _ (inner true) (shortens true) tokens _ behind listed
  cases read
  exact shorter

theorem alternative_keeps (inner : Inner) (shortens : ∀ looked, Shortens (inner looked)) :
    Keeps (alternative inner) := by
  intro tokens value rest read
  unfold alternative at read
  split at read
  · rename_i behind
    obtain ⟨⟨_, last⟩, other, read⟩ := bind_ok read
    have shorter := shortens false behind _ last other
    cases read
    rw [List.length_cons]
    omega
  · cases read
    exact Nat.le_refl _

theorem conditional_shortens (inner : Inner) (shortens : ∀ looked, Shortens (inner looked)) :
    Shortens (conditional inner) := by
  intro tokens value rest read
  obtain ⟨⟨_, behind⟩, condition, read⟩ := bind_ok read
  have first := shortens false tokens _ behind condition
  dsimp only at read
  split at read
  · obtain ⟨⟨_, later⟩, branch, read⟩ := bind_ok read
    obtain ⟨⟨other, last⟩, alternated, read⟩ := bind_ok read
    have second := shortens true behind _ later branch
    have kept := alternative_keeps inner shortens later _ last alternated
    have shorter := Nat.lt_of_le_of_lt kept (Nat.lt_trans second first)
    cases other with
    | none => cases read; exact shorter
    | some other => cases read; exact shorter
  · cases read

theorem parameter_shortens : Shortens parameter := by
  intro tokens value rest read
  unfold parameter at read
  split at read
  · cases read
    simp
  · cases read

theorem function_shortens (inner : Inner) (shortens : ∀ looked, Shortens (inner looked)) :
    Shortens (function inner) := by
  intro tokens value rest read
  obtain ⟨⟨_, behind⟩, listed, read⟩ := bind_ok read
  obtain ⟨⟨_, last⟩, body, read⟩ := bind_ok read
  have first := enclosed_shortens _ _ _ parameter parameter_shortens tokens _ behind listed
  have second := shortens false behind _ last body
  cases read
  omega

theorem reserved_keeps (inner : Inner) (word : Keyword)
    (shortens : ∀ looked, Shortens (inner looked)) : Keeps (reserved inner word) := by
  intro tokens value rest read
  cases word with
  | trueWord => cases read; exact Nat.le_refl _
  | falseWord => cases read; exact Nat.le_refl _
  | ifWord => exact Nat.le_of_lt (conditional_shortens inner shortens tokens value rest read)
  | defWord => exact Nat.le_of_lt (function_shortens inner shortens tokens value rest read)
  | _ => cases read

theorem primary_shortens (inner : Inner) (shortens : ∀ looked, Shortens (inner looked)) :
    Shortens (primary inner) := by
  intro tokens value rest read
  cases tokens with
  | nil => cases read
  | cons kind tokens =>
      have one : tokens.length < (kind :: tokens).length := Nat.lt_succ_self _
      cases kind with
      | number text => cases read; exact one
      | string text => cases read; exact one
      | character c => cases read; exact one
      | identifier name => cases read; exact one
      | operator symbol => cases read
      | keyword word =>
          have kept := reserved_keeps inner word shortens tokens value rest read
          exact Nat.lt_of_le_of_lt kept one
      | punctuation c =>
          simp only [primary] at read
          split at read
          · exact group_shortens inner shortens _ value rest read
          · split at read
            · exact block_shortens inner shortens _ value rest read
            · cases read

theorem further_call_progress (inner : Inner) (shortens : ∀ looked, Shortens (inner looked)) :
    (furtherCall inner).Progress := by
  refine ⟨fun _ => rfl, ?_⟩
  intro callee tokens next rest took
  unfold furtherCall at took
  split at took
  · obtain ⟨⟨_, behind⟩, listed, took⟩ := bind_ok took
    have shorter := enclosed_shortens _ _ _ (inner true) (shortens true) tokens _ behind listed
    cases took
    exact shorter
  · cases took

theorem operand_over_shortens (inner : Inner) (shortens : ∀ looked, Shortens (inner looked)) :
    Shortens (operandOver inner) := by
  intro tokens value rest read
  obtain ⟨⟨_, behind⟩, first, called⟩ := bind_ok read
  have shorter := primary_shortens inner shortens tokens _ behind first
  have kept := repeatedly_keeps _ (further_call_progress inner shortens) _ behind value rest called
  omega

theorem operator_above_length {floor : Nat} {tokens rest : List TokenKind} {op : Operator}
    (found : operatorAbove floor tokens = some (op, rest)) : rest.length < tokens.length := by
  unfold operatorAbove at found
  split at found
  · split at found
    · split at found
      · cases found
        exact Nat.lt_succ_self _
      · cases found
    · cases found
  · cases found

theorem further_operation_progress (operand : Rule Node) (rise : Nat → Node → Rule Node)
    (floor : Nat) (shortens : Shortens operand) (keeps : ∀ floor left, Keeps (rise floor left)) :
    (furtherOperation operand rise floor).Progress := by
  refine ⟨fun _ => rfl, ?_⟩
  intro left tokens next rest took
  unfold furtherOperation at took
  split at took
  · cases took
  · rename_i op behind found
    obtain ⟨⟨_, later⟩, read, took⟩ := bind_ok took
    obtain ⟨⟨_, last⟩, risen, took⟩ := bind_ok took
    have first := operator_above_length found
    have second := shortens behind _ later read
    have kept := keeps _ _ later _ last risen
    cases took
    omega

theorem climb_over_keeps (operand : Rule Node) (rise : Nat → Node → Rule Node) (floor : Nat)
    (left : Node) (shortens : Shortens operand) (keeps : ∀ floor left, Keeps (rise floor left)) :
    Keeps (climbOver operand rise floor left) :=
  repeatedly_keeps _ (further_operation_progress operand rise floor shortens keeps) left

theorem too_deep_shortens (looked : Bool) : Shortens (tooDeep looked : Rule Node) := by
  intro tokens value rest read
  cases read

theorem level_progress (level : Nat) :
    (∀ looked, Shortens (expression level looked)) ∧
      ∀ floor left, Keeps (climb level floor left) := by
  induction level with
  | zero =>
      refine ⟨fun looked tokens value rest read => ?_, fun floor left tokens value rest read => ?_⟩
      · cases read
      · simp only [climb] at read
        exact climb_over_keeps _ _ floor left (too_deep_shortens false)
          (fun _ _ => keeps_of_shortens (too_deep_shortens true)) tokens value rest read
  | succ level ih =>
      have operands := operand_over_shortens (expression level) ih.1
      refine ⟨fun looked tokens value rest read => ?_, fun floor left tokens value rest read => ?_⟩
      · simp only [expression] at read
        obtain ⟨⟨first, behind⟩, opened, climbed⟩ := bind_ok read
        have shorter := operands tokens first behind opened
        have kept := climb_over_keeps _ _ 0 first operands ih.2 behind value rest climbed
        omega
      · simp only [climb] at read
        exact climb_over_keeps _ _ floor left operands ih.2 tokens value rest read

theorem expression_shortens (level : Nat) (looked : Bool) : Shortens (expression level looked) :=
  (level_progress level).1 looked

theorem climb_keeps (level floor : Nat) (left : Node) : Keeps (climb level floor left) :=
  (level_progress level).2 floor left

theorem operand_shortens (level : Nat) (looked : Bool) : Shortens (operand level looked) := by
  intro tokens value rest read
  cases level with
  | zero => cases read
  | succ level =>
      exact operand_over_shortens (expression level) (expression_shortens level) tokens value rest read

theorem program_reads_all (level : Nat) (tokens rest : List TokenKind) (statements : List Node)
    (read : program level tokens = .ok (statements, rest)) : rest = [] := by
  unfold program elements at read
  split at read
  · rename_i ended
    cases read
    simpa using ended
  · obtain ⟨⟨_, behind⟩, _, read⟩ := bind_ok read
    obtain ⟨⟨found, last⟩, further, read⟩ := bind_ok read
    have progress := further_element_progress (expression level true) ';' List.isEmpty
      (expression_shortens level true)
    have ended := repeatedly_ends _ progress _ found behind last further
    cases read
    cases rest with
    | nil => rfl
    | cons kind rest =>
        simp only [furtherElement, List.isEmpty_cons, Bool.or_self, Bool.false_eq_true, if_false] at ended
        obtain ⟨⟨_, separated⟩, _, ended⟩ := bind_ok ended
        dsimp only at ended
        split at ended
        · cases ended
        · obtain ⟨⟨_, _⟩, _, ended⟩ := bind_ok ended
          cases ended

end ScriptReader.Rule
