import ScriptReader.Grammar.Expression

set_option autoImplicit false

namespace ScriptReader.Rule

variable {α β : Type}

def Cut (low high : Except Stop α) : Prop :=
  low = high ∨ ∃ looked unread, low = .error ⟨.tooDeep looked, unread⟩

def Guards (low high : Rule α) : Prop := ∀ tokens, Cut (low tokens) (high tokens)

theorem cut_refl (outcome : Except Stop α) : Cut outcome outcome := .inl rfl

theorem guards_refl (rule : Rule α) : Guards rule rule := fun tokens => cut_refl (rule tokens)

theorem cut_trans {low middle high : Except Stop α} (first : Cut low middle)
    (second : Cut middle high) : Cut low high := by
  rcases first with rfl | deep
  · exact second
  · exact .inr deep

theorem too_deep_guards (looked : Bool) (high : Rule α) : Guards (tooDeep looked) high :=
  fun tokens => .inr ⟨looked, tokens, rfl⟩

theorem cut_bind {low high : Except Stop α} {next further : α → Except Stop β}
    (first : Cut low high) (later : ∀ item, Cut (next item) (further item)) :
    Cut (low >>= next) (high >>= further) := by
  rcases first with rfl | ⟨looked, unread, rfl⟩
  · cases low with
    | error stop => exact cut_refl _
    | ok item => exact later item
  · exact .inr ⟨looked, unread, rfl⟩

theorem repeatedly_guards {low high : Step α}
    (steps : ∀ value tokens, Cut (low value tokens) (high value tokens)) (value : α) :
    Guards (repeatedly low value) (repeatedly high value) := by
  have general : ∀ (clock : List TokenKind) (value : α),
      Guards (rounds low clock value) (rounds high clock value) := by
    intro clock
    induction clock with
    | nil => exact fun value tokens => cut_refl _
    | cons kind clock ih =>
        intro value tokens
        simp only [rounds]
        rcases steps value tokens with same | ⟨looked, unread, deep⟩
        · rw [same]
          split
          · exact cut_refl _
          · exact cut_refl _
          · exact ih _ _
        · rw [deep]
          exact .inr ⟨looked, unread, rfl⟩
  exact fun tokens => general tokens value tokens

section Lists

variable {low high : Rule α}

theorem elements_guards (separator : Char) (ends : List TokenKind → Bool)
    (element : Guards low high) :
    Guards (elements low separator ends) (elements high separator ends) := by
  have steps : ∀ found tokens, Cut (furtherElement low separator ends found tokens)
      (furtherElement high separator ends found tokens) := by
    intro found tokens
    unfold furtherElement
    split
    · exact cut_refl _
    · refine cut_bind (cut_refl _) fun (_, behind) => ?_
      dsimp only
      split
      · exact cut_refl _
      · exact cut_bind (element behind) fun _ => cut_refl _
  intro tokens
  unfold elements
  split
  · exact cut_refl _
  · refine cut_bind (element tokens) fun (first, behind) => ?_
    exact cut_bind (repeatedly_guards steps [first] behind) fun _ => cut_refl _

theorem enclosed_guards (opening closing separator : Char) (element : Guards low high) :
    Guards (enclosed opening closing separator low) (enclosed opening closing separator high) := by
  intro tokens
  refine cut_bind (cut_refl _) fun (_, inside) => ?_
  exact cut_bind (elements_guards separator (opensWith closing) element inside) fun _ => cut_refl _

end Lists

section Operands

variable {low high : Inner}

theorem conditional_guards (inner : ∀ looked, Guards (low looked) (high looked)) :
    Guards (conditional low) (conditional high) := by
  have alternatives : Guards (alternative low) (alternative high) := by
    intro tokens
    unfold alternative
    split
    · exact cut_bind (inner false _) fun _ => cut_refl _
    · exact cut_refl _
  intro tokens
  refine cut_bind (inner false tokens) fun (_, behind) => ?_
  dsimp only
  split
  · refine cut_bind (inner true behind) fun (_, later) => ?_
    exact cut_bind (alternatives later) fun _ => cut_refl _
  · exact cut_refl _

theorem function_guards (inner : ∀ looked, Guards (low looked) (high looked)) :
    Guards (function low) (function high) := by
  intro tokens
  refine cut_bind (cut_refl _) fun (_, behind) => ?_
  exact cut_bind (inner false behind) fun _ => cut_refl _

theorem group_guards (inner : ∀ looked, Guards (low looked) (high looked)) :
    Guards (group low) (group high) := by
  intro tokens
  refine cut_bind (cut_refl _) fun (_, inside) => ?_
  exact cut_bind (inner false inside) fun _ => cut_refl _

theorem block_guards (inner : ∀ looked, Guards (low looked) (high looked)) :
    Guards (block low) (block high) :=
  fun tokens => cut_bind (enclosed_guards _ _ _ (inner true) tokens) fun _ => cut_refl _

theorem primary_guards (inner : ∀ looked, Guards (low looked) (high looked)) :
    Guards (primary low) (primary high) := by
  intro tokens
  cases tokens with
  | nil => exact cut_refl _
  | cons kind tokens =>
      cases kind with
      | keyword word =>
          cases word with
          | ifWord => exact conditional_guards inner tokens
          | defWord => exact function_guards inner tokens
          | _ => exact cut_refl _
      | punctuation c =>
          simp only [primary]
          split
          · exact group_guards inner _
          · split
            · exact block_guards inner _
            · exact cut_refl _
      | _ => exact cut_refl _

theorem operand_over_guards (inner : ∀ looked, Guards (low looked) (high looked)) :
    Guards (operandOver low) (operandOver high) := by
  have calls : ∀ callee tokens, Cut (furtherCall low callee tokens) (furtherCall high callee tokens) := by
    intro callee tokens
    unfold furtherCall
    split
    · exact cut_bind (enclosed_guards _ _ _ (inner true) tokens) fun _ => cut_refl _
    · exact cut_refl _
  intro tokens
  exact cut_bind (primary_guards inner tokens) fun (node, behind) => repeatedly_guards calls node behind

end Operands

theorem climb_over_guards {low high : Rule Node} {rise climbs : Nat → Node → Rule Node}
    (operand : Guards low high) (rises : ∀ floor left, Guards (rise floor left) (climbs floor left))
    (floor : Nat) (left : Node) :
    Guards (climbOver low rise floor left) (climbOver high climbs floor left) := by
  refine repeatedly_guards (fun left tokens => ?_) left
  unfold furtherOperation
  split
  · exact cut_refl _
  · refine cut_bind (operand _) fun (next, behind) => ?_
    exact cut_bind (rises _ next behind) fun _ => cut_refl _

theorem next_level_guards (level : Nat) :
    (∀ looked, Guards (expression level looked) (expression (level + 1) looked)) ∧
      ∀ floor left, Guards (climb level floor left) (climb (level + 1) floor left) := by
  induction level with
  | zero =>
      refine ⟨fun looked tokens => ?_, fun floor left tokens => ?_⟩
      · rw [expression]
        exact too_deep_guards looked _ tokens
      · rw [climb, climb]
        exact climb_over_guards (too_deep_guards false _) (fun _ _ => too_deep_guards true _) floor left
          tokens
  | succ level ih =>
      have operands := operand_over_guards ih.1
      refine ⟨fun looked tokens => ?_, fun floor left tokens => ?_⟩
      · rw [expression, expression]
        exact cut_bind (operands tokens) fun read => climb_over_guards operands ih.2 0 read.1 read.2
      · rw [climb, climb]
        exact climb_over_guards operands ih.2 floor left tokens

theorem program_guards (low more : Nat) : Guards (program low) (program (low + more)) := by
  induction more with
  | zero => exact guards_refl _
  | succ more ih =>
      have next := elements_guards ';' List.isEmpty ((next_level_guards (low + more)).1 true)
      exact fun tokens => cut_trans (ih tokens) (next tokens)

end ScriptReader.Rule
