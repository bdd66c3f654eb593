import ScriptReader.Token.Basic

/-!
A rule reads a phrase from the head of a list of token kinds and returns its meaning with the tokens
behind it, or stops and tells why and where. It never looks further than one token ahead.
-/

set_option autoImplicit false

namespace ScriptReader

inductive Expectation where
  | mark (c : Char)
  -- The brace that opens the branch of a conditional.
  | branch
  | expression
  | parameter
deriving DecidableEq, Repr

inductive Obstacle where
  | missing (what : Expectation)
  -- No nesting level is left; `looked` tells whether the next token had been looked at.
  | tooDeep (looked : Bool)
deriving DecidableEq, Repr

structure Stop where
  obstacle : Obstacle
  unread : List TokenKind
deriving DecidableEq, Repr

abbrev Rule (α : Type) := List TokenKind → Except Stop (α × List TokenKind)

namespace Rule

variable {α : Type}

def missing (what : Expectation) : Rule α := fun tokens => .error ⟨.missing what, tokens⟩

def tooDeep (looked : Bool) : Rule α := fun tokens => .error ⟨.tooDeep looked, tokens⟩

def opensWith (c : Char) : List TokenKind → Bool
  | .punctuation mark :: _ => mark == c
  | _ => false

def mark (c : Char) : Rule Unit
  | .punctuation found :: tokens =>
      if found = c then .ok ((), tokens) else missing (.mark c) (.punctuation found :: tokens)
  | tokens => missing (.mark c) tokens

-- One more round of a loop: a new value, or nothing where the loop ends.
abbrev Step (α : Type) := α → List TokenKind → Except Stop (Option (α × List TokenKind))

def Step.Progress (step : Step α) : Prop :=
  (∀ value, step value [] = .ok none) ∧
    ∀ value tokens next rest, step value tokens = .ok (some (next, rest)) →
      rest.length < tokens.length

def rounds (step : Step α) : List TokenKind → α → Rule α
  | [], value, tokens => .ok (value, tokens)
  | _ :: clock, value, tokens =>
      match step value tokens with
      | .error stop => .error stop
      | .ok none => .ok (value, tokens)
      | .ok (some (next, rest)) => rounds step clock next rest

-- There cannot be more rounds than there are tokens.
def repeatedly (step : Step α) (value : α) : Rule α := fun tokens => rounds step tokens value tokens

theorem rounds_clock (step : Step α) (progress : step.Progress) (a b : List TokenKind) (value : α)
    (tokens : List TokenKind) (enoughA : tokens.length ≤ a.length)
    (enoughB : tokens.length ≤ b.length) :
    rounds step a value tokens = rounds step b value tokens := by
  induction a generalizing b value tokens with
  | nil =>
      cases List.length_eq_zero_iff.mp (Nat.le_zero.mp enoughA)
      cases b with
      | nil => rfl
      | cons _ b => simp [rounds, progress.1]
  | cons kind a ih =>
      cases b with
      | nil =>
          cases List.length_eq_zero_iff.mp (Nat.le_zero.mp enoughB)
          simp [rounds, progress.1]
      | cons _ b =>
          simp only [rounds]
          split
          · rfl
          · rfl
          · rename_i next rest took
            have shorter := progress.2 value tokens next rest took
            simp only [List.length_cons] at enoughA enoughB
            exact ih b next rest (by omega) (by omega)

theorem repeatedly_eq (step : Step α) (progress : step.Progress) (value : α)
    (tokens : List TokenKind) :
    repeatedly step value tokens =
      match step value tokens with
      | .error stop => .error stop
      | .ok none => .ok (value, tokens)
      | .ok (some (next, rest)) => repeatedly step next rest := by
  cases tokens with
  | nil => simp [repeatedly, rounds, progress.1]
  | cons kind tokens =>
      rw [repeatedly, rounds]
      split
      · rfl
      · rfl
      · rename_i next rest took
        have shorter := progress.2 value (kind :: tokens) next rest took
        simp only [List.length_cons] at shorter
        exact rounds_clock step progress tokens rest next rest (by omega) (Nat.le_refl _)

theorem step_induction (step : Step α) (progress : step.Progress)
    {motive : α → List TokenKind → Prop}
    (each : ∀ value tokens, (∀ next rest, step value tokens = .ok (some (next, rest)) →
      motive next rest) → motive value tokens) (value : α) (tokens : List TokenKind) :
    motive value tokens := by
  refine each value tokens fun next rest took => ?_
  have shorter := progress.2 value tokens next rest took
  exact step_induction step progress each next rest
termination_by tokens.length

theorem repeatedly_induction (step : Step α) (progress : step.Progress)
    {motive : α → List TokenKind → Prop} (value result : α) (tokens rest : List TokenKind)
    (read : repeatedly step value tokens = .ok (result, rest))
    (done : step result rest = .ok none → motive result rest)
    (further : ∀ value tokens next behind, step value tokens = .ok (some (next, behind)) →
      motive next behind → motive value tokens) : motive value tokens := by
  induction value, tokens using step_induction step progress with
  | each value tokens ih =>
      rw [repeatedly_eq step progress] at read
      split at read
      · cases read
      · rename_i ended
        cases read
        exact done ended
      · rename_i next behind took
        exact further value tokens next behind took (ih next behind took read)

theorem repeatedly_ends (step : Step α) (progress : step.Progress) (value result : α)
    (tokens rest : List TokenKind) (read : repeatedly step value tokens = .ok (result, rest)) :
    step result rest = .ok none := by
  refine repeatedly_induction step progress (motive := fun _ _ => step result rest = .ok none) value result
    tokens rest read ?_ ?_
  · exact fun ended => ended
  · exact fun _ _ _ _ _ ended => ended

end Rule

end ScriptReader
