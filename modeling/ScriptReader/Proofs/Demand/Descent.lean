import ScriptReader.Proofs.Demand.Reader

/-!
A parser whose recursion is bounded by fuel and not by its nesting limit: there is no answer where the
fuel is spent. It tells which routines it enters, which of them return, and the rounds of its loops.
With `again` it looks for calls once more where an operand has been read.
-/

set_option autoImplicit false

namespace ScriptReader

inductive Routine where
  | expression
  | operand
  | call
  | block
  | conditional
  | function
deriving DecidableEq

inductive Loop where
  | statements
  | list
  | calls
  | operations
deriving DecidableEq

-- The numbers are those of the tokens that are unread before and behind.
inductive Turn where
  | enters (routine : Routine)
  | returns (routine : Routine) (before behind : Nat)
  | round (loop : Loop) (before behind : Nat)
deriving DecidableEq

structure Visit where
  stream : TokenStream
  depth : Nat
  -- The latest turn stands first.
  course : List Turn

namespace Visit

def remaining (visit : Visit) : Nat := visit.stream.upcoming.length

def told (visit : Visit) (turns : List Turn) : Visit := { visit with course := turns ++ visit.course }

end Visit

namespace Parts

variable {m : Type → Type} [Monad m] (parts : Parts m) {α : Type}

-- `none` breaks the list off. The last of the items stands first.
def listRound (element : m α) (separator : Char) (ends : Option TokenKind → Bool) (found : List α) :
    m (Option (List α)) :=
  if found.isEmpty then do
    let first ← element
    return some [first]
  else do
    parts.mark separator
    if ends (← parts.ahead) then return none
    let next ← element
    return some (next :: found)

def statementEnd : m Unit := do
  if (← parts.ahead).isSome then parts.mark ';'

def statementRound (statement : m Node) (found : List Node) : m (Option (List Node)) := do
  let next ← statement
  parts.statementEnd
  return some (next :: found)

end Parts

def Descent (α : Type) := Visit → Option (Except ParseError α × Visit)

namespace Descent

open Parts (goesOn opensCall operatorAbove)

variable {α β σ τ : Type}

instance : Monad Descent where
  pure value := fun visit => some (.ok value, visit)
  bind first next := fun visit =>
    match first visit with
    | none => none
    | some (.error error, visit) => some (.error error, visit)
    | some (.ok value, visit) => next value visit

def spent : Descent α := fun _ => none

def lift (reader : Reader α) : Descent α := fun visit =>
  some ((reader visit.stream).1, { visit with stream := (reader visit.stream).2 })

def parts : Parts Descent := Reader.parts.map lift

def nested (limit : Nat) (inner : Descent α) : Descent α := fun visit =>
  if limit ≤ visit.depth then parts.tooDeep limit visit
  else
    match inner { visit with depth := visit.depth + 1 } with
    | none => none
    | some (result, visit) => some (result, { visit with depth := visit.depth - 1 })

def stamped (turns : Nat → Nat → α → List Turn) (inner : Descent α) : Descent α := fun visit =>
  match inner visit with
  | none => none
  | some (.error error, visit) => some (.error error, visit)
  | some (.ok value, after) =>
      some (.ok value, after.told (turns visit.remaining after.remaining value))

def routine (name : Routine) (inner : Descent α) : Descent α := fun visit =>
  stamped (fun before behind _ => [.returns name before behind]) inner (visit.told [.enters name])

-- A round that breaks its loop off is not told.
def round (name : Loop) (body : Descent (Option σ)) : Descent (Option σ) :=
  stamped (fun before behind next => if next.isSome then [.round name before behind] else []) body

def loop (name : Loop) (enters : Option TokenKind → Option τ) (body : τ → σ → Descent (Option σ)) :
    (fuel : Nat) → σ → Descent σ
  | 0, _ => spent
  | fuel + 1, value => do
      match enters (← parts.ahead) with
      | none => return value
      | some found =>
          match ← round name (body found value) with
          | none => return value
          | some next => loop name enters body fuel next

section Lists

variable (element : Descent α) (separator : Char) (ends : Option TokenKind → Bool)

def items (fuel : Nat) : Descent (List α) := do
  let found ← loop .list (goesOn ends) (fun _ => parts.listRound element separator ends) fuel []
  return found.reverse

def enclosed (opening closing : Char) (fuel : Nat) : Descent (List α) := do
  parts.mark opening
  let found ← items element separator (fun next => next == some (.punctuation closing)) fuel
  parts.mark closing
  return found

end Lists

section Operands

variable (limit : Nat) (inner : Descent Node) (fuel : Nat)

def block : Descent Node := routine .block do
  let statements ← enclosed inner ';' '\x7b' '\x7d' fuel
  return .block statements

def conditional : Descent Node := routine .conditional do
  let _ ← parts.take .expression
  parts.conditional inner

def function : Descent Node := routine .function do
  let _ ← parts.take .expression
  let parameters ← enclosed parts.parameter ',' '(' ')' fuel
  let body ← inner
  return .function parameters body

def primary : Descent Node := do
  match ← parts.ahead with
  | some (.punctuation c) =>
      if c = '(' then parts.group inner else if c = '\x7b' then block inner fuel else parts.literal
  | some (.keyword .ifWord) => conditional inner
  | some (.keyword .defWord) => function inner fuel
  | _ => parts.literal

def call (callee : Node) : Descent Node := routine .call do
  let arguments ← enclosed inner ',' '(' ')' fuel
  return .call callee arguments

def calls (node : Node) : Descent Node :=
  loop .calls opensCall (fun _ callee => do return some (← call inner fuel callee)) fuel node

def operand : Descent Node := routine .operand (nested limit do
  let node ← primary inner fuel
  calls inner fuel node)

end Operands

def climbOver (operand : Descent Node) (rise : Nat → Node → Descent Node) (fuel floor : Nat)
    (left : Node) : Descent Node :=
  loop .operations (operatorAbove floor)
    (fun op left => do return some (← parts.furtherOperation operand rise op left)) fuel left

section Levels

variable (again : Bool) (limit : Nat)

def recalled (inner : Descent Node) (fuel : Nat) (node : Node) : Descent Node :=
  if again then calls inner fuel node else pure node

mutual
def expression : (fuel : Nat) → Descent Node
  | 0 => spent
  | fuel + 1 => routine .expression do
      let left ← operand limit (expression fuel) (fuel + 1)
      let left ← recalled again (expression fuel) (fuel + 1) left
      climbOver (operand limit (expression fuel) (fuel + 1))
        (fun floor left => nested limit (climb fuel floor left)) (fuel + 1) 0 left
def climb : (fuel floor : Nat) → Node → Descent Node
  | 0, _, _ => spent
  | fuel + 1, floor, left =>
      climbOver (operand limit (expression fuel) (fuel + 1))
        (fun floor left => nested limit (climb fuel floor left)) (fuel + 1) floor left
end

def program (fuel : Nat) : Descent Node := do
  let found ← loop .statements (goesOn Option.isNone)
    (fun _ => parts.statementRound (expression again limit fuel)) fuel []
  return .block found.reverse

end Levels

section Values

variable {first inner : Descent α} {next : α → Descent β} {visit middle after : Visit}

theorem bind_of_ok {item : α} (read : first visit = some (.ok item, middle)) :
    (first >>= next) visit = next item middle := by
  simp only [bind, read]

theorem bind_ok {value : β} (read : (first >>= next) visit = some (.ok value, after)) :
    ∃ item middle, first visit = some (.ok item, middle) ∧
      next item middle = some (.ok value, after) := by
  simp only [bind] at read
  generalize first visit = answer at read
  rcases answer with _ | ⟨error | item, middle⟩
  · cases read
  · cases read
  · exact ⟨item, middle, rfl, read⟩

theorem stamped_ok {turns : Nat → Nat → α → List Turn} {value : α}
    (read : stamped turns inner visit = some (.ok value, after)) :
    ∃ middle, inner visit = some (.ok value, middle) ∧ after.stream = middle.stream := by
  simp only [stamped] at read
  generalize inner visit = answer at read
  rcases answer with _ | ⟨error | item, middle⟩ <;> cases read
  exact ⟨middle, rfl, rfl⟩

theorem routine_ok {name : Routine} {value : α}
    (read : routine name inner visit = some (.ok value, after)) :
    ∃ middle, inner (visit.told [.enters name]) = some (.ok value, middle) ∧
      after.stream = middle.stream :=
  stamped_ok read

theorem nested_ok {limit : Nat} {value : α}
    (read : nested limit inner visit = some (.ok value, after)) :
    ∃ middle, inner { visit with depth := visit.depth + 1 } = some (.ok value, middle) ∧
      after.stream = middle.stream := by
  by_cases full : limit ≤ visit.depth
  · simp only [nested, if_pos full] at read
    cases read
  · simp only [nested, if_neg full] at read
    generalize inner { visit with depth := visit.depth + 1 } = answer at read
    rcases answer with _ | ⟨result, middle⟩ <;> cases read
    exact ⟨middle, rfl, rfl⟩

end Values

end Descent

end ScriptReader
