import ScriptReader.Program.Parse

/-!
The routines of the parser over any monad that has their parts: looking ahead, taking a token, failing.
What relates the parts of two monads relates their programs (`Kin.program`).
-/

set_option autoImplicit false

namespace ScriptReader

structure Parts (m : Type → Type) where
  ahead : m (Option TokenKind)
  take (what : Expectation) : m Token
  -- The mark comes next. It stays in the stream.
  demand (c : Char) (what : Expectation) : m Unit
  refuse {α : Type} (what : Expectation) (token : Token) : m α
  tooDeep {α : Type} (limit : Nat) : m α
  -- No loop runs more rounds than this from here.
  clock : m Nat

namespace Parts

def map {m n : Type → Type} (lift : ∀ {α : Type}, m α → n α) (parts : Parts m) : Parts n where
  ahead := lift parts.ahead
  take what := lift (parts.take what)
  demand c what := lift (parts.demand c what)
  refuse what token := lift (parts.refuse what token)
  tooDeep limit := lift (parts.tooDeep limit)
  clock := lift parts.clock

variable {m : Type → Type} [Monad m] (parts : Parts m) {α σ τ : Type}

def mark (c : Char) : m Unit := do
  parts.demand c (.mark c)
  let _ ← parts.take (.mark c)
  return ()

def rounds (enters : Option TokenKind → Option τ) (body : τ → σ → m σ) : Nat → σ → m σ
  | 0, value => return value
  | clock + 1, value => do
      match enters (← parts.ahead) with
      | none => return value
      | some found =>
          let next ← body found value
          rounds enters body clock next

def loop (enters : Option TokenKind → Option τ) (body : τ → σ → m σ) (value : σ) : m σ := do
  let clock ← parts.clock
  rounds parts enters body clock value

def goesOn (ends : Option TokenKind → Bool) (next : Option TokenKind) : Option Unit :=
  if next.isNone || ends next then none else some ()

section Lists

variable (element : m α) (separator : Char) (ends : Option TokenKind → Bool)

def furtherItem (found : List α) : m (List α) := do
  parts.mark separator
  if ends (← parts.ahead) then return found
  let next ← element
  return next :: found

def items : m (List α) := do
  if (goesOn ends (← parts.ahead)).isNone then return []
  let first ← element
  let found ← parts.loop (goesOn ends) (fun _ => furtherItem parts element separator ends) [first]
  return found.reverse

def enclosed (opening closing : Char) : m (List α) := do
  parts.mark opening
  let found ← parts.items element separator fun next => next == some (.punctuation closing)
  parts.mark closing
  return found

end Lists

section Operands

variable (inner : m Node)

def group : m Node := do
  parts.mark '('
  let node ← inner
  parts.mark ')'
  return node

def block : m Node := do
  let statements ← parts.enclosed inner ';' '\x7b' '\x7d'
  return .block statements

def alternative : m (Option Node) := do
  if (← parts.ahead) = some (.keyword .elseWord) then
    let _ ← parts.take .expression
    let node ← inner
    return some node
  else return none

def conditional : m Node := do
  let condition ← inner
  parts.demand '\x7b' .branch
  let branch ← inner
  match ← parts.alternative inner with
  | none => return .ifThen condition branch
  | some other => return .ifElse condition branch other

def parameter : m String := do
  let token ← parts.take .parameter
  match token.kind with
  | .identifier name => return name
  | _ => parts.refuse .parameter token

def function : m Node := do
  let parameters ← parts.enclosed parts.parameter ',' '(' ')'
  let body ← inner
  return .function parameters body

def literal : m Node := do
  let token ← parts.take .expression
  match token.kind with
  | .number text => return .number text
  | .string value => return .string value
  | .character value => return .character value
  | .identifier name => return .identifier name
  | .keyword .trueWord => return .bool true
  | .keyword .falseWord => return .bool false
  | _ => parts.refuse .expression token

def primary : m Node := do
  match ← parts.ahead with
  | some (.punctuation c) =>
      if c = '(' then parts.group inner
      else if c = '\x7b' then parts.block inner
      else parts.literal
  | some (.keyword .ifWord) => do
      let _ ← parts.take .expression
      parts.conditional inner
  | some (.keyword .defWord) => do
      let _ ← parts.take .expression
      parts.function inner
  | _ => parts.literal

def furtherCall (callee : Node) : m Node := do
  let arguments ← parts.enclosed inner ',' '(' ')'
  return .call callee arguments

def opensCall (next : Option TokenKind) : Option Unit :=
  if next = some (.punctuation '(') then some () else none

def operandOver : m Node := do
  let node ← parts.primary inner
  parts.loop opensCall (fun _ => parts.furtherCall inner) node

end Operands

def operatorAbove (floor : Nat) : Option TokenKind → Option Operator
  | some (.operator symbol) => (Operator.ofSymbol? symbol).filter fun op => floor < op.precedence
  | _ => none

def furtherOperation (operand : m Node) (rise : Nat → Node → m Node) (op : Operator) (left : Node) :
    m Node := do
  let _ ← parts.take .expression
  let next ← operand
  let right ← rise op.rightFloor next
  return .operation op left right

def climbOver (operand : m Node) (rise : Nat → Node → m Node) (floor : Nat) (left : Node) : m Node :=
  parts.loop (operatorAbove floor) (parts.furtherOperation operand rise) left

section Levels

variable (limit : Nat)

mutual
def expression : (level : Nat) → m Node
  | 0 => parts.tooDeep limit
  | level + 1 => do
      let left ← parts.operandOver (expression level)
      parts.climbOver (parts.operandOver (expression level)) (climb level) 0 left
def climb : (level floor : Nat) → Node → m Node
  | 0, floor, left => parts.climbOver (parts.tooDeep limit) (fun _ _ => parts.tooDeep limit) floor left
  | level + 1, floor, left =>
      parts.climbOver (parts.operandOver (expression level)) (climb level) floor left
end

def program : m (List Node) := parts.items (parts.expression limit limit) ';' Option.isNone

end Levels

end Parts

structure Kin {m n : Type → Type} [Monad m] [Monad n] (a : Parts m) (b : Parts n)
    (related : ∀ {α : Type}, m α → n α → Prop) : Prop where
  pure : ∀ {α : Type} (value : α), related (pure value : m α) (pure value)
  bind : ∀ {α β : Type} {first : m α} {other : n α} {next : α → m β} {following : α → n β},
    related first other → (∀ value, related (next value) (following value)) →
    related (first >>= next) (other >>= following)
  ahead : related a.ahead b.ahead
  take : ∀ what, related (a.take what) (b.take what)
  demand : ∀ c what, related (a.demand c what) (b.demand c what)
  refuse : ∀ {α : Type} what token, related (a.refuse what token : m α) (b.refuse what token)
  tooDeep : ∀ {α : Type} limit, related (a.tooDeep limit : m α) (b.tooDeep limit)
  clock : related a.clock b.clock

theorem related_if {α : Type} {m n : Type → Type} {related : m α → n α → Prop} {test : Prop}
    [Decidable test] {yes no : m α} {agreed refused : n α} (yeses : related yes agreed)
    (noes : related no refused) :
    related (if test then yes else no) (if test then agreed else refused) := by
  by_cases holds : test
  · rw [if_pos holds, if_pos holds]
    exact yeses
  · rw [if_neg holds, if_neg holds]
    exact noes

namespace Kin

variable {m n : Type → Type} [Monad m] [Monad n] {a : Parts m} {b : Parts n}
  {related : ∀ {α : Type}, m α → n α → Prop} (kin : Kin a b related) {α σ τ : Type}

include kin

theorem mark (c : Char) : related (a.mark c) (b.mark c) :=
  kin.bind (kin.demand c _) fun _ => kin.bind (kin.take _) fun _ => kin.pure ()

theorem loop (enters : Option TokenKind → Option τ) {body : τ → σ → m σ} {other : τ → σ → n σ}
    (bodies : ∀ found value, related (body found value) (other found value)) (value : σ) :
    related (a.loop enters body value) (b.loop enters other value) := by
  have general : ∀ clock value,
      related (a.rounds enters body clock value) (b.rounds enters other clock value) := by
    intro clock
    induction clock with
    | zero => exact kin.pure
    | succ clock ih =>
        intro value
        apply kin.bind kin.ahead
        intro next
        cases enters next with
        | none => exact kin.pure value
        | some found => exact kin.bind (bodies found value) ih
  exact kin.bind kin.clock fun clock => general clock value

section Lists

variable {element : m α} {other : n α}

theorem items (elements : related element other) (separator : Char)
    (ends : Option TokenKind → Bool) :
    related (a.items element separator ends) (b.items other separator ends) := by
  have further : ∀ found, related (a.furtherItem element separator ends found)
      (b.furtherItem other separator ends found) := by
    intro found
    apply kin.bind (kin.mark separator)
    intro _
    apply kin.bind kin.ahead
    intro next
    exact related_if (kin.pure found) (kin.bind elements fun _ => kin.pure _)
  apply kin.bind kin.ahead
  intro next
  apply related_if (kin.pure [])
  apply kin.bind elements
  intro first
  exact kin.bind (kin.loop _ (fun _ => further) [first]) fun _ => kin.pure _

theorem enclosed (elements : related element other) (separator opening closing : Char) :
    related (a.enclosed element separator opening closing)
      (b.enclosed other separator opening closing) := by
  apply kin.bind (kin.mark opening)
  intro _
  apply kin.bind (kin.items elements separator _)
  intro found
  exact kin.bind (kin.mark closing) fun _ => kin.pure found

end Lists

theorem parameter : related a.parameter b.parameter := by
  apply kin.bind (kin.take .parameter)
  intro token
  cases token.kind with
  | identifier name => exact kin.pure name
  | _ => exact kin.refuse .parameter token

theorem literal : related a.literal b.literal := by
  apply kin.bind (kin.take .expression)
  intro token
  cases token.kind with
  | operator _ | punctuation _ => exact kin.refuse .expression token
  | keyword word =>
      cases word with
      | trueWord | falseWord => exact kin.pure _
      | _ => exact kin.refuse .expression token
  | _ => exact kin.pure _

section Operands

variable {inner : m Node} {other : n Node}

theorem group (inners : related inner other) : related (a.group inner) (b.group other) := by
  apply kin.bind (kin.mark '(')
  intro _
  apply kin.bind inners
  intro node
  exact kin.bind (kin.mark ')') fun _ => kin.pure node

theorem block (inners : related inner other) : related (a.block inner) (b.block other) :=
  kin.bind (kin.enclosed inners _ _ _) fun _ => kin.pure _

theorem conditional (inners : related inner other) :
    related (a.conditional inner) (b.conditional other) := by
  have alternative : related (a.alternative inner) (b.alternative other) := by
    apply kin.bind kin.ahead
    intro next
    apply related_if
    · exact kin.bind (kin.take .expression) fun _ => kin.bind inners fun _ => kin.pure _
    · exact kin.pure none
  apply kin.bind inners
  intro condition
  apply kin.bind (kin.demand _ _)
  intro _
  apply kin.bind inners
  intro branch
  apply kin.bind alternative
  intro found
  cases found <;> exact kin.pure _

theorem function (inners : related inner other) : related (a.function inner) (b.function other) :=
  kin.bind (kin.enclosed kin.parameter _ _ _) fun _ => kin.bind inners fun _ => kin.pure _

theorem primary (inners : related inner other) : related (a.primary inner) (b.primary other) := by
  apply kin.bind kin.ahead
  intro next
  cases next with
  | none => exact kin.literal
  | some kind =>
      cases kind with
      | punctuation c =>
          exact related_if (kin.group inners) (related_if (kin.block inners) kin.literal)
      | keyword word =>
          cases word with
          | ifWord => exact kin.bind (kin.take .expression) fun _ => kin.conditional inners
          | defWord => exact kin.bind (kin.take .expression) fun _ => kin.function inners
          | _ => exact kin.literal
      | _ => exact kin.literal

theorem operandOver (inners : related inner other) :
    related (a.operandOver inner) (b.operandOver other) := by
  apply kin.bind (kin.primary inners)
  intro node
  exact kin.loop _ (fun _ _ => kin.bind (kin.enclosed inners _ _ _) fun _ => kin.pure _) node

end Operands

theorem climbOver {operand : m Node} {other : n Node} {rise : Nat → Node → m Node}
    {climb : Nat → Node → n Node} (operands : related operand other)
    (rises : ∀ floor left, related (rise floor left) (climb floor left)) (floor : Nat) (left : Node) :
    related (a.climbOver operand rise floor left) (b.climbOver other climb floor left) := by
  apply kin.loop
  intro op left
  apply kin.bind (kin.take .expression)
  intro _
  apply kin.bind operands
  intro next
  exact kin.bind (rises op.rightFloor next) fun _ => kin.pure _

theorem level (limit level : Nat) :
    related (a.expression limit level) (b.expression limit level) ∧
      ∀ floor left, related (a.climb limit level floor left) (b.climb limit level floor left) := by
  induction level with
  | zero =>
      refine ⟨kin.tooDeep limit, fun floor left => ?_⟩
      exact kin.climbOver (kin.tooDeep limit) (fun _ _ => kin.tooDeep limit) floor left
  | succ level ih =>
      have operands := kin.operandOver ih.1
      have climbs := kin.climbOver operands ih.2
      exact ⟨kin.bind operands (climbs 0), climbs⟩

theorem program (limit : Nat) : related (a.program limit) (b.program limit) :=
  kin.items (kin.level limit limit).1 ';' Option.isNone

end Kin

end ScriptReader
