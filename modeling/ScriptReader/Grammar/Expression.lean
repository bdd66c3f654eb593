import ScriptReader.Grammar.Sequence
import ScriptReader.Tree.Node

/-!
Operators join operands by precedence climbing. Operands and right operands each take one nesting
level from an allowance, and an operand without a level left is too deep.
-/

set_option autoImplicit false

namespace ScriptReader.Rule

-- The rule for an expression inside another one; its flag tells whether the next token has been
-- looked at.
abbrev Inner := Bool → Rule Node

def group (inner : Inner) : Rule Node := fun tokens => do
  let (_, tokens) ← mark '(' tokens
  let (node, tokens) ← inner false tokens
  let (_, tokens) ← mark ')' tokens
  return (node, tokens)

def block (inner : Inner) : Rule Node := fun tokens => do
  let (statements, tokens) ← enclosed '\x7b' '\x7d' ';' (inner true) tokens
  return (.block statements, tokens)

def alternative (inner : Inner) : Rule (Option Node)
  | .keyword .elseWord :: tokens => do
      let (node, tokens) ← inner false tokens
      return (some node, tokens)
  | tokens => .ok (none, tokens)

-- The branch is any expression that opens with a block.
def conditional (inner : Inner) : Rule Node := fun tokens => do
  let (condition, tokens) ← inner false tokens
  if opensWith '\x7b' tokens then
    let (branch, tokens) ← inner true tokens
    let (other, tokens) ← alternative inner tokens
    match other with
    | none => return (.ifThen condition branch, tokens)
    | some other => return (.ifElse condition branch other, tokens)
  else missing .branch tokens

def parameter : Rule String
  | .identifier name :: tokens => .ok (name, tokens)
  | tokens => missing .parameter tokens

def function (inner : Inner) : Rule Node := fun tokens => do
  let (parameters, tokens) ← enclosed '(' ')' ',' parameter tokens
  let (body, tokens) ← inner false tokens
  return (.function parameters body, tokens)

def reserved (inner : Inner) (word : Keyword) : Rule Node := fun tokens =>
  match word with
  | .trueWord => .ok (.bool true, tokens)
  | .falseWord => .ok (.bool false, tokens)
  | .ifWord => conditional inner tokens
  | .defWord => function inner tokens
  | _ => missing .expression (.keyword word :: tokens)

def primary (inner : Inner) : Rule Node
  | .number text :: tokens => .ok (.number text, tokens)
  | .string value :: tokens => .ok (.string value, tokens)
  | .character value :: tokens => .ok (.character value, tokens)
  | .identifier name :: tokens => .ok (.identifier name, tokens)
  | .keyword word :: tokens => reserved inner word tokens
  | .punctuation c :: tokens =>
      if c = '(' then group inner (.punctuation c :: tokens)
      else if c = '\x7b' then block inner (.punctuation c :: tokens)
      else missing .expression (.punctuation c :: tokens)
  | .operator symbol :: tokens => missing .expression (.operator symbol :: tokens)
  | [] => missing .expression []

def furtherCall (inner : Inner) : Step Node := fun callee tokens =>
  if opensWith '(' tokens then do
    let (arguments, tokens) ← enclosed '(' ')' ',' (inner true) tokens
    return some (.call callee arguments, tokens)
  else .ok none

def operandOver (inner : Inner) : Rule Node := fun tokens => do
  let (node, tokens) ← primary inner tokens
  repeatedly (furtherCall inner) node tokens

def operatorAbove (floor : Nat) : List TokenKind → Option (Operator × List TokenKind)
  | .operator symbol :: tokens =>
      match Operator.ofSymbol? symbol with
      | some op => if floor < op.precedence then some (op, tokens) else none
      | none => none
  | _ => none

-- `rise` climbs on from the operand behind the operator, above another floor.
def furtherOperation (operand : Rule Node) (rise : Nat → Node → Rule Node) (floor : Nat) :
    Step Node := fun left tokens =>
  match operatorAbove floor tokens with
  | none => .ok none
  | some (op, tokens) => do
      let (next, tokens) ← operand tokens
      let (right, tokens) ← rise op.rightFloor next tokens
      return some (.operation op left right, tokens)

def climbOver (operand : Rule Node) (rise : Nat → Node → Rule Node) (floor : Nat) (left : Node) :
    Rule Node :=
  repeatedly (furtherOperation operand rise floor) left

mutual
def expression : (level : Nat) → Inner
  | 0, looked, tokens => tooDeep looked tokens
  | level + 1, _, tokens => do
      let (left, tokens) ← operandOver (expression level) tokens
      climbOver (operandOver (expression level)) (climb level) 0 left tokens
def climb : (level floor : Nat) → Node → Rule Node
  | 0, floor, left, tokens =>
      climbOver (tooDeep false) (fun _ _ => tooDeep true) floor left tokens
  | level + 1, floor, left, tokens =>
      climbOver (operandOver (expression level)) (climb level) floor left tokens
end

-- An operand takes one level for all that is inside it.
def operand : (level : Nat) → Inner
  | 0, looked, tokens => tooDeep looked tokens
  | level + 1, _, tokens => operandOver (expression level) tokens

theorem expression_eq (level : Nat) (looked : Bool) (tokens : List TokenKind) :
    expression level looked tokens =
      (operand level looked tokens).bind fun (left, tokens) => climb level 0 left tokens := by
  cases level with
  | zero => rfl
  | succ level =>
      simp only [expression, operand, climb]
      rfl

theorem climb_succ (level floor : Nat) (left : Node) :
    climb (level + 1) floor left = climbOver (operand (level + 1) false) (climb level) floor left := by
  funext tokens
  simp only [climb]
  rfl

def program (level : Nat) : Rule (List Node) :=
  elements (expression level true) ';' List.isEmpty

end ScriptReader.Rule
