import ScriptReader.Tree.Operator

set_option autoImplicit false

namespace ScriptReader

inductive Node where
  | number (text : String)
  | string (value : String)
  | character (value : Char)
  | bool (value : Bool)
  | identifier (name : String)
  | operation (operator : Operator) (left right : Node)
  | call (callee : Node) (arguments : List Node)
  | function (parameters : List String) (body : Node)
  | ifThen (condition branch : Node)
  | ifElse (condition branch alternative : Node)
  -- Statements between braces, and the whole program.
  | block (statements : List Node)

inductive Label where
  | number (text : String)
  | string (value : String)
  | character (value : Char)
  | bool (value : Bool)
  | identifier (name : String)
  | operation (operator : Operator)
  | call (arguments : Nat)
  | function (parameters : List String)
  | conditional (alternative : Bool)
  | block (statements : Nat)
deriving DecidableEq, Repr

def Label.arity : Label → Nat
  | .number _ | .string _ | .character _ | .bool _ | .identifier _ => 0
  | .operation _ => 2
  | .call arguments => arguments + 1
  | .function _ => 1
  | .conditional alternative => if alternative then 3 else 2
  | .block statements => statements

namespace Node

instance : Inhabited Node := ⟨.block []⟩

def statements? : Node → Option (List Node)
  | .block statements => some statements
  | _ => none

def label : Node → Label
  | .number text => .number text
  | .string value => .string value
  | .character value => .character value
  | .bool value => .bool value
  | .identifier name => .identifier name
  | .operation operator _ _ => .operation operator
  | .call _ arguments => .call arguments.length
  | .function parameters _ => .function parameters
  | .ifThen _ _ => .conditional false
  | .ifElse _ _ _ => .conditional true
  | .block statements => .block statements.length

def children : Node → List Node
  | .number _ | .string _ | .character _ | .bool _ | .identifier _ => []
  | .operation _ left right => [left, right]
  | .call callee arguments => callee :: arguments
  | .function _ body => [body]
  | .ifThen condition branch => [condition, branch]
  | .ifElse condition branch alternative => [condition, branch, alternative]
  | .block statements => statements

def ofLabel? (label : Label) (children : List Node) : Option Node :=
  match label, children with
  | .number text, [] => some (.number text)
  | .string value, [] => some (.string value)
  | .character value, [] => some (.character value)
  | .bool value, [] => some (.bool value)
  | .identifier name, [] => some (.identifier name)
  | .operation operator, [left, right] => some (.operation operator left right)
  | .call count, callee :: arguments =>
      if arguments.length = count then some (.call callee arguments) else none
  | .function parameters, [body] => some (.function parameters body)
  | .conditional false, [condition, branch] => some (.ifThen condition branch)
  | .conditional true, [condition, branch, alternative] =>
      some (.ifElse condition branch alternative)
  | .block count, statements =>
      if statements.length = count then some (.block statements) else none
  | _, _ => none

@[simp] theorem of_label (node : Node) : ofLabel? node.label node.children = some node := by
  cases node <;> simp [label, children, ofLabel?]

@[simp] theorem label_arity (node : Node) : node.label.arity = node.children.length := by
  cases node <;> simp [label, children, Label.arity]

mutual
def size : Node → Nat
  | .number _ | .string _ | .character _ | .bool _ | .identifier _ => 1
  | .operation _ left right => 1 + left.size + right.size
  | .call callee arguments => 1 + callee.size + sizes arguments
  | .function _ body => 1 + body.size
  | .ifThen condition branch => 1 + condition.size + branch.size
  | .ifElse condition branch alternative =>
      1 + condition.size + branch.size + alternative.size
  | .block statements => 1 + sizes statements
@[simp] def sizes : List Node → Nat
  | [] => 0
  | node :: nodes => node.size + sizes nodes
end

@[simp] theorem size_eq (node : Node) : node.size = 1 + sizes node.children := by
  cases node <;> simp [size, children] <;> omega

@[simp] theorem sizes_append (a b : List Node) : sizes (a ++ b) = sizes a + sizes b := by
  induction a with
  | nil => simp
  | cons node a ih => simp only [List.cons_append, sizes, ih]; omega

theorem size_le_of_mem (node : Node) (nodes : List Node) (member : node ∈ nodes) :
    node.size ≤ sizes nodes := by
  induction nodes with
  | nil => cases member
  | cons first nodes ih =>
      rcases List.mem_cons.mp member with rfl | later
      · simp only [sizes]; omega
      · have := ih later
        simp only [sizes]
        omega

theorem child_size (node child : Node) (member : child ∈ node.children) :
    child.size < node.size := by
  have := size_le_of_mem child node.children member
  rw [size_eq node]
  omega

theorem children_induction {motive : Node → Prop}
    (step : ∀ node, (∀ child ∈ node.children, motive child) → motive node) (node : Node) :
    motive node :=
  step node fun child _member => children_induction step child
termination_by node.size
decreasing_by exact child_size node child _member

end Node

end ScriptReader
