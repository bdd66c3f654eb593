import ScriptReader.Tree.Node

/-!
Equality of trees, decided on their lists of labels, each node before its children. The walks keep the
pending trees in a list of their own, so that no depth of a tree is a depth of the walk.
-/

set_option autoImplicit false

namespace ScriptReader.Node

def preorderOnto (done : List Label) : List Node → List Label
  | [] => done.reverse
  | node :: pending => preorderOnto (node.label :: done) (node.children ++ pending)
termination_by pending => sizes pending
decreasing_by simp

def preorder (node : Node) : List Label := preorderOnto [] [node]

def stackUp (label : Label) (stack : List Node) : Option (List Node) :=
  let (children, others) := stack.splitAt label.arity
  (ofLabel? label children).map fun node => node :: others

-- Reads the labels from the last to the first and keeps completed trees on a stack.
def ofPreorder? (labels : List Label) : Option Node :=
  match labels.foldr (fun label stack => stack.bind (stackUp label)) (some []) with
  | some [node] => some node
  | _ => none

theorem preorder_onto_eq (done : List Label) (pending : List Node) :
    preorderOnto done pending = done.reverse ++ pending.flatMap preorder := by
  match pending with
  | [] => simp [preorderOnto]
  | node :: pending =>
      rw [preorderOnto, preorder_onto_eq, List.flatMap_cons, preorder, preorderOnto, preorder_onto_eq]
      simp
termination_by sizes pending
decreasing_by
  · simp
  · simp
    omega

theorem preorder_eq (node : Node) :
    node.preorder = node.label :: node.children.flatMap preorder := by
  rw [preorder, preorderOnto, preorder_onto_eq]
  simp

theorem stack_up_node (node : Node) (stack : List Node) :
    stackUp node.label (node.children ++ stack) = some (node :: stack) := by
  simp [stackUp]

theorem stack_preorder (node : Node) (stack : List Node) :
    node.preorder.foldr (fun label stack => stack.bind (stackUp label)) (some stack) =
      some (node :: stack) := by
  induction node using children_induction generalizing stack with
  | step node ih =>
      have forest : ∀ nodes : List Node, (∀ child ∈ nodes, child ∈ node.children) →
          (nodes.flatMap preorder).foldr (fun label stack => stack.bind (stackUp label))
            (some stack) = some (nodes ++ stack) := by
        intro nodes
        induction nodes with
        | nil => exact fun _ => rfl
        | cons child nodes more =>
            intro inside
            rw [List.flatMap_cons, List.foldr_append,
              more fun other member => inside other (by simp [member]),
              ih child (inside child (by simp))]
            rfl
      rw [preorder_eq, List.foldr_cons, forest node.children fun _ member => member]
      exact stack_up_node node stack

@[simp] theorem of_preorder_preorder (node : Node) : ofPreorder? node.preorder = some node := by
  simp [ofPreorder?, stack_preorder]

theorem preorder_injective (a b : Node) (same : a.preorder = b.preorder) : a = b := by
  have read := congrArg ofPreorder? same
  simpa using read

instance : DecidableEq Node := fun a b =>
  decidable_of_iff ((a.preorder == b.preorder) = true)
    ⟨fun same => preorder_injective a b (eq_of_beq same), fun same => by simp [same]⟩

end ScriptReader.Node
