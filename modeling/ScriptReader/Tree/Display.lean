import ScriptReader.Text.Quoted
import ScriptReader.Tree.Node

/-!
Trees written out as nested lists, the operator or the word for the form first: `(+ 1 (* 2 3))`.
-/

set_option autoImplicit false

namespace ScriptReader

def Label.opening : Label → String
  | .number text => text
  | .string value => Quoted.string value
  | .character value => Quoted.character value
  | .bool value => if value then "true" else "false"
  | .identifier name => name
  | .operation operator => "(" ++ operator.symbol ++ " "
  | .call _ => "(call "
  | .function parameters => "(def (" ++ " ".intercalate parameters ++ ") "
  | .conditional _ => "(if "
  | .block _ => "\x7b"

def Label.closing : Label → String
  | .number _ | .string _ | .character _ | .bool _ | .identifier _ => ""
  | .operation _ | .call _ | .function _ | .conditional _ => ")"
  | .block _ => "\x7d"

namespace Node

inductive Pending where
  | closing (text : String)
  | first (node : Node)
  | further (node : Node)

@[simp] def Pending.weight : Pending → Nat
  | .closing _ => 1
  | .first node | .further node => 2 * node.size

def queue : List Node → List Pending
  | [] => []
  | node :: nodes => .first node :: nodes.map .further

@[simp] def weights : List Pending → Nat
  | [] => 0
  | part :: pending => part.weight + weights pending

@[simp] theorem weights_append (a b : List Pending) : weights (a ++ b) = weights a + weights b := by
  induction a with
  | nil => simp
  | cons part a ih => simp only [List.cons_append, weights, ih]; omega

@[simp] theorem weights_queue (nodes : List Node) : weights (queue nodes) = 2 * sizes nodes := by
  have further : ∀ nodes : List Node, weights (nodes.map Pending.further) = 2 * sizes nodes := by
    intro nodes
    induction nodes with
    | nil => rfl
    | cons node nodes ih =>
        simp only [List.map_cons, weights, sizes, ih, Pending.weight]
        omega
  cases nodes with
  | nil => rfl
  | cons node nodes =>
      simp only [queue, weights, sizes, further, Pending.weight]
      omega

def writeOnto (written : String) : List Pending → String
  | [] => written
  | .closing text :: pending => writeOnto (written ++ text) pending
  | .first node :: pending =>
      writeOnto (written ++ node.label.opening)
        (queue node.children ++ .closing node.label.closing :: pending)
  | .further node :: pending =>
      writeOnto (written ++ " " ++ node.label.opening)
        (queue node.children ++ .closing node.label.closing :: pending)
termination_by pending => weights pending
decreasing_by
  · simp
  all_goals
    simp
    omega

def display (node : Node) : String := writeOnto "" [.first node]

@[simp] def Pending.text : Pending → String
  | .closing text => text
  | .first node => node.display
  | .further node => " " ++ node.display

@[simp] def texts : List Pending → String
  | [] => ""
  | part :: pending => part.text ++ texts pending

@[simp] theorem texts_append (a b : List Pending) : texts (a ++ b) = texts a ++ texts b := by
  induction a with
  | nil => simp
  | cons part a ih => simp [ih, String.append_assoc]

theorem write_onto_eq (written : String) (pending : List Pending) :
    writeOnto written pending = written ++ texts pending := by
  match pending with
  | [] => simp [writeOnto]
  | .closing text :: pending =>
      rw [writeOnto, write_onto_eq]
      simp [String.append_assoc]
  | .first node :: pending =>
      rw [writeOnto, write_onto_eq, texts, Pending.text, display, writeOnto, write_onto_eq]
      simp [String.append_assoc]
  | .further node :: pending =>
      rw [writeOnto, write_onto_eq, texts, Pending.text, display, writeOnto, write_onto_eq]
      simp [String.append_assoc]
termination_by weights pending
decreasing_by
  · simp
  all_goals
    simp
    omega

theorem texts_queue (nodes : List Node) :
    texts (queue nodes) = " ".intercalate (nodes.map display) := by
  have further : ∀ (nodes : List Node) (node : Node),
      node.display ++ texts (nodes.map .further) = " ".intercalate ((node :: nodes).map display) := by
    intro nodes
    induction nodes with
    | nil => intro node; simp
    | cons next nodes ih =>
        intro node
        have rest := ih next
        rw [List.map_cons] at rest
        rw [List.map_cons, List.map_cons, List.map_cons, String.intercalate_cons_cons, ← rest]
        simp [String.append_assoc]
  cases nodes with
  | nil => simp [queue]
  | cons node nodes => exact further nodes node

theorem display_eq (node : Node) :
    node.display = node.label.opening ++ " ".intercalate (node.children.map display) ++
      node.label.closing := by
  rw [display, writeOnto, write_onto_eq]
  simp [texts_queue, String.append_assoc]

end Node

end ScriptReader
