import ScriptReader.Proofs.Phrase.Rules
import ScriptReader.Proofs.Program.Outcome

set_option autoImplicit false

namespace ScriptReader

-- Chains of left operands and of callees are read by loops, so that their steps are free.
inductive Edge where
  | statement
  | left
  | right
  | callee
  | argument
  | body
  | condition
  | branch
  | alternative
deriving DecidableEq, Repr

def Edge.nests : Edge → Bool
  | .left | .callee => false
  | _ => true

namespace Node

def edges : Node → List (Edge × Node)
  | .number _ | .string _ | .character _ | .bool _ | .identifier _ => []
  | .operation _ left right => [(.left, left), (.right, right)]
  | .call callee arguments => (.callee, callee) :: arguments.map fun argument => (.argument, argument)
  | .function _ body => [(.body, body)]
  | .ifThen condition branch => [(.condition, condition), (.branch, branch)]
  | .ifElse condition branch alternative =>
      [(.condition, condition), (.branch, branch), (.alternative, alternative)]
  | .block statements => statements.map fun statement => (.statement, statement)

theorem edges_children (node : Node) : node.edges.map Prod.snd = node.children := by
  cases node <;> simp [edges, children, Function.comp_def]

inductive Descends : Node → List Edge → Node → Prop where
  | here (node : Node) : Descends node [] node
  | down {node child target : Node} {edge : Edge} {path : List Edge}
      (step : (edge, child) ∈ node.edges) (further : Descends child path target) :
      Descends node (edge :: path) target

def NestsWithin (bound : Nat) (node : Node) : Prop :=
  ∀ path target, Descends node path target → path.countP Edge.nests ≤ bound

def NestsBelow (bound : Nat) (node : Node) : Prop := ∃ below, below < bound ∧ node.NestsWithin below

theorem nests_within_of_edges {node : Node} {bound : Nat}
    (each : ∀ edge child, (edge, child) ∈ node.edges →
      if edge.nests then child.NestsBelow bound else child.NestsWithin bound) :
    node.NestsWithin bound := by
  intro path target descends
  cases descends with
  | here => exact Nat.zero_le _
  | @down _ child _ edge path step further =>
      have inside := each edge child step
      rw [List.countP_cons]
      cases nests : edge.nests with
      | false =>
          rw [nests] at inside
          simpa using inside path target further
      | true =>
          rw [nests] at inside
          obtain ⟨below, less, within⟩ := inside
          have fewer := within path target further
          simp only [if_true]
          omega

theorem nests_within_of_below {node : Node} {bound : Nat} (below : node.NestsBelow bound) :
    node.NestsWithin bound := by
  obtain ⟨fewer, less, within⟩ := below
  intro path target descends
  exact Nat.le_trans (within path target descends) (Nat.le_of_lt less)

theorem nests_within_of_children {node : Node} {bound : Nat}
    (each : ∀ child ∈ node.children, child.NestsBelow bound) : node.NestsWithin bound := by
  refine nests_within_of_edges fun edge child step => ?_
  have below := each child (edges_children node ▸ List.mem_map_of_mem step)
  split
  · exact below
  · exact nests_within_of_below below

theorem nests_within_operation {op : Operator} {left right : Node} {bound : Nat}
    (first : left.NestsWithin bound) (second : right.NestsBelow bound) :
    (operation op left right).NestsWithin bound := by
  refine nests_within_of_edges fun edge child step => ?_
  simp only [edges, List.mem_cons, Prod.mk.injEq, List.not_mem_nil, or_false] at step
  rcases step with ⟨rfl, rfl⟩ | ⟨rfl, rfl⟩
  · exact first
  · exact second

theorem nests_within_call {callee : Node} {arguments : List Node} {bound : Nat}
    (first : callee.NestsWithin bound) (others : ∀ node ∈ arguments, node.NestsBelow bound) :
    (call callee arguments).NestsWithin bound := by
  refine nests_within_of_edges fun edge child step => ?_
  rcases List.mem_cons.mp step with same | argument
  · cases same
    exact first
  · obtain ⟨_, member, same⟩ := List.mem_map.mp argument
    cases same
    exact others child member

end Node

namespace Phrase

open Rule Node

variable {bound : Nat}

section Levels

variable {inner : Phrase Node}

theorem further_nests {separator : Char} {ends : List TokenKind → Bool}
    (below : ∀ tokens node rest, inner tokens node rest → node.NestsBelow bound)
    {tokens rest : List TokenKind} {nodes : List Node}
    (further : Further inner separator ends tokens nodes rest) : ∀ node ∈ nodes, node.NestsBelow bound := by
  induction further with
  | done _ | trailing _ => exact fun _ member => absurd member List.not_mem_nil
  | next _ read _ ih => exact List.forall_mem_cons.mpr ⟨below _ _ _ read, ih⟩

theorem listed_nests {separator : Char} {ends : List TokenKind → Bool}
    (below : ∀ tokens node rest, inner tokens node rest → node.NestsBelow bound)
    {tokens rest : List TokenKind} {nodes : List Node}
    (listed : Listed inner separator ends tokens nodes rest) : ∀ node ∈ nodes, node.NestsBelow bound := by
  cases listed with
  | none _ => exact fun _ member => absurd member List.not_mem_nil
  | some _ read later => exact List.forall_mem_cons.mpr ⟨below _ _ _ read, further_nests below later⟩

theorem primary_nests (below : ∀ tokens node rest, inner tokens node rest → node.NestsBelow bound)
    {tokens rest : List TokenKind} {node : Node} (primary : Primary inner tokens node rest) :
    node.NestsWithin bound := by
  cases primary with
  | number | string | character | identifier | yes | no =>
      exact nests_within_of_children fun _ member => absurd member List.not_mem_nil
  | group read => exact nests_within_of_below (below _ _ _ read)
  | block enclosed =>
      obtain ⟨listed⟩ := enclosed
      exact nests_within_of_children (listed_nests below listed)
  | function listed read =>
      exact nests_within_of_children (List.forall_mem_singleton.mpr (below _ _ _ read))
  | ifThen first opens second alone =>
      refine nests_within_of_children ?_
      simp only [children, List.forall_mem_cons]
      exact ⟨below _ _ _ first, below _ _ _ second, fun _ member => absurd member List.not_mem_nil⟩
  | ifElse first opens second third =>
      refine nests_within_of_children ?_
      simp only [children, List.forall_mem_cons]
      exact ⟨below _ _ _ first, below _ _ _ second, below _ _ _ third,
        fun _ member => absurd member List.not_mem_nil⟩

theorem operand_nests (below : ∀ tokens node rest, inner tokens node rest → node.NestsBelow bound)
    {tokens rest : List TokenKind} {node : Node} (operand : Operand inner tokens node rest) :
    node.NestsWithin bound := by
  obtain ⟨primary, calls⟩ := operand
  have begun := primary_nests below primary
  clear primary
  induction calls with
  | done _ => exact begun
  | further enclosed later ih =>
      obtain ⟨listed⟩ := enclosed
      exact ih (nests_within_call begun (listed_nests below listed))

end Levels

theorem climbing_nests {operand : Phrase Node} {rise : Nat → Node → Phrase Node} {floor : Nat}
    {left node : Node} {tokens rest : List TokenKind}
    (rights : ∀ a b next right behind rest floor, operand a next behind → rise floor next b right rest →
      right.NestsBelow bound)
    (climbing : Climbing operand rise floor left tokens node rest) (within : left.NestsWithin bound) :
    node.NestsWithin bound := by
  induction climbing with
  | done _ => exact within
  | further op above read risen later ih =>
      exact ih (nests_within_operation within (rights _ _ _ _ _ _ _ read risen))

-- An operand behind an operator does not take the level of the right operand it is in, so that an
-- operand and the right operands around it need two steps for a level.
theorem level_nests (level : Nat) :
    (∀ tokens node rest, Expression level tokens node rest → node.NestsBelow (2 * level)) ∧
      ∀ bound, 2 * level ≤ bound + 1 → ∀ floor left tokens node rest, left.NestsWithin bound →
        Climb level floor left tokens node rest → node.NestsWithin bound := by
  induction level with
  | zero =>
      rw [expression_zero, climb_zero]
      refine ⟨fun _ _ _ read => read.elim, fun bound _ floor left tokens node rest within climbing => ?_⟩
      exact climbing_nests (fun _ _ _ _ _ _ _ read => read.elim) climbing within
  | succ level ih =>
      have climbs : ∀ bound, 2 * (level + 1) ≤ bound + 1 → ∀ floor left tokens node rest,
          left.NestsWithin bound → Climb (level + 1) floor left tokens node rest →
          node.NestsWithin bound := by
        intro bound enough floor left tokens node rest within climbing
        rw [climb_succ] at climbing
        refine climbing_nests (fun _ _ next right _ _ floor read risen => ?_) climbing within
        have operand := operand_nests ih.1 read
        exact ⟨2 * level, by omega, ih.2 (2 * level) (by omega) floor next _ _ _ operand risen⟩
      refine ⟨fun tokens node rest read => ?_, climbs⟩
      obtain ⟨a, b, first, rfl, opened, climbed⟩ := (expression_succ _ _ _ _).mp read
      have within : first.NestsWithin (2 * level + 1) :=
        nests_within_of_below ⟨2 * level, Nat.lt_succ_self _, operand_nests ih.1 opened⟩
      exact ⟨2 * level + 1, Nat.lt_succ_self _, climbs _ (Nat.le_refl _) 0 first _ _ _ within climbed⟩

theorem program_nests {limit : Nat} {tokens rest : List TokenKind} {statements : List Node}
    (read : program limit tokens = .ok (statements, rest)) :
    (Node.block statements).NestsWithin (2 * limit) := by
  obtain ⟨taken, _, listed⟩ := (program_reads limit).takes _ _ _ read
  exact nests_within_of_children (listed_nests (level_nests limit).1 listed)

end Phrase

theorem nesting_within_limit (limit : Nat) (source : String) (tree : Node)
    (parsed : parseWithin limit source = .ok tree) (path : List Edge) (node : Node)
    (descends : tree.Descends path node) :
    path.countP Edge.nests ≤ 2 * limit ∧
      path.length ≤ 2 * limit + path.countP fun edge => edge = .left ∨ edge = .callee := by
  obtain ⟨tokens, statements, _, rfl, read⟩ := (parse_within_ok_iff _ _ _).mp parsed
  have bound := Phrase.program_nests read path node descends
  have free : (path.countP fun edge => edge = .left ∨ edge = .callee) =
      path.countP fun edge => !edge.nests := by
    refine List.countP_congr fun edge _ => ?_
    cases edge <;> decide
  have steps := List.length_eq_countP_add_countP (l := path) Edge.nests
  rw [free]
  simp only [Bool.not_eq_true, Bool.decide_eq_false] at steps
  exact ⟨bound, by omega⟩

theorem right_operand_in_argument :
    ∃ tree node, parseWithin 2 "a = f(b = c)" = .ok tree ∧
      tree.Descends [.statement, .right, .argument, .right] node ∧
      [Edge.statement, .right, .argument, .right].countP Edge.nests = 4 ∧
      [Edge.statement, .right, .argument, .right].countP Edge.nests ≤ 2 * 2 := by
  have parsed : parseWithin 2 "a = f(b = c)" = .ok (.block [.operation .assign (.identifier "a")
      (.call (.identifier "f") [.operation .assign (.identifier "b") (.identifier "c")])]) := by
    with_unfolding_all rfl
  have inner : Node.Descends (.operation .assign (.identifier "b") (.identifier "c")) [.right]
      (.identifier "c") := .down (.tail _ (.head _)) (.here _)
  have called : Node.Descends (.call (.identifier "f")
      [.operation .assign (.identifier "b") (.identifier "c")]) [.argument, .right] (.identifier "c") :=
    .down (.tail _ (.head _)) inner
  have assigned : Node.Descends (.operation .assign (.identifier "a") (.call (.identifier "f")
      [.operation .assign (.identifier "b") (.identifier "c")])) [.right, .argument, .right]
      (.identifier "c") := .down (.tail _ (.head _)) called
  have descends : Node.Descends (.block [.operation .assign (.identifier "a") (.call (.identifier "f")
      [.operation .assign (.identifier "b") (.identifier "c")])]) [.statement, .right, .argument, .right]
      (.identifier "c") := .down (.head _) assigned
  exact ⟨_, _, parsed, descends, rfl, (nesting_within_limit 2 _ _ parsed _ _ descends).1⟩

end ScriptReader
