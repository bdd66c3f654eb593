import ScriptReader.Proofs.Chain.Climb
import ScriptReader.Proofs.Chain.Nesting
import ScriptReader.Proofs.Grammar.Guard
import ScriptReader.Proofs.Phrase.Program
import ScriptReader.Proofs.Program.Outcome

set_option autoImplicit false

namespace ScriptReader

open Rule Phrase

inductive Atom where
  | number (text : String)
  | string (value : String)
  | character (value : Char)
  | identifier (name : String)
  | bool (value : Bool)
deriving DecidableEq, Repr

namespace Atom

def kind : Atom → TokenKind
  | .number text => .number text
  | .string value => .string value
  | .character value => .character value
  | .identifier name => .identifier name
  | .bool true => .keyword .trueWord
  | .bool false => .keyword .falseWord

def node : Atom → Node
  | .number text => .number text
  | .string value => .string value
  | .character value => .character value
  | .identifier name => .identifier name
  | .bool value => .bool value

theorem primary_kind (inner : Phrase Node) (atom : Atom) (rest : List TokenKind) :
    Primary inner [atom.kind] atom.node rest := by
  cases atom with
  | number text => exact .number text rest
  | string value => exact .string value rest
  | character value => exact .character value rest
  | identifier name => exact .identifier name rest
  | bool value => cases value with
    | false => exact .no rest
    | true => exact .yes rest

theorem node_flat (atom : Atom) : atom.node.rightDepth = 0 := by
  cases atom <;> rfl

end Atom

structure Called where
  atom : Atom
  calls : Nat
deriving DecidableEq, Repr

namespace Called

def callTokens : Nat → List TokenKind
  | 0 => []
  | count + 1 => .punctuation '(' :: .punctuation ')' :: callTokens count

def callNode : Nat → Node → Node
  | 0, callee => callee
  | count + 1, callee => callNode count (.call callee [])

def tokens (operand : Called) : List TokenKind := operand.atom.kind :: callTokens operand.calls

def node (operand : Called) : Node := callNode operand.calls operand.atom.node

theorem calls_call_tokens (inner : Phrase Node) (count : Nat) (callee : Node)
    (rest : List TokenKind) (apart : opensWith '(' rest = false) :
    Calls inner callee (callTokens count) (callNode count callee) rest := by
  induction count generalizing callee with
  | zero => exact .done apart
  | succ count ih =>
      have none : Listed inner ',' (opensWith ')') [] [] (.punctuation ')' :: (callTokens count ++ rest)) :=
        .none rfl
      exact .further (.mk none) (ih (.call callee []))

theorem operand_tokens (inner : Phrase Node) (operand : Called) (rest : List TokenKind)
    (apart : opensWith '(' rest = false) : Operand inner operand.tokens operand.node rest :=
  .mk (operand.atom.primary_kind inner _) (calls_call_tokens inner operand.calls _ rest apart)

theorem node_flat (operand : Called) : operand.node.rightDepth = 0 := by
  have general : ∀ (count : Nat) (callee : Node), callee.rightDepth = 0 →
      (callNode count callee).rightDepth = 0 := by
    intro count
    induction count with
    | zero => exact fun _ flat => flat
    | succ count ih => exact fun callee flat => ih _ (by simp [Node.rightDepth, Node.rightDepths, flat])
  exact general operand.calls _ operand.atom.node_flat

end Called

structure OperatorChain where
  first : Called
  later : List (Operator × Called)
deriving DecidableEq, Repr

namespace OperatorChain

def links (chain : OperatorChain) : List Link :=
  chain.later.map fun (op, operand) => ⟨op, operand.tokens, operand.node⟩

def tokens (chain : OperatorChain) : List TokenKind := chain.first.tokens ++ Link.spelled chain.links

def tree (chain : OperatorChain) : Node := Link.reference chain.first.node chain.links

theorem tree_right_depth (chain : OperatorChain) : chain.tree.rightDepth = Link.depth chain.links := by
  refine Link.reference_nesting _ _ chain.first.node_flat fun link inside => ?_
  obtain ⟨⟨op, operand⟩, _, rfl⟩ := List.mem_map.mp inside
  exact operand.node_flat

theorem tree_of_binary (chain : OperatorChain)
    (binary : ∀ step ∈ chain.later, step.1.isAssignment = false) : chain.tree.rightDepth ≤ 5 := by
  have each : ∀ link ∈ chain.links, link.op.isAssignment = false := by
    intro link inside
    obtain ⟨step, member, rfl⟩ := List.mem_map.mp inside
    exact binary step member
  rw [tree_right_depth]
  exact Link.depth_of_binary chain.links 0 each fun link _ => link.op.precedence_pos

theorem spelled_apart (links : List Link) (rest : List TokenKind) (apart : opensWith '(' rest = false) :
    opensWith '(' (Link.spelled links ++ rest) = false := by
  cases links with
  | nil => exact apart
  | cons link links => rw [Link.spelled_cons]; rfl

theorem links_readable (later : List (Operator × Called)) (rest : List TokenKind)
    (apart : opensWith '(' rest = false) :
    Link.Readable 0 rest (later.map fun (op, operand) => ⟨op, operand.tokens, operand.node⟩) := by
  induction later with
  | nil => trivial
  | cons step later ih =>
      refine ⟨fun level _ => step.2.operand_tokens _ _ ?_, ih⟩
      exact spelled_apart _ rest apart

theorem expression_tokens (chain : OperatorChain) (level : Nat) (rest : List TokenKind)
    (enough : max 1 chain.tree.rightDepth ≤ level) (apart : opensWith '(' rest = false)
    (stopped : operatorAbove 0 rest = none) : Expression level chain.tokens chain.tree rest := by
  rw [tree_right_depth] at enough
  obtain ⟨level, rfl⟩ : ∃ more, level = more + 1 := ⟨level - 1, by omega⟩
  have climbed := climb_all 0 rest stopped chain.links (links_readable chain.later rest apart)
    (level + 1) chain.first.node (by omega)
  have operand := chain.first.operand_tokens (Expression level) _ (spelled_apart chain.links rest apart)
  exact (expression_succ _ _ _ _).mpr ⟨_, _, _, rfl, operand, climbed⟩

theorem program_tokens (chain : OperatorChain) (level : Nat)
    (enough : max 1 chain.tree.rightDepth ≤ level) :
    program level chain.tokens = .ok ([chain.tree], []) := by
  refine Greedy.program_of_pieces level [(chain.tokens, chain.tree)] chain.tokens (.inl (by simp)) ?_ ?_
  · intro piece only behind next
    obtain rfl := List.mem_singleton.mp only
    rcases next with next | rfl
    · have stops := Greedy.stops_opened true ';' behind (by decide) next
      exact expression_tokens chain level behind enough stops.call stops.operator
    · exact expression_tokens chain level [] enough rfl rfl
  · intro piece only
    obtain rfl := List.mem_singleton.mp only
    simp [tokens, Called.tokens]

theorem program_levels {level : Nat} {tokens rest : List TokenKind} {statements : List Node}
    (read : program level tokens = .ok (statements, rest)) :
    ∀ statement ∈ statements, max 1 statement.rightDepth ≤ level := by
  obtain ⟨taken, rfl, listed⟩ := (program_reads level).takes _ _ _ read
  have each : ∀ tokens node behind, Expression level tokens node behind →
      max 1 node.rightDepth ≤ level := by
    intro tokens node behind expression
    have nested := expression_nesting expression
    cases level with
    | zero => rw [expression_zero] at expression; exact expression.elim
    | succ level => omega
  obtain ⟨pieces, rfl, _, nested⟩ := separated_of_listed listed each
  intro statement inside
  obtain ⟨piece, member, rfl⟩ := List.mem_map.mp inside
  exact nested piece member

theorem program_tokens_too_deep (chain : OperatorChain) (level : Nat)
    (short : level < max 1 chain.tree.rightDepth) :
    ∃ looked unread, program level chain.tokens = .error ⟨.tooDeep looked, unread⟩ := by
  have high := program_tokens chain (level + max 1 chain.tree.rightDepth) (by omega)
  rcases program_guards level (max 1 chain.tree.rightDepth) chain.tokens with same | deep
  · rw [high] at same
    have shallow := program_levels same chain.tree (by simp)
    omega
  · exact deep

theorem parses_to_reference (chain : OperatorChain) (source : String) (tokens : List Token)
    (limit : Nat) (lexed : tokenize source = .ok tokens)
    (spelled : tokens.map Token.kind = chain.tokens) :
    (max 1 chain.tree.rightDepth ≤ limit → parseWithin limit source = .ok (.block [chain.tree])) ∧
      (limit < max 1 chain.tree.rightDepth → ∃ position, parseWithin limit source =
        .error (.grammatical (.nestingTooDeep limit) position)) ∧
      ((∀ step ∈ chain.later, step.1.isAssignment = false) → 5 ≤ limit →
        parseWithin limit source = .ok (.block [chain.tree])) := by
  have enough : max 1 chain.tree.rightDepth ≤ limit →
      parseWithin limit source = .ok (.block [chain.tree]) := fun fits =>
    (parse_within_ok_iff _ _ _).mpr
      ⟨tokens, _, lexed, rfl, by rw [spelled]; exact program_tokens chain limit fits⟩
  refine ⟨enough, fun short => ?_, fun binary five => ?_⟩
  · obtain ⟨looked, unread, deep⟩ := program_tokens_too_deep chain limit short
    rw [← spelled, kinds_of_tokenize lexed] at deep
    exact parse_within_too_deep limit source looked unread deep
  · have shallow := tree_of_binary chain binary
    exact enough (by omega)

theorem assignment_parses_to_reference :
    (parseWithin 2 "a = b() + 1" = .ok (.block [.operation .assign (.identifier "a")
        (.operation .add (.call (.identifier "b") []) (.number "1"))]) ∧
      ∃ position, parseWithin 1 "a = b() + 1" =
        .error (.grammatical (.nestingTooDeep 1) position)) ∧
      parseWithin 5 "3 - 2 - 1" = .ok (.block [.operation .subtract
        (.operation .subtract (.number "3") (.number "2")) (.number "1")]) := by
  let assigned : OperatorChain :=
    ⟨⟨.identifier "a", 0⟩, [(.assign, ⟨.identifier "b", 1⟩), (.add, ⟨.number "1", 0⟩)]⟩
  let subtracted : OperatorChain :=
    ⟨⟨.number "3", 0⟩, [(.subtract, ⟨.number "2", 0⟩), (.subtract, ⟨.number "1", 0⟩)]⟩
  have assignedLexed : tokenize "a = b() + 1" =
      .ok [⟨.identifier "a", ⟨1, 0⟩⟩, ⟨.operator "=", ⟨1, 2⟩⟩, ⟨.identifier "b", ⟨1, 4⟩⟩,
        ⟨.punctuation '(', ⟨1, 5⟩⟩, ⟨.punctuation ')', ⟨1, 6⟩⟩, ⟨.operator "+", ⟨1, 8⟩⟩,
        ⟨.number "1", ⟨1, 10⟩⟩] := by cbv
  have subtractedLexed : tokenize "3 - 2 - 1" =
      .ok [⟨.number "3", ⟨1, 0⟩⟩, ⟨.operator "-", ⟨1, 2⟩⟩, ⟨.number "2", ⟨1, 4⟩⟩,
        ⟨.operator "-", ⟨1, 6⟩⟩, ⟨.number "1", ⟨1, 8⟩⟩] := by cbv
  have assignedTree : assigned.tree = .operation .assign (.identifier "a")
      (.operation .add (.call (.identifier "b") []) (.number "1")) := by cbv
  have subtractedTree : subtracted.tree = .operation .subtract
      (.operation .subtract (.number "3") (.number "2")) (.number "1") := by cbv
  have nested : assigned.tree.rightDepth = 2 := by rw [assignedTree]; rfl
  have two := parses_to_reference assigned _ _ 2 assignedLexed rfl
  have one := parses_to_reference assigned _ _ 1 assignedLexed rfl
  have five := parses_to_reference subtracted _ _ 5 subtractedLexed rfl
  rw [assignedTree] at two one
  rw [subtractedTree] at five
  rw [assignedTree] at nested
  rw [nested] at two one
  exact ⟨⟨two.1 (by decide), one.2.1 (by decide)⟩, five.2.2 (by decide) (by decide)⟩

end OperatorChain

end ScriptReader
