import ScriptReader.Proofs.Tree.WellFormed

/-!
Printing a tree with parentheses around all operands but those that a branch must open with.
-/

set_option autoImplicit false

namespace ScriptReader

namespace Node

def wrapped (tokens : List TokenKind) : List TokenKind :=
  .punctuation '(' :: (tokens ++ [.punctuation ')'])

def joined (separator : Char) (pieces : List (List TokenKind)) : List TokenKind :=
  [.punctuation separator].intercalate pieces

mutual
def print : Node → List TokenKind
  | .number text => [.number text]
  | .string value => [.string value]
  | .character value => [.character value]
  | .bool true => [.keyword .trueWord]
  | .bool false => [.keyword .falseWord]
  | .identifier name => [.identifier name]
  | .operation op left right =>
      (if (operation op left right).opens then left.print else wrapped left.print) ++
        .operator op.symbol :: wrapped right.print
  | .call callee arguments =>
      (if callee.calledBlock then callee.print else wrapped callee.print) ++
        wrapped (joined ',' (prints arguments))
  | .function parameters body =>
      .keyword .defWord :: (wrapped (joined ',' (parameters.map fun name => [.identifier name])) ++
        wrapped body.print)
  | .ifThen condition branch => .keyword .ifWord :: (wrapped condition.print ++ branch.print)
  | .ifElse condition branch alternative =>
      .keyword .ifWord :: (wrapped condition.print ++
        (branch.print ++ .keyword .elseWord :: wrapped alternative.print))
  | .block statements =>
      .punctuation '\x7b' :: (joined ';' (prints statements) ++ [.punctuation '\x7d'])
def prints : List Node → List (List TokenKind)
  | [] => []
  | node :: nodes => node.print :: prints nodes
end

def printedPieces (nodes : List Node) : List (List TokenKind × Node) :=
  nodes.map fun node => (node.print, node)

theorem printed_pieces_tokens (nodes : List Node) : (printedPieces nodes).map Prod.fst = prints nodes := by
  induction nodes with
  | nil => rfl
  | cons node nodes ih => rw [prints, ← ih]; rfl

theorem printed_pieces_nodes (nodes : List Node) : (printedPieces nodes).map Prod.snd = nodes := by
  simp [printedPieces, Function.comp_def]

end Node

theorem Link.reference_snoc (left : Node) {links : List Link} {link : Link}
    (splits : Splits links link []) :
    reference left (links ++ [link]) = .operation link.op (reference left links) link.node := by
  rw [reference_split left splits, reference_nil]

namespace Greedy

open Rule Node

theorem chain_of_closed (dangling : Bool) (links : List Link)
    (each : ∀ link ∈ links, Closed link.tokens link.node) (front : List TokenKind) (first : Node)
    (closed : Closed front first) : Chain dangling front first links := by
  induction links generalizing front first with
  | nil => exact .closed closed
  | cons link links ih =>
      have later := ih (fun other inside => each other (by simp [inside])) _ _ (each link (by simp))
      exact .link link.op closed later

structure Bare (tokens : List TokenKind) (node : Node) (front : List TokenKind) (first : Node)
    (links : List Link) : Prop where
  spelled : tokens = front ++ Link.spelled links
  reference : node = Link.reference first links
  closed : Closed front first
  block : opensWith '\x7b' front = true
  operands : ∀ link ∈ links, Closed link.tokens link.node
  binds : ∀ op, node.bindsBefore op = true → ∀ link ∈ links, link.op.isAssignment = false ∧
    (op.isAssignment = false → op.precedence ≤ link.op.precedence)

structure Printed (tokens : List TokenKind) (node : Node) : Prop where
  sentence : Sentence true tokens node
  called : node.calledBlock = true → Closed tokens node ∧ opensWith '\x7b' tokens = true
  bare : node.opens = true → ∃ front first links, Bare tokens node front first links

theorem bare_of_closed {tokens : List TokenKind} {node : Node} (closed : Closed tokens node)
    (block : opensWith '\x7b' tokens = true) : Bare tokens node tokens node [] where
  spelled := by simp
  reference := by simp
  closed := closed
  block := block
  operands := by simp
  binds := by simp

theorem printed_of_closed {tokens : List TokenKind} {node : Node} (closed : Closed tokens node)
    (block : node.calledBlock = true → opensWith '\x7b' tokens = true)
    (single : node.opens = node.calledBlock) : Printed tokens node where
  sentence := sentence_last (.closed closed)
  called called := ⟨closed, block called⟩
  bare opens := ⟨_, _, _, bare_of_closed closed (block (single ▸ opens))⟩

theorem printed_of_sentence {tokens : List TokenKind} {node : Node}
    (sentence : Sentence true tokens node) (closes : node.opens = false) : Printed tokens node where
  sentence := sentence
  called called := by rw [node.opens_of_called_block called] at closes; cases closes
  bare opens := by rw [opens] at closes; cases closes

theorem bare_sentence {tokens front : List TokenKind} {node first : Node} {links : List Link}
    (bare : Bare tokens node front first links) (dangling : Bool) :
    Sentence dangling tokens node ∧ opensWith '\x7b' tokens = true := by
  obtain ⟨rfl, rfl, closed, block, operands, _⟩ := bare
  exact ⟨.mk (chain_of_closed dangling links operands front first closed), opens_with_append block⟩

theorem bare_snoc {tokens front more : List TokenKind} {left first right : Node} {links : List Link}
    (op : Operator) (bare : Bare tokens left front first links) (inner : Closed more right)
    (fits : links = [] ∨ left.bindsBefore op = true) :
    Bare (tokens ++ .operator op.symbol :: more) (.operation op left right) front first
      (links ++ [⟨op, more, right⟩]) := by
  obtain ⟨rfl, rfl, closed, block, operands, binds⟩ := bare
  have tight : ∀ link ∈ links, link.op.isAssignment = false ∧
      (op.isAssignment = false → op.precedence ≤ link.op.precedence) := by
    rcases fits with rfl | fits
    · simp
    · exact binds op fits
  have splits : Link.Splits links ⟨op, more, right⟩ [] :=
    ⟨fun link inside => (tight link inside).1,
      fun binary => ⟨fun link inside => (tight link inside).2 binary, by simp⟩⟩
  constructor
  case spelled => simp
  case reference => rw [Link.reference_snoc first splits]
  case closed => exact closed
  case block => exact block
  case operands =>
    intro link inside
    rcases List.mem_append.mp inside with inside | only
    · exact operands link inside
    · obtain rfl := List.mem_singleton.mp only
      exact inner
  case binds =>
    intro further tighter
    simp only [bindsBefore, Bool.and_eq_true, Bool.not_eq_true', Bool.or_eq_true,
      decide_eq_true_eq] at tighter
    have weaker : further.isAssignment = false → further.precedence ≤ op.precedence :=
      fun binary => by simpa [binary] using tighter.2
    intro link inside
    rcases List.mem_append.mp inside with inside | only
    · obtain ⟨binary, above⟩ := tight link inside
      exact ⟨binary, fun other => Nat.le_trans (weaker other) (above tighter.1)⟩
    · obtain rfl := List.mem_singleton.mp only
      exact ⟨tighter.1, weaker⟩

theorem closed_wrapped {tokens : List TokenKind} {node : Node} (printed : Printed tokens node) :
    Closed (wrapped tokens) node := .group printed.sentence

theorem sentence_wrapped {tokens : List TokenKind} {node : Node} (printed : Printed tokens node) :
    Sentence true (wrapped tokens) node := sentence_last (.closed (closed_wrapped printed))

theorem printed_operation (op : Operator) {left right : Node} (first : Printed left.print left)
    (second : Printed right.print right) :
    Printed (operation op left right).print (.operation op left right) := by
  have inner := closed_wrapped second
  rw [print]
  by_cases opens : (operation op left right).opens = true
  · rw [if_pos opens]
    have bare : ∃ front head links, Bare (left.print ++ .operator op.symbol :: wrapped right.print)
        (.operation op left right) front head links := by
      have reasons := opens
      rw [Node.opens, Bool.or_eq_true, Bool.and_eq_true] at reasons
      rcases reasons with called | ⟨binds, leftOpens⟩
      · obtain ⟨closed, block⟩ := first.called called
        exact ⟨_, _, _, bare_snoc op (bare_of_closed closed block) inner (.inl rfl)⟩
      · obtain ⟨front, head, links, bare⟩ := first.bare leftOpens
        exact ⟨_, _, _, bare_snoc op bare inner (.inr binds)⟩
    have sentence : Sentence true (left.print ++ .operator op.symbol :: wrapped right.print)
        (.operation op left right) := by
      obtain ⟨_, _, _, whole⟩ := bare
      exact (bare_sentence whole true).1
    exact ⟨sentence, (fun called => by cases called), fun _ => bare⟩
  · rw [if_neg opens]
    have sentence : Sentence true _ _ := .mk (.link op (closed_wrapped first) (.closed inner))
    have alone : Link.Splits [] ⟨op, wrapped right.print, right⟩ [] :=
      ⟨by simp, fun _ => ⟨by simp, by simp⟩⟩
    have tree := Link.reference_snoc left alone
    rw [List.nil_append, Link.reference_nil] at tree
    rw [Link.spelled_cons, Link.spelled_nil, List.append_nil, tree] at sentence
    exact printed_of_sentence sentence (by simpa using opens)

theorem printed_pieces (separator : Char) (nodes : List Node)
    (each : ∀ node ∈ nodes, Printed node.print node) :
    (∀ piece ∈ printedPieces nodes, Sentence true piece.1 piece.2) ∧
      Separated separator ((printedPieces nodes).map Prod.fst) (joined separator (prints nodes)) := by
  refine ⟨fun piece inside => ?_, .inl (by rw [printed_pieces_tokens]; rfl)⟩
  obtain ⟨node, member, rfl⟩ := List.mem_map.mp inside
  exact (each node member).sentence

theorem printed_call (callee : Node) (arguments : List Node) (first : Printed callee.print callee)
    (each : ∀ node ∈ arguments, Printed node.print node) :
    Printed (call callee arguments).print (.call callee arguments) := by
  obtain ⟨sentences, apart⟩ := printed_pieces ',' arguments each
  rw [print]
  by_cases called : callee.calledBlock = true
  · rw [if_pos called]
    obtain ⟨closed, block⟩ := first.called called
    have whole := Closed.call closed sentences apart
    rw [printed_pieces_nodes] at whole
    exact printed_of_closed whole (fun _ => opens_with_append block) rfl
  · rw [if_neg called]
    have whole := Closed.call (closed_wrapped first) sentences apart
    rw [printed_pieces_nodes] at whole
    exact printed_of_closed whole (fun again => absurd again called) rfl

theorem printed_block (statements : List Node)
    (each : ∀ node ∈ statements, Printed node.print node) :
    Printed (block statements).print (.block statements) := by
  obtain ⟨sentences, apart⟩ := printed_pieces ';' statements each
  have whole := Closed.block sentences apart
  rw [printed_pieces_nodes] at whole
  exact printed_of_closed whole (fun _ => rfl) rfl

theorem print_printed (node : Node) (well : node.wellFormed = true) : Printed node.print node := by
  induction node using children_induction with
  | step node ih =>
      cases node with
      | number text => exact printed_of_closed (.number text) (fun called => by cases called) rfl
      | string value => exact printed_of_closed (.string value) (fun called => by cases called) rfl
      | character value => exact printed_of_closed (.character value) (fun called => by cases called) rfl
      | identifier name => exact printed_of_closed (.identifier name) (fun called => by cases called) rfl
      | bool value =>
          cases value with
          | false => exact printed_of_closed .no (fun called => by cases called) rfl
          | true => exact printed_of_closed .yes (fun called => by cases called) rfl
      | operation op left right =>
          simp only [wellFormed, Bool.and_eq_true] at well
          exact printed_operation op (ih left (by simp [children]) well.1)
            (ih right (by simp [children]) well.2)
      | call callee arguments =>
          simp only [wellFormed, Bool.and_eq_true, well_formeds_iff] at well
          exact printed_call callee arguments (ih callee (by simp [children]) well.1)
            fun node inside => ih node (by simp [children, inside]) (well.2 node inside)
      | function parameters body =>
          simp only [wellFormed, Bool.and_eq_true] at well
          have inner := sentence_wrapped (ih body (by simp [children]) well.2)
          have apart : Separated ',' (parameters.map fun name => [.identifier name])
              (joined ',' (parameters.map fun name => [.identifier name])) := .inl rfl
          have sentence := sentence_last (.function apart inner)
          exact printed_of_sentence (by simpa [print, wrapped] using sentence) rfl
      | ifThen condition branch =>
          simp only [wellFormed, Bool.and_eq_true] at well
          obtain ⟨⟨conditionWell, branchWell⟩, branchOpens⟩ := well
          have first := sentence_wrapped (ih condition (by simp [children]) conditionWell)
          obtain ⟨_, _, _, bare⟩ := (ih branch (by simp [children]) branchWell).bare branchOpens
          obtain ⟨second, opens⟩ := bare_sentence bare true
          exact printed_of_sentence (sentence_last (.ifThen first opens second)) rfl
      | ifElse condition branch alternative =>
          simp only [wellFormed, Bool.and_eq_true] at well
          obtain ⟨⟨⟨conditionWell, branchWell⟩, branchOpens⟩, otherWell⟩ := well
          have first := sentence_wrapped (ih condition (by simp [children]) conditionWell)
          have third := sentence_wrapped (ih alternative (by simp [children]) otherWell)
          obtain ⟨_, _, _, bare⟩ := (ih branch (by simp [children]) branchWell).bare branchOpens
          obtain ⟨second, opens⟩ := bare_sentence bare false
          exact printed_of_sentence (sentence_last (.ifElse first opens second third)) rfl
      | block statements =>
          simp only [wellFormed, well_formeds_iff] at well
          exact printed_block statements fun node inside => ih node inside (well node inside)

end Greedy

end ScriptReader
