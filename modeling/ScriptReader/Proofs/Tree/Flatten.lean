import ScriptReader.Proofs.Phrase.Program
import ScriptReader.Proofs.Program.Outcome

set_option autoImplicit false

namespace ScriptReader

namespace TokenKind

def isMark : TokenKind → Bool
  | .punctuation _ => true
  | _ => false

def unmarked (tokens : List TokenKind) : List TokenKind := tokens.filter fun kind => !kind.isMark

@[simp] theorem unmarked_append (a b : List TokenKind) : unmarked (a ++ b) = unmarked a ++ unmarked b :=
  List.filter_append ..

@[simp] theorem unmarked_mark (c : Char) (tokens : List TokenKind) :
    unmarked (.punctuation c :: tokens) = unmarked tokens := rfl

@[simp] theorem unmarked_word (word : Keyword) (tokens : List TokenKind) :
    unmarked (.keyword word :: tokens) = .keyword word :: unmarked tokens := rfl

@[simp] theorem unmarked_nil : unmarked [] = [] := rfl

end TokenKind

open TokenKind

namespace Node

mutual
def flatten : Node → List TokenKind
  | .number text => [.number text]
  | .string value => [.string value]
  | .character value => [.character value]
  | .bool true => [.keyword .trueWord]
  | .bool false => [.keyword .falseWord]
  | .identifier name => [.identifier name]
  | .operation op left right => left.flatten ++ .operator op.symbol :: right.flatten
  | .call callee arguments => callee.flatten ++ flattens arguments
  | .function parameters body => .keyword .defWord :: (parameters.map .identifier ++ body.flatten)
  | .ifThen condition branch => .keyword .ifWord :: (condition.flatten ++ branch.flatten)
  | .ifElse condition branch alternative =>
      .keyword .ifWord ::
        (condition.flatten ++ (branch.flatten ++ .keyword .elseWord :: alternative.flatten))
  | .block statements => flattens statements
def flattens : List Node → List TokenKind
  | [] => []
  | node :: nodes => node.flatten ++ flattens nodes
end

end Node

namespace Link

theorem flatten_reference (left : Node) (links : List Link) :
    (reference left links).flatten =
      left.flatten ++ links.flatMap fun link => .operator link.op.symbol :: link.node.flatten := by
  induction links using splits_induction generalizing left with
  | nil => simp
  | split before link after splits ihBefore ihAfter =>
      rw [reference_split left splits, Node.flatten, ihBefore, ihAfter]
      simp

theorem unmarked_spelled (links : List Link)
    (each : ∀ link ∈ links, unmarked link.tokens = link.node.flatten) :
    unmarked (spelled links) =
      links.flatMap fun link => .operator link.op.symbol :: link.node.flatten := by
  induction links with
  | nil => rfl
  | cons link links ih =>
      have later := ih fun other inside => each other (by simp [inside])
      rw [spelled_cons, ← List.cons_append, unmarked_append, later, List.flatMap_cons,
        ← each link (by simp)]
      rfl

end Link

theorem unmarked_separated (separator : Char) (pieces : List (List TokenKind))
    (tokens : List TokenKind) (apart : Separated separator pieces tokens) :
    unmarked tokens = pieces.flatMap unmarked := by
  cases pieces with
  | nil => rw [(separated_nil _ _).mp apart]; rfl
  | cons piece pieces =>
      obtain ⟨last, closes, rfl⟩ := (separated_cons _ _ _ _).mp apart
      have trailing : unmarked last = [] := by rcases closes with rfl | rfl <;> rfl
      have between : unmarked (pieces.flatMap (.punctuation separator :: ·)) = pieces.flatMap unmarked := by
        rw [unmarked, List.filter_flatMap]
        rfl
      simp [between, trailing]

theorem flattens_of_pieces (separator : Char) (pieces : List (List TokenKind × Node))
    (tokens : List TokenKind) (apart : Separated separator (pieces.map Prod.fst) tokens)
    (each : ∀ piece ∈ pieces, unmarked piece.1 = piece.2.flatten) :
    unmarked tokens = Node.flattens (pieces.map Prod.snd) := by
  rw [unmarked_separated _ _ _ apart]
  clear apart
  induction pieces with
  | nil => rfl
  | cons piece pieces ih =>
      have later := ih fun other inside => each other (by simp [inside])
      rw [List.map_cons, List.map_cons, List.flatMap_cons, Node.flattens, each piece (by simp), later]

theorem unmarked_parameters (names : List String) (tokens : List TokenKind)
    (apart : Separated ',' (names.map fun name => [.identifier name]) tokens) :
    unmarked tokens = names.map .identifier := by
  rw [unmarked_separated _ _ _ apart]
  clear apart
  induction names with
  | nil => rfl
  | cons name names ih =>
      rw [List.map_cons, List.flatMap_cons, ih]
      rfl

namespace Greedy

mutual
theorem closed_flatten : ∀ {tokens : List TokenKind} {node : Node}, Closed tokens node →
    unmarked tokens = node.flatten
  | _, _, .number _ => rfl
  | _, _, .string _ => rfl
  | _, _, .character _ => rfl
  | _, _, .identifier _ => rfl
  | _, _, .yes => rfl
  | _, _, .no => rfl
  | _, _, .group whole => by simp [sentence_flatten whole]
  | _, _, @Closed.block inside pieces each apart => by
      have listed := flattens_of_pieces ';' pieces inside apart
        fun piece member => sentence_flatten (each piece member)
      simp [listed, Node.flatten]
  | _, _, @Closed.call front inside callee pieces first each apart => by
      have listed := flattens_of_pieces ',' pieces inside apart
        fun piece member => sentence_flatten (each piece member)
      simp [closed_flatten first, listed, Node.flatten]
theorem chain_flatten : ∀ {dangling : Bool} {front : List TokenKind} {first : Node}
    {links : List Link}, Chain dangling front first links →
    unmarked front = first.flatten ∧ ∀ link ∈ links, unmarked link.tokens = link.node.flatten
  | _, _, _, _, .closed last => ⟨closed_flatten last, by simp⟩
  | _, _, _, _, @Chain.function _ inside tokens names body apart whole => by
      refine ⟨?_, by simp⟩
      have listed := unmarked_parameters names inside apart
      simp [listed, sentence_flatten whole, Node.flatten]
  | _, _, _, _, @Chain.ifThen a b _ _ first _ second => by
      refine ⟨?_, by simp⟩
      simp [sentence_flatten first, sentence_flatten second, Node.flatten]
  | _, _, _, _, @Chain.ifElse _ a b c _ _ _ first _ second third => by
      refine ⟨?_, by simp⟩
      simp [sentence_flatten first, sentence_flatten second, sentence_flatten third, Node.flatten]
  | _, _, _, _, .link op closed later => by
      obtain ⟨next, rest⟩ := chain_flatten later
      refine ⟨closed_flatten closed, fun link inside => ?_⟩
      rcases List.mem_cons.mp inside with rfl | inside
      · exact next
      · exact rest link inside
theorem sentence_flatten : ∀ {dangling : Bool} {tokens : List TokenKind} {node : Node},
    Sentence dangling tokens node → unmarked tokens = node.flatten
  | _, _, _, @Sentence.mk _ front first links chain => by
      obtain ⟨begun, each⟩ := chain_flatten chain
      simp [begun, Link.unmarked_spelled links each, Link.flatten_reference]
end

end Greedy

theorem flatten_of_parse (limit : Nat) (source : String) (tree : Node)
    (parsed : parseWithin limit source = .ok tree) :
    ∃ tokens, tokenize source = .ok tokens ∧
      tree.flatten = (tokens.map Token.kind).filter fun kind => !kind.isMark := by
  obtain ⟨tokens, statements, lexed, rfl, read⟩ := (parse_within_ok_iff _ _ _).mp parsed
  obtain ⟨pieces, apart, each, rfl⟩ := Greedy.program_statements read
  refine ⟨tokens, lexed, ?_⟩
  exact (flattens_of_pieces ';' pieces _ apart fun piece inside =>
    Greedy.sentence_flatten (each piece inside)).symm

theorem flatten_of_parsed_function :
    ∃ tree, parseWithin 4 "def(x) \x7bx; 1\x7d" = .ok tree ∧
      ∃ tokens, tokenize "def(x) \x7bx; 1\x7d" = .ok tokens ∧
        tree.flatten = (tokens.map Token.kind).filter fun kind => !kind.isMark := by
  have lexed : tokenize "def(x) \x7bx; 1\x7d" =
      .ok [⟨.keyword .defWord, ⟨1, 0⟩⟩, ⟨.punctuation '(', ⟨1, 3⟩⟩, ⟨.identifier "x", ⟨1, 4⟩⟩,
        ⟨.punctuation ')', ⟨1, 5⟩⟩, ⟨.punctuation '\x7b', ⟨1, 7⟩⟩, ⟨.identifier "x", ⟨1, 8⟩⟩,
        ⟨.punctuation ';', ⟨1, 9⟩⟩, ⟨.number "1", ⟨1, 11⟩⟩, ⟨.punctuation '\x7d', ⟨1, 12⟩⟩] := by
    cbv
  have parsed := (parse_within_ok_iff 4 _ _).mpr ⟨_, [.function ["x"] (.block [.identifier "x",
    .number "1"])], lexed, rfl, rfl⟩
  exact ⟨_, parsed, flatten_of_parse 4 _ _ parsed⟩

end ScriptReader
