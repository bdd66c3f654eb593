import ScriptReader.Proofs.Chain.Climb
import ScriptReader.Proofs.Phrase.Separated

/-!
The grammar that expressions are read by, without lookahead and levels. An expression is a chain of
operands. An operand is closed if its last token ends it, and only closed operands stand before an
operator or a call; a function or a conditional is the last operand and takes all that follows. The
tree of a chain is its reference tree.
-/

set_option autoImplicit false

namespace ScriptReader.Greedy

open Rule

-- An expression that may dangle may end in a conditional that still lacks its `else`.
mutual
inductive Closed : List TokenKind → Node → Prop where
  | number (text : String) : Closed [.number text] (.number text)
  | string (value : String) : Closed [.string value] (.string value)
  | character (value : Char) : Closed [.character value] (.character value)
  | identifier (name : String) : Closed [.identifier name] (.identifier name)
  | yes : Closed [.keyword .trueWord] (.bool true)
  | no : Closed [.keyword .falseWord] (.bool false)
  | group {inside : List TokenKind} {node : Node} (whole : Sentence true inside node) :
      Closed (.punctuation '(' :: (inside ++ [.punctuation ')'])) node
  | block {inside : List TokenKind} {pieces : List (List TokenKind × Node)}
      (each : ∀ piece ∈ pieces, Sentence true piece.1 piece.2)
      (apart : Separated ';' (pieces.map Prod.fst) inside) :
      Closed (.punctuation '\x7b' :: (inside ++ [.punctuation '\x7d'])) (.block (pieces.map Prod.snd))
  | call {front inside : List TokenKind} {callee : Node} {pieces : List (List TokenKind × Node)}
      (first : Closed front callee) (each : ∀ piece ∈ pieces, Sentence true piece.1 piece.2)
      (apart : Separated ',' (pieces.map Prod.fst) inside) :
      Closed (front ++ .punctuation '(' :: (inside ++ [.punctuation ')']))
        (.call callee (pieces.map Prod.snd))
inductive Chain : Bool → List TokenKind → Node → List Link → Prop where
  | closed {dangling : Bool} {tokens : List TokenKind} {node : Node} (last : Closed tokens node) :
      Chain dangling tokens node []
  | function {dangling : Bool} {inside tokens : List TokenKind} {names : List String} {body : Node}
      (apart : Separated ',' (names.map fun name => [.identifier name]) inside)
      (whole : Sentence dangling tokens body) :
      Chain dangling (.keyword .defWord :: .punctuation '(' :: (inside ++ .punctuation ')' :: tokens))
        (.function names body) []
  | ifThen {a b : List TokenKind} {condition branch : Node} (first : Sentence true a condition)
      (opens : opensWith '\x7b' b = true) (second : Sentence true b branch) :
      Chain true (.keyword .ifWord :: (a ++ b)) (.ifThen condition branch) []
  | ifElse {dangling : Bool} {a b c : List TokenKind} {condition branch other : Node}
      (first : Sentence true a condition) (opens : opensWith '\x7b' b = true)
      (second : Sentence false b branch) (third : Sentence dangling c other) :
      Chain dangling (.keyword .ifWord :: (a ++ (b ++ .keyword .elseWord :: c)))
        (.ifElse condition branch other) []
  | link {dangling : Bool} {front tokens : List TokenKind} {first next : Node} {links : List Link}
      (op : Operator) (closed : Closed front first) (later : Chain dangling tokens next links) :
      Chain dangling front first (⟨op, tokens, next⟩ :: links)
inductive Sentence : Bool → List TokenKind → Node → Prop where
  | mk {dangling : Bool} {front : List TokenKind} {first : Node} {links : List Link}
      (chain : Chain dangling front first links) :
      Sentence dangling (front ++ Link.spelled links) (Link.reference first links)
end

mutual
theorem chain_loosen : ∀ {dangling : Bool} {front : List TokenKind} {first : Node}
    {links : List Link}, Chain dangling front first links → Chain true front first links
  | _, _, _, _, .closed last => .closed last
  | _, _, _, _, .function apart whole => .function apart (sentence_loosen whole)
  | _, _, _, _, .ifThen first opens second => .ifThen first opens second
  | _, _, _, _, .ifElse first opens second third => .ifElse first opens second (sentence_loosen third)
  | _, _, _, _, .link op closed later => .link op closed (chain_loosen later)
theorem sentence_loosen : ∀ {dangling : Bool} {tokens : List TokenKind} {node : Node},
    Sentence dangling tokens node → Sentence true tokens node
  | _, _, _, .mk chain => .mk (chain_loosen chain)
end

theorem sentence_last {dangling : Bool} {tokens : List TokenKind} {node : Node}
    (chain : Chain dangling tokens node []) : Sentence dangling tokens node := by
  have sentence := Sentence.mk chain
  rwa [Link.spelled_nil, List.append_nil, Link.reference_nil] at sentence

def begins : TokenKind → Bool
  | .punctuation c => c == '(' || c == '\x7b'
  | .operator _ => false
  | _ => true

theorem closed_begins : ∀ {tokens : List TokenKind} {node : Node}, Closed tokens node →
    ∃ kind rest, tokens = kind :: rest ∧ begins kind = true
  | _, _, .number _ => ⟨_, _, rfl, rfl⟩
  | _, _, .string _ => ⟨_, _, rfl, rfl⟩
  | _, _, .character _ => ⟨_, _, rfl, rfl⟩
  | _, _, .identifier _ => ⟨_, _, rfl, rfl⟩
  | _, _, .yes => ⟨_, _, rfl, rfl⟩
  | _, _, .no => ⟨_, _, rfl, rfl⟩
  | _, _, .group _ => ⟨_, _, rfl, rfl⟩
  | _, _, .block _ _ => ⟨_, _, rfl, rfl⟩
  | _, _, .call first _ _ => by
      obtain ⟨kind, rest, rfl, opens⟩ := closed_begins first
      exact ⟨kind, _, rfl, opens⟩

theorem chain_begins {dangling : Bool} {front : List TokenKind} {first : Node} {links : List Link}
    (chain : Chain dangling front first links) :
    ∃ kind rest, front = kind :: rest ∧ begins kind = true := by
  cases chain with
  | closed last => exact closed_begins last
  | function _ _ => exact ⟨_, _, rfl, rfl⟩
  | ifThen _ _ _ => exact ⟨_, _, rfl, rfl⟩
  | ifElse _ _ _ _ => exact ⟨_, _, rfl, rfl⟩
  | link _ closed _ => exact closed_begins closed

theorem sentence_begins {dangling : Bool} {tokens : List TokenKind} {node : Node}
    (sentence : Sentence dangling tokens node) :
    ∃ kind rest, tokens = kind :: rest ∧ begins kind = true := by
  obtain ⟨chain⟩ := sentence
  obtain ⟨kind, rest, rfl, opens⟩ := chain_begins chain
  exact ⟨kind, _, rfl, opens⟩

end ScriptReader.Greedy
