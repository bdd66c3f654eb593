import ScriptReader.Proofs.Phrase.Program
import ScriptReader.Proofs.Program.Outcome

/-!
The plain grammar over token kinds, which is ambiguous: nothing tells how operators group, where a
function ends or which conditional an `else` belongs to. Its programs are the lists of greedy
sentences (`derives_program_iff`), so no choice that the rules make early loses a derivation.
-/

set_option autoImplicit false

namespace ScriptReader

open Rule

inductive Symbol where
  | program
  | expression
  | operand
  | primary
deriving DecidableEq, Repr

inductive Derives : Symbol → List TokenKind → Prop where
  | program {tokens : List TokenKind} (pieces : List (List TokenKind))
      (each : ∀ piece ∈ pieces, Derives .expression piece) (apart : Separated ';' pieces tokens) :
      Derives .program tokens
  | operand {tokens : List TokenKind} (only : Derives .operand tokens) : Derives .expression tokens
  | operation {a b : List TokenKind} (op : Operator) (left : Derives .expression a)
      (right : Derives .operand b) : Derives .expression (a ++ .operator op.symbol :: b)
  | primary {tokens : List TokenKind} (only : Derives .primary tokens) : Derives .operand tokens
  | call {front inside : List TokenKind} (pieces : List (List TokenKind))
      (callee : Derives .operand front) (each : ∀ piece ∈ pieces, Derives .expression piece)
      (apart : Separated ',' pieces inside) :
      Derives .operand (front ++ .punctuation '(' :: (inside ++ [.punctuation ')']))
  | number (text : String) : Derives .primary [.number text]
  | string (value : String) : Derives .primary [.string value]
  | character (value : Char) : Derives .primary [.character value]
  | identifier (name : String) : Derives .primary [.identifier name]
  | yes : Derives .primary [.keyword .trueWord]
  | no : Derives .primary [.keyword .falseWord]
  | group {inside : List TokenKind} (whole : Derives .expression inside) :
      Derives .primary (.punctuation '(' :: (inside ++ [.punctuation ')']))
  | block {inside : List TokenKind} (pieces : List (List TokenKind))
      (each : ∀ piece ∈ pieces, Derives .expression piece) (apart : Separated ';' pieces inside) :
      Derives .primary (.punctuation '\x7b' :: (inside ++ [.punctuation '\x7d']))
  | function {inside body : List TokenKind} (names : List String)
      (apart : Separated ',' (names.map fun name => [.identifier name]) inside)
      (whole : Derives .expression body) :
      Derives .primary (.keyword .defWord :: .punctuation '(' :: (inside ++ .punctuation ')' :: body))
  | ifThen {a b : List TokenKind} (condition : Derives .expression a)
      (opens : opensWith '\x7b' b = true) (branch : Derives .expression b) :
      Derives .primary (.keyword .ifWord :: (a ++ b))
  | ifElse {a b c : List TokenKind} (condition : Derives .expression a)
      (opens : opensWith '\x7b' b = true) (branch : Derives .expression b)
      (other : Derives .expression c) :
      Derives .primary (.keyword .ifWord :: (a ++ (b ++ .keyword .elseWord :: c)))

namespace Greedy

theorem derives_links (front : List TokenKind) (links : List Link)
    (first : Derives .expression front) (each : ∀ link ∈ links, Derives .operand link.tokens) :
    Derives .expression (front ++ Link.spelled links) := by
  induction links generalizing front with
  | nil => rwa [Link.spelled_nil, List.append_nil]
  | cons link links ih =>
      have next := Derives.operation link.op first (each link (by simp))
      have whole := ih _ next fun other inside => each other (by simp [inside])
      rw [Link.spelled_cons]
      simpa using whole

mutual
theorem closed_derives : ∀ {tokens : List TokenKind} {node : Node}, Closed tokens node →
    Derives .operand tokens
  | _, _, .number text => .primary (.number text)
  | _, _, .string value => .primary (.string value)
  | _, _, .character value => .primary (.character value)
  | _, _, .identifier name => .primary (.identifier name)
  | _, _, .yes => .primary .yes
  | _, _, .no => .primary .no
  | _, _, .group whole => .primary (.group (sentence_derives whole))
  | _, _, @Closed.block _ pieces each apart => by
      refine .primary (.block (pieces.map Prod.fst) (fun tokens inside => ?_) apart)
      obtain ⟨piece, member, rfl⟩ := List.mem_map.mp inside
      exact sentence_derives (each piece member)
  | _, _, @Closed.call _ _ _ pieces first each apart => by
      refine .call (pieces.map Prod.fst) (closed_derives first) (fun tokens inside => ?_) apart
      obtain ⟨piece, member, rfl⟩ := List.mem_map.mp inside
      exact sentence_derives (each piece member)
theorem chain_derives : ∀ {dangling : Bool} {front : List TokenKind} {first : Node}
    {links : List Link}, Chain dangling front first links →
    Derives .operand front ∧ ∀ link ∈ links, Derives .operand link.tokens
  | _, _, _, _, .closed last => ⟨closed_derives last, by simp⟩
  | _, _, _, _, @Chain.function _ _ _ names _ apart whole =>
      ⟨.primary (.function names apart (sentence_derives whole)), by simp⟩
  | _, _, _, _, .ifThen first opens second =>
      ⟨.primary (.ifThen (sentence_derives first) opens (sentence_derives second)), by simp⟩
  | _, _, _, _, .ifElse first opens second third =>
      ⟨.primary (.ifElse (sentence_derives first) opens (sentence_derives second)
        (sentence_derives third)), by simp⟩
  | _, _, _, _, .link op closed later => by
      obtain ⟨next, rest⟩ := chain_derives later
      refine ⟨closed_derives closed, fun link inside => ?_⟩
      rcases List.mem_cons.mp inside with rfl | inside
      · exact next
      · exact rest link inside
theorem sentence_derives : ∀ {dangling : Bool} {tokens : List TokenKind} {node : Node},
    Sentence dangling tokens node → Derives .expression tokens
  | _, _, _, @Sentence.mk _ front _ links chain =>
      derives_links front links (.operand (chain_derives chain).1) (chain_derives chain).2
end

theorem sentence_link {dangling : Bool} {front tokens : List TokenKind} {first node : Node}
    (op : Operator) (closed : Closed front first) (later : Sentence dangling tokens node) :
    ∃ whole, Sentence dangling (front ++ .operator op.symbol :: tokens) whole := by
  obtain ⟨chain⟩ := later
  have sentence := Sentence.mk (.link op closed chain)
  rw [Link.spelled_cons] at sentence
  exact ⟨_, sentence⟩

theorem extended_last {dangling : Bool} {front tail whole : List TokenKind} {node : Node}
    (chain : Chain dangling whole node []) (same : whole = front ++ tail) :
    ∃ node, Sentence dangling (front ++ (Link.spelled [] ++ tail)) node := by
  rw [Link.spelled_nil, List.nil_append, ← same]
  exact ⟨node, sentence_last chain⟩

theorem extended_link {dangling : Bool} {front tokens tail : List TokenKind} {first next : Node}
    {links : List Link} (op : Operator) (closed : Closed front first)
    (later : ∃ node, Sentence dangling (tokens ++ (Link.spelled links ++ tail)) node) :
    ∃ node, Sentence dangling (front ++ (Link.spelled (⟨op, tokens, next⟩ :: links) ++ tail)) node := by
  obtain ⟨node, sentence⟩ := later
  rw [Link.spelled_cons, List.cons_append, List.append_assoc]
  exact sentence_link op closed sentence

-- What may stand behind every closed operand may stand behind every sentence.
mutual
theorem chain_extend (tail : List TokenKind)
    (base : ∀ front first, Closed front first → ∃ node, Sentence true (front ++ tail) node) :
    ∀ {dangling : Bool} {front : List TokenKind} {first : Node} {links : List Link},
      Chain dangling front first links →
      ∃ node, Sentence true (front ++ (Link.spelled links ++ tail)) node
  | _, front, first, _, .closed last => base front first last
  | _, _, _, _, .function apart whole => by
      obtain ⟨body, extended⟩ := sentence_extend tail base whole
      exact extended_last (.function apart extended) (by simp)
  | _, _, _, _, .ifThen first opens second => by
      obtain ⟨branch, extended⟩ := sentence_extend tail base second
      exact extended_last (.ifThen first (opens_with_append opens) extended) (by simp)
  | _, _, _, _, .ifElse first opens second third => by
      obtain ⟨other, extended⟩ := sentence_extend tail base third
      exact extended_last (.ifElse first opens second extended) (by simp)
  | _, _, _, _, .link op closed later => extended_link op closed (chain_extend tail base later)
theorem sentence_extend (tail : List TokenKind)
    (base : ∀ front first, Closed front first → ∃ node, Sentence true (front ++ tail) node) :
    ∀ {dangling : Bool} {tokens : List TokenKind} {node : Node}, Sentence dangling tokens node →
      ∃ node, Sentence true (tokens ++ tail) node
  | _, _, _, .mk chain => by
      rw [List.append_assoc]
      exact chain_extend tail base chain
end

-- A sentence ends all its conditionals, or one of them takes the `else` behind it.
mutual
theorem chain_dangle {tail : List TokenKind} {last : Node} (other : Sentence true tail last) :
    ∀ {dangling : Bool} {front : List TokenKind} {first : Node} {links : List Link},
      Chain dangling front first links →
      (∃ node, Sentence false (front ++ (Link.spelled links ++ [])) node) ∨
        ∃ node, Sentence true (front ++ (Link.spelled links ++ .keyword .elseWord :: tail)) node
  | _, _, _, _, .closed last => .inl (extended_last (.closed last) (by simp))
  | _, _, _, _, .function apart whole => by
      rcases sentence_dangle other whole with ⟨body, ended⟩ | ⟨body, extended⟩
      · exact .inl (extended_last (.function apart ended) (by simp))
      · exact .inr (extended_last (.function apart extended) (by simp))
  | _, _, _, _, .ifThen first opens second => by
      rcases sentence_dangle other second with ⟨branch, ended⟩ | ⟨branch, extended⟩
      · exact .inr (extended_last (.ifElse first opens ended other) (by simp))
      · exact .inr (extended_last (.ifThen first (opens_with_append opens) extended) (by simp))
  | _, _, _, _, .ifElse first opens second third => by
      rcases sentence_dangle other third with ⟨branch, ended⟩ | ⟨branch, extended⟩
      · exact .inl (extended_last (.ifElse first opens second ended) (by simp))
      · exact .inr (extended_last (.ifElse first opens second extended) (by simp))
  | _, _, _, _, .link op closed later => by
      rcases chain_dangle other later with ended | extended
      · exact .inl (extended_link op closed ended)
      · exact .inr (extended_link op closed extended)
theorem sentence_dangle {tail : List TokenKind} {last : Node} (other : Sentence true tail last) :
    ∀ {dangling : Bool} {tokens : List TokenKind} {node : Node}, Sentence dangling tokens node →
      (∃ node, Sentence false tokens node) ∨
        ∃ node, Sentence true (tokens ++ .keyword .elseWord :: tail) node
  | _, _, _, .mk chain => by
      have ends := chain_dangle other chain
      rwa [List.append_nil, ← List.append_assoc] at ends
end

theorem sentence_call {dangling : Bool} {tokens inside : List TokenKind} {node : Node}
    {pieces : List (List TokenKind × Node)} (callee : Sentence dangling tokens node)
    (each : ∀ piece ∈ pieces, Sentence true piece.1 piece.2)
    (apart : Separated ',' (pieces.map Prod.fst) inside) :
    ∃ whole, Sentence true (tokens ++ .punctuation '(' :: (inside ++ [.punctuation ')'])) whole :=
  sentence_extend _ (fun _ _ closed => ⟨_, sentence_last (.closed (.call closed each apart))⟩) callee

theorem sentence_operation {dangling : Bool} {a b : List TokenKind} {left right : Node}
    (op : Operator) (first : Sentence dangling a left) (second : Sentence true b right) :
    ∃ whole, Sentence true (a ++ .operator op.symbol :: b) whole :=
  sentence_extend _ (fun _ _ closed => sentence_link op closed second) first

theorem pieces_with_nodes (pieces : List (List TokenKind))
    (each : ∀ piece ∈ pieces, ∃ node, Sentence true piece node) :
    ∃ read : List (List TokenKind × Node), read.map Prod.fst = pieces ∧
      ∀ piece ∈ read, Sentence true piece.1 piece.2 := by
  induction pieces with
  | nil => exact ⟨[], rfl, by simp⟩
  | cons piece pieces ih =>
      obtain ⟨node, first⟩ := each piece (by simp)
      obtain ⟨read, rfl, later⟩ := ih fun other inside => each other (by simp [inside])
      refine ⟨(piece, node) :: read, rfl, fun other inside => ?_⟩
      rcases List.mem_cons.mp inside with rfl | inside
      · exact first
      · exact later other inside

def Covers : Symbol → List TokenKind → Prop
  | .program, tokens => ∃ statements, Statements tokens statements
  | _, tokens => ∃ node, Sentence true tokens node

theorem covers_of_derives {symbol : Symbol} {tokens : List TokenKind}
    (derivation : Derives symbol tokens) : Covers symbol tokens := by
  induction derivation with
  | program pieces each apart ih =>
      obtain ⟨read, rfl, sentences⟩ := pieces_with_nodes pieces ih
      exact ⟨_, read, apart, sentences, rfl⟩
  | operand only ih => exact ih
  | operation op left right first second =>
      obtain ⟨_, left⟩ := first
      obtain ⟨_, right⟩ := second
      exact sentence_operation op left right
  | primary only ih => exact ih
  | call pieces callee each apart first ih =>
      obtain ⟨_, callee⟩ := first
      obtain ⟨read, rfl, sentences⟩ := pieces_with_nodes pieces ih
      exact sentence_call callee sentences apart
  | number text => exact ⟨_, sentence_last (.closed (.number text))⟩
  | string value => exact ⟨_, sentence_last (.closed (.string value))⟩
  | character value => exact ⟨_, sentence_last (.closed (.character value))⟩
  | identifier name => exact ⟨_, sentence_last (.closed (.identifier name))⟩
  | yes => exact ⟨_, sentence_last (.closed .yes)⟩
  | no => exact ⟨_, sentence_last (.closed .no)⟩
  | group whole ih =>
      obtain ⟨_, inside⟩ := ih
      exact ⟨_, sentence_last (.closed (.group inside))⟩
  | block pieces each apart ih =>
      obtain ⟨read, rfl, sentences⟩ := pieces_with_nodes pieces ih
      exact ⟨_, sentence_last (.closed (.block sentences apart))⟩
  | function names apart whole ih =>
      obtain ⟨_, body⟩ := ih
      exact ⟨_, sentence_last (.function apart body)⟩
  | ifThen condition opens branch first second =>
      obtain ⟨_, condition⟩ := first
      obtain ⟨_, branch⟩ := second
      exact ⟨_, sentence_last (.ifThen condition opens branch)⟩
  | ifElse condition opens branch other first second third =>
      obtain ⟨_, condition⟩ := first
      obtain ⟨_, branch⟩ := second
      obtain ⟨_, other⟩ := third
      -- The `else` of the derivation may belong to a conditional inside its branch.
      rcases sentence_dangle other branch with ⟨_, ended⟩ | ⟨_, extended⟩
      · exact ⟨_, sentence_last (.ifElse condition opens ended other)⟩
      · exact ⟨_, sentence_last (.ifThen condition (opens_with_append opens) extended)⟩

theorem derives_program_iff (tokens : List TokenKind) :
    Derives .program tokens ↔ ∃ statements, Statements tokens statements := by
  constructor
  · exact covers_of_derives
  · rintro ⟨_, pieces, apart, each, rfl⟩
    refine .program (pieces.map Prod.fst) (fun tokens inside => ?_) apart
    obtain ⟨piece, member, rfl⟩ := List.mem_map.mp inside
    exact sentence_derives (each piece member)

end Greedy

theorem parses_iff_derives (source : String) (tokens : List Token) (limit : Nat)
    (lexed : tokenize source = .ok tokens) (enough : tokens.length + 1 ≤ limit) :
    (∃ tree, parseWithin limit source = .ok tree) ↔ Derives .program (tokens.map Token.kind) := by
  rw [Greedy.derives_program_iff]
  constructor
  · rintro ⟨tree, parsed⟩
    obtain ⟨same, statements, again, rfl, read⟩ := (parse_within_ok_iff _ _ _).mp parsed
    obtain rfl : tokens = same := by simpa [lexed] using again
    exact ⟨statements, Greedy.program_statements read⟩
  · rintro ⟨statements, whole⟩
    have fits : (tokens.map Token.kind).length < limit := by
      rw [List.length_map]
      omega
    have read := Greedy.program_accepted whole fits
    exact ⟨_, (parse_within_ok_iff _ _ _).mpr ⟨tokens, statements, lexed, rfl, read⟩⟩

theorem conditional_iff_derives :
    ∃ tokens, tokenize "if a \x7b\x7d else b" = .ok tokens ∧ tokens.length + 1 ≤ 7 ∧
      ((∃ tree, parseWithin 7 "if a \x7b\x7d else b" = .ok tree) ↔
        Derives .program (tokens.map Token.kind)) := by
  have lexed : tokenize "if a \x7b\x7d else b" =
      .ok [⟨.keyword .ifWord, ⟨1, 0⟩⟩, ⟨.identifier "a", ⟨1, 3⟩⟩, ⟨.punctuation '\x7b', ⟨1, 5⟩⟩,
        ⟨.punctuation '\x7d', ⟨1, 6⟩⟩, ⟨.keyword .elseWord, ⟨1, 8⟩⟩, ⟨.identifier "b", ⟨1, 13⟩⟩] := by
    cbv
  exact ⟨_, lexed, by decide, parses_iff_derives _ _ 7 lexed (by decide)⟩

end ScriptReader
