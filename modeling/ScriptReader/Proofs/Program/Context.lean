import ScriptReader.Proofs.Phrase.Embedding
import ScriptReader.Proofs.Program.Verdict

set_option autoImplicit false

namespace ScriptReader

/-- The text is a single statement with this tree, and no semicolon ends it. -/
structure Alone (limit : Nat) (source : String) (tree : Node) : Prop where
  parsed : parseWithin limit source = .ok (.block [tree])
  unmarked : ((yielded source).map Token.kind).getLast? ≠ some (.punctuation ';')

/-- Texts with a separator between them. Each has a newline behind it, which ends its last comment. -/
def lines (separator : Char) (sources : List String) : String :=
  (String.singleton separator).intercalate (sources.map (· ++ "\n"))

theorem lexes_lines (separator : Char) (mark : isPunctuation separator = true)
    (pieces : List (String × List TokenKind)) (filled : pieces ≠ [])
    (each : ∀ piece ∈ pieces, Lexes piece.1.toList piece.2) {tail : List Char} {kinds : List TokenKind}
    (behind : Lexes tail kinds) :
    Lexes ((lines separator (pieces.map Prod.fst)).toList ++ tail)
      ([.punctuation separator].intercalate (pieces.map Prod.snd) ++ kinds) := by
  induction pieces with
  | nil => exact absurd rfl filled
  | cons piece pieces ih =>
      obtain ⟨first, others⟩ := List.forall_mem_cons.mp each
      cases pieces with
      | nil =>
          have joined := lexes_append first behind
          simpa [lines] using joined
      | cons next pieces =>
          have later := ih (List.cons_ne_nil _ _) others
          have joined := lexes_append first (lexes_mark separator mark later)
          simpa [lines, List.intercalate_cons_cons] using joined

theorem lexes_names (names : List String) (each : ∀ name ∈ names, nameText name = true)
    {tail : List Char} {kinds : List TokenKind} (behind : Lexes tail kinds) :
    Lexes ((", ".intercalate names).toList ++ ')' :: tail)
      ([.punctuation ','].intercalate (names.map fun name => [.identifier name]) ++
        .punctuation ')' :: kinds) := by
  induction names with
  | nil => simpa using lexes_mark ')' rfl behind
  | cons name names ih =>
      obtain ⟨first, others⟩ := List.forall_mem_cons.mp each
      cases names with
      | nil =>
          have joined := lexes_marked (.identifier name) ')' first rfl rfl behind
          simpa [TokenKind.spelling] using joined
      | cons next names =>
          have blank : Gap [' '] := .blank ' ' (.inl rfl) .none
          have joined :=
            lexes_marked (.identifier name) ',' first rfl rfl (lexes_gap blank (ih others))
          simpa [TokenKind.spelling, List.intercalate_cons_cons] using joined

theorem alone_phrase {limit : Nat} {source : String} {tree : Node} (alone : Alone limit source tree) :
    Lexes source.toList ((yielded source).map Token.kind) ∧
      Phrase.Expression limit ((yielded source).map Token.kind) tree [] := by
  obtain ⟨statements, same, lexes, read⟩ := lexes_of_parse alone.parsed
  cases same
  exact ⟨lexes, Phrase.expression_of_program read alone.unmarked⟩

section Pieces

variable {limit : Nat} {pieces : List (String × Node)}

def phrases (pieces : List (String × Node)) : List (List TokenKind × Node) :=
  pieces.map fun piece => ((yielded piece.1).map Token.kind, piece.2)

theorem phrases_read (each : ∀ piece ∈ pieces, Alone limit piece.1 piece.2) :
    ∀ phrase ∈ phrases pieces, Phrase.Expression limit phrase.1 phrase.2 [] := by
  intro phrase inside
  obtain ⟨piece, member, rfl⟩ := List.mem_map.mp inside
  exact (alone_phrase (each piece member)).2

theorem phrases_trees (pieces : List (String × Node)) :
    (phrases pieces).map Prod.snd = pieces.map Prod.snd := by
  simp [phrases, Function.comp_def]

theorem lexes_pieces (separator : Char) (mark : isPunctuation separator = true) (filled : pieces ≠ [])
    (each : ∀ piece ∈ pieces, Alone limit piece.1 piece.2) (last : String)
    (closes : last = "" ∨ last = String.singleton separator) {tail : List Char}
    {kinds : List TokenKind} (behind : Lexes tail kinds) :
    ∃ inside, Separated separator ((phrases pieces).map Prod.fst) inside ∧
      Lexes ((lines separator (pieces.map Prod.fst)).toList ++ (last.toList ++ tail))
        (inside ++ kinds) := by
  let texts : List (String × List TokenKind) :=
    pieces.map fun piece => (piece.1, (yielded piece.1).map Token.kind)
  have sources : texts.map Prod.fst = pieces.map Prod.fst := by simp [texts, Function.comp_def]
  have tokens : texts.map Prod.snd = (phrases pieces).map Prod.fst := by
    simp [texts, phrases, Function.comp_def]
  have lexed : ∀ text ∈ texts, Lexes text.1.toList text.2 := by
    intro text inside
    obtain ⟨piece, member, rfl⟩ := List.mem_map.mp inside
    exact (alone_phrase (each piece member)).1
  have present : texts ≠ [] := by simpa [texts] using filled
  rw [← sources, ← tokens]
  rcases closes with rfl | rfl
  · exact ⟨_, .inl rfl, lexes_lines separator mark texts present lexed behind⟩
  · refine ⟨_, .inr ⟨by simpa using present, rfl⟩, ?_⟩
    have whole := lexes_lines separator mark texts present lexed (lexes_mark separator mark behind)
    simpa using whole

theorem parse_statements (filled : pieces ≠ []) (each : ∀ piece ∈ pieces, Alone limit piece.1 piece.2)
    (last : String) (closes : last = "" ∨ last = ";") :
    parseWithin limit (lines ';' (pieces.map Prod.fst) ++ last) =
      .ok (.block (pieces.map Prod.snd)) := by
  obtain ⟨inside, apart, lexes⟩ := lexes_pieces ';' rfl filled each last closes lexes_nil
  have read := Phrase.program_of_expressions (phrases pieces) (phrases_read each) apart
  rw [phrases_trees] at read
  rw [List.append_nil, List.append_nil, ← String.toList_append] at lexes
  exact parse_of_lexes lexes read

theorem parse_call (filled : pieces ≠ []) (each : ∀ piece ∈ pieces, Alone limit piece.1 piece.2)
    (name : String) (word : nameText name = true) (last : String) (closes : last = "" ∨ last = ",") :
    parseWithin (limit + 1) (name ++ "(" ++ lines ',' (pieces.map Prod.fst) ++ last ++ ")") =
      .ok (.block [.call (.identifier name) (pieces.map Prod.snd)]) := by
  obtain ⟨inside, apart, listed⟩ :=
    lexes_pieces ',' rfl filled each last closes (lexes_mark ')' rfl lexes_nil)
  have lexes := lexes_marked (.identifier name) '(' word rfl rfl listed
  have read := Phrase.program_of_expression (Phrase.called name (phrases pieces) inside
    (phrases_read each) apart)
  rw [phrases_trees] at read
  exact parse_of_lexes (by simpa [TokenKind.spelling] using lexes) read

end Pieces

section Single

variable {limit : Nat} {source : String} {tree : Node}

theorem parse_group (alone : Alone limit source tree) :
    parseWithin (limit + 1) ("(" ++ source ++ "\n)") = .ok (.block [tree]) := by
  obtain ⟨lexes, read⟩ := alone_phrase alone
  have whole := lexes_mark '(' rfl (lexes_append lexes (lexes_mark ')' rfl lexes_nil))
  exact parse_of_lexes (by simpa using whole) (Phrase.program_of_expression (Phrase.grouped read))

theorem parse_function (alone : Alone limit source tree) (names : List String)
    (words : ∀ name ∈ names, nameText name = true) :
    parseWithin (limit + 1) ("def(" ++ ", ".intercalate names ++ ") " ++ source ++ "\n") =
      .ok (.block [.function names tree]) := by
  obtain ⟨lexes, read⟩ := alone_phrase alone
  have blank : Gap [' '] := .blank ' ' (.inl rfl) .none
  have body := lexes_gap blank (lexes_append lexes lexes_nil)
  have whole := lexes_marked (.keyword .defWord) '(' rfl rfl rfl (lexes_names names words body)
  have parsed := Phrase.program_of_expression (Phrase.defined names _ (.inl rfl) read)
  exact parse_of_lexes (by simpa [TokenKind.spelling, Keyword.spelling] using whole) parsed

theorem parse_assignment (alone : Alone limit source tree) (op : Operator)
    (assigns : op.isAssignment = true) (name : String) (word : nameText name = true) :
    parseWithin (limit + 1) (name ++ " " ++ op.symbol ++ " " ++ source ++ "\n") =
      .ok (.block [.operation op (.identifier name) tree]) := by
  obtain ⟨lexes, read⟩ := alone_phrase alone
  have symbol : (TokenKind.operator op.symbol).lexable = true := by cases op <;> decide +kernel
  have whole := lexes_spaced (.identifier name) word
    (lexes_spaced (.operator op.symbol) symbol (lexes_append lexes lexes_nil))
  have parsed := Phrase.program_of_expression (Phrase.assigned op assigns name read)
  exact parse_of_lexes (by simpa [TokenKind.spelling] using whole) parsed

theorem parse_condition (alone : Alone limit source tree) :
    parseWithin (limit + 1) ("if " ++ source ++ "\n\x7b\x7d") =
      .ok (.block [.ifThen tree (.block [])]) := by
  obtain ⟨lexes, read⟩ := alone_phrase alone
  have whole := lexes_spaced (.keyword .ifWord) rfl
    (lexes_append lexes (lexes_mark '\x7b' rfl (lexes_mark '\x7d' rfl lexes_nil)))
  have parsed := Phrase.program_of_expression (Phrase.conditioned read)
  exact parse_of_lexes (by simpa [TokenKind.spelling, Keyword.spelling] using whole) parsed

theorem parse_alternative (alone : Alone limit source tree) (name : String)
    (word : nameText name = true) :
    parseWithin (limit + 1) ("if " ++ name ++ " \x7b\x7d else " ++ source ++ "\n") =
      .ok (.block [.ifElse (.identifier name) (.block []) tree]) := by
  obtain ⟨lexes, read⟩ := alone_phrase alone
  have blank : Gap [' '] := .blank ' ' (.inl rfl) .none
  have behind := lexes_gap blank (lexes_spaced (.keyword .elseWord) rfl (lexes_append lexes lexes_nil))
  have whole := lexes_spaced (.keyword .ifWord) rfl (lexes_spaced (.identifier name) word
    (lexes_mark '\x7b' rfl (lexes_mark '\x7d' rfl behind)))
  have parsed := Phrase.program_of_expression (Phrase.otherwise name read)
  exact parse_of_lexes (by simpa [TokenKind.spelling, Keyword.spelling] using whole) parsed

end Single

theorem same_tree_in_context (limit : Nat) (source : String) (tree : Node)
    (pieces : List (String × Node)) (alone : Alone limit source tree) (filled : pieces ≠ [])
    (each : ∀ piece ∈ pieces, Alone limit piece.1 piece.2) (f x c : String) (names : List String)
    (words : ∀ name ∈ f :: x :: c :: names, nameText name = true) :
    (∀ last, last = "" ∨ last = ";" → parseWithin limit (lines ';' (pieces.map Prod.fst) ++ last) =
        .ok (.block (pieces.map Prod.snd))) ∧
      parseWithin (limit + 1) ("(" ++ source ++ "\n)") = .ok (.block [tree]) ∧
      (∀ last, last = "" ∨ last = "," →
        parseWithin (limit + 1) (f ++ "(" ++ lines ',' (pieces.map Prod.fst) ++ last ++ ")") =
          .ok (.block [.call (.identifier f) (pieces.map Prod.snd)])) ∧
      parseWithin (limit + 1) ("def(" ++ ", ".intercalate names ++ ") " ++ source ++ "\n") =
        .ok (.block [.function names tree]) ∧
      (∀ op, op.isAssignment = true →
        parseWithin (limit + 1) (x ++ " " ++ op.symbol ++ " " ++ source ++ "\n") =
          .ok (.block [.operation op (.identifier x) tree])) ∧
      parseWithin (limit + 1) ("if " ++ source ++ "\n\x7b\x7d") =
        .ok (.block [.ifThen tree (.block [])]) ∧
      parseWithin (limit + 1) ("if " ++ c ++ " \x7b\x7d else " ++ source ++ "\n") =
        .ok (.block [.ifElse (.identifier c) (.block []) tree]) := by
  have called : nameText f = true := words f (by simp)
  have target : nameText x = true := words x (by simp)
  have condition : nameText c = true := words c (by simp)
  have parameters : ∀ name ∈ names, nameText name = true := fun name member =>
    words name (by simp [member])
  exact ⟨parse_statements filled each, parse_group alone, parse_call filled each f called,
    parse_function alone names parameters, fun op assigns => parse_assignment alone op assigns x target,
    parse_condition alone, parse_alternative alone c condition⟩

theorem conditional_and_comment_in_context :
    parseWithin 3 (lines ';' ["if a \x7b\x7d", "b # c"] ++ ";") =
        .ok (.block [.ifThen (.identifier "a") (.block []), .identifier "b"]) ∧
      parseWithin 4 ("f" ++ "(" ++ lines ',' ["if a \x7b\x7d", "b # c"] ++ "" ++ ")") =
        .ok (.block [.call (.identifier "f") [.ifThen (.identifier "a") (.block []), .identifier "b"]]) ∧
      parseWithin 4 ("if " ++ "b # c" ++ "\n\x7b\x7d") =
        .ok (.block [.ifThen (.identifier "b") (.block [])]) := by
  have conditional : Alone 3 "if a \x7b\x7d" (.ifThen (.identifier "a") (.block [])) :=
    ⟨by with_unfolding_all rfl, by decide +kernel⟩
  have comment : Alone 3 "b # c" (.identifier "b") := ⟨by with_unfolding_all rfl, by decide +kernel⟩
  obtain ⟨statements, _, arguments, _, _, condition, _⟩ := same_tree_in_context 3 "b # c" _
    [("if a \x7b\x7d", .ifThen (.identifier "a") (.block [])), ("b # c", .identifier "b")] comment
    (List.cons_ne_nil _ _) (by simp [conditional, comment]) "f" "x" "c" ["p"] (by decide +kernel)
  exact ⟨statements ";" (.inr rfl), arguments "" (.inl rfl), condition⟩

end ScriptReader
