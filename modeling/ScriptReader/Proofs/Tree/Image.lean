import ScriptReader.Proofs.Program.Outcome
import ScriptReader.Proofs.Token.Spelling
import ScriptReader.Proofs.Tree.Printed

set_option autoImplicit false

namespace ScriptReader

open Greedy

namespace Node

-- A text with this tree, if the tree is a well-formed block.
def source (tree : Node) : String := String.ofList (TokenKind.written (joined ';' (prints tree.children)))

@[simp] theorem lexable_wrapped (tokens : List TokenKind) : Lexable (wrapped tokens) ↔ Lexable tokens := by
  simp [wrapped, TokenKind.lexable, isPunctuation]

theorem lexable_joined (separator : Char) (pieces : List (List TokenKind))
    (mark : isPunctuation separator = true) (each : ∀ piece ∈ pieces, Lexable piece) :
    Lexable (joined separator pieces) := by
  cases pieces with
  | nil => simp [Lexable, joined]
  | cons first pieces =>
      rw [joined, intercalate_cons, lexable_append]
      refine ⟨each first (by simp), fun kind inside => ?_⟩
      obtain ⟨piece, member, inside⟩ := List.mem_flatMap.mp inside
      rcases List.mem_cons.mp inside with rfl | inside
      · exact mark
      · exact each piece (by simp [member]) kind inside

theorem mem_prints {nodes : List Node} {piece : List TokenKind} (inside : piece ∈ prints nodes) :
    ∃ node ∈ nodes, node.print = piece := by
  rw [← printed_pieces_tokens] at inside
  simpa [printedPieces] using inside

theorem lexable_prints (separator : Char) (nodes : List Node)
    (mark : isPunctuation separator = true) (each : ∀ node ∈ nodes, Lexable node.print) :
    Lexable (joined separator (prints nodes)) := by
  refine lexable_joined separator _ mark fun piece inside => ?_
  obtain ⟨node, member, rfl⟩ := mem_prints inside
  exact each node member

theorem lexable_print (node : Node) (well : node.wellFormed = true) : Lexable node.print := by
  induction node using children_induction with
  | step node ih =>
      have single : ∀ kind : TokenKind, kind.lexable = true → Lexable [kind] := by simp [Lexable]
      cases node with
      | number text => exact single _ well
      | string value => exact single _ rfl
      | character value => exact single _ rfl
      | identifier name => exact single _ well
      | bool value => cases value <;> exact single _ rfl
      | operation op left right =>
          simp only [wellFormed, Bool.and_eq_true] at well
          have first := ih left (by simp [children]) well.1
          have second := ih right (by simp [children]) well.2
          have symbol : (TokenKind.operator op.symbol).lexable = true := by cases op <;> decide +kernel
          rw [print]
          split <;> simp [first, symbol, second]
      | call callee arguments =>
          simp only [wellFormed, Bool.and_eq_true, well_formeds_iff] at well
          have first := ih callee (by simp [children]) well.1
          have inner := lexable_prints ',' arguments rfl fun node inside =>
            ih node (by simp [children, inside]) (well.2 node inside)
          rw [print]
          split <;> simp [first, inner]
      | function parameters body =>
          simp only [wellFormed, Bool.and_eq_true, List.all_eq_true] at well
          have names := lexable_joined ',' (parameters.map fun name => [.identifier name]) rfl (by
            intro piece inside
            obtain ⟨name, member, rfl⟩ := List.mem_map.mp inside
            exact single _ (well.1 name member))
          have inner := ih body (by simp [children]) well.2
          simp [print, TokenKind.lexable, names, inner]
      | ifThen condition branch =>
          simp only [wellFormed, Bool.and_eq_true] at well
          have first := ih condition (by simp [children]) well.1.1
          have second := ih branch (by simp [children]) well.1.2
          simp [print, TokenKind.lexable, first, second]
      | ifElse condition branch alternative =>
          simp only [wellFormed, Bool.and_eq_true] at well
          have first := ih condition (by simp [children]) well.1.1.1
          have second := ih branch (by simp [children]) well.1.1.2
          have third := ih alternative (by simp [children]) well.2
          simp [print, TokenKind.lexable, first, second, third]
      | block statements =>
          simp only [wellFormed, well_formeds_iff] at well
          have inner := lexable_prints ';' statements rfl fun node inside =>
            ih node (by simp [children, inside]) (well node inside)
          simp [print, TokenKind.lexable, isPunctuation, inner]

end Node

theorem tokenize_written (kinds : List TokenKind) (lexable : Lexable kinds) :
    ∃ tokens, tokenize (String.ofList (TokenKind.written kinds)) = .ok tokens ∧
      tokens.map Token.kind = kinds := by
  have whole := transcript_written kinds lexable
  rw [← String.toList_ofList (l := TokenKind.written kinds)] at whole
  obtain ⟨tokens, lexed⟩ := tokenize_total (String.ofList (TokenKind.written kinds)) (by rw [whole])
  refine ⟨tokens, lexed, ?_⟩
  rw [kinds_of_tokenize lexed, whole]
  simp [Transcript.kinds, Function.comp_def]

theorem parse_source (statements : List Node) (well : (Node.block statements).wellFormed = true) :
    ∃ limit, parseWithin limit (Node.block statements).source = .ok (.block statements) := by
  simp only [Node.wellFormed, Node.well_formeds_iff] at well
  have lexable := Node.lexable_prints ';' statements rfl fun node inside =>
    Node.lexable_print node (well node inside)
  obtain ⟨tokens, lexed, kinds⟩ := tokenize_written _ lexable
  obtain ⟨each, apart⟩ := printed_pieces ';' statements fun node inside =>
    print_printed node (well node inside)
  have whole : Statements (tokens.map Token.kind) statements :=
    ⟨_, kinds ▸ apart, each, (Node.printed_pieces_nodes statements).symm⟩
  have read := program_accepted whole (Nat.lt_succ_self _)
  exact ⟨_, (parse_within_ok_iff _ _ _).mpr ⟨tokens, statements, lexed, rfl, read⟩⟩

theorem well_formed_of_parse {limit : Nat} {source : String} {tree : Node}
    (parsed : parseWithin limit source = .ok tree) :
    (∃ statements, tree = .block statements) ∧ tree.wellFormed = true := by
  obtain ⟨tokens, statements, lexed, rfl, read⟩ := (parse_within_ok_iff _ _ _).mp parsed
  refine ⟨⟨statements, rfl⟩, ?_⟩
  rw [kinds_of_tokenize lexed] at read
  exact statements_well_formed (program_statements read) (lexable_of_transcript source.toList)

theorem parsed_iff_well_formed (tree : Node) :
    ((∃ limit source, parseWithin limit source = .ok tree) ↔
        (∃ statements, tree = .block statements) ∧ tree.wellFormed = true) ∧
      ((∃ limit, parseWithin limit tree.source = .ok tree) ↔
        (∃ statements, tree = .block statements) ∧ tree.wellFormed = true) := by
  constructor
  · constructor
    · rintro ⟨limit, source, parsed⟩
      exact well_formed_of_parse parsed
    · rintro ⟨⟨statements, rfl⟩, well⟩
      obtain ⟨limit, parsed⟩ := parse_source statements well
      exact ⟨limit, _, parsed⟩
  · constructor
    · rintro ⟨limit, parsed⟩
      exact well_formed_of_parse parsed
    · rintro ⟨⟨statements, rfl⟩, well⟩
      exact parse_source statements well

end ScriptReader
