import ScriptReader.Proofs.Phrase.Program
import ScriptReader.Proofs.Token.Lexable

set_option autoImplicit false

namespace ScriptReader

namespace Node

def calledBlock : Node → Bool
  | .block _ => true
  | .call callee _ => callee.calledBlock
  | _ => false

-- A binary operation that needs no parentheses as the left operand of an operator.
def bindsBefore (op : Operator) : Node → Bool
  | .operation inner _ _ =>
      !inner.isAssignment && (op.isAssignment || decide (op.precedence ≤ inner.precedence))
  | _ => false

def opens : Node → Bool
  | .operation op left _ => left.calledBlock || left.bindsBefore op && left.opens
  | node => node.calledBlock

mutual
def wellFormed : Node → Bool
  | .number text => numberText text.toList
  | .string _ | .character _ | .bool _ => true
  | .identifier name => nameText name
  | .operation _ left right => left.wellFormed && right.wellFormed
  | .call callee arguments => callee.wellFormed && wellFormeds arguments
  | .function parameters body => parameters.all nameText && body.wellFormed
  | .ifThen condition branch => condition.wellFormed && branch.wellFormed && branch.opens
  | .ifElse condition branch alternative =>
      condition.wellFormed && branch.wellFormed && branch.opens && alternative.wellFormed
  | .block statements => wellFormeds statements
def wellFormeds : List Node → Bool
  | [] => true
  | node :: nodes => node.wellFormed && wellFormeds nodes
end

@[simp] theorem well_formeds_iff (nodes : List Node) :
    wellFormeds nodes = true ↔ ∀ node ∈ nodes, node.wellFormed = true := by
  induction nodes with
  | nil => simp [wellFormeds]
  | cons node nodes ih => simp [wellFormeds, ih]

theorem opens_of_called_block (node : Node) (called : node.calledBlock = true) :
    node.opens = true := by
  cases node with
  | operation op left right => cases called
  | _ => exact called

end Node

namespace Link

theorem reference_well_formed (left : Node) (links : List Link) (first : left.wellFormed = true)
    (each : ∀ link ∈ links, link.node.wellFormed = true) :
    (reference left links).wellFormed = true := by
  induction links using splits_induction generalizing left with
  | nil => rwa [reference_nil]
  | split before link after splits ihBefore ihAfter =>
      have front := ihBefore left first fun other inside => each other (by simp [inside])
      have back := ihAfter link.node (each link (by simp)) fun other inside =>
        each other (by simp [inside])
      rw [reference_split left splits, Node.wellFormed, front, back]
      rfl

theorem reference_root (left : Node) (links : List Link) (filled : links ≠ []) :
    ∃ link ∈ links, ∃ a b, reference left links = .operation link.op a b := by
  cases found : Link.split links with
  | none => exact absurd ((split_eq_none links).mp found) filled
  | some triple =>
      obtain ⟨before, link, after⟩ := triple
      obtain ⟨rfl, splits⟩ := split_eq_some _ _ _ _ found
      exact ⟨link, by simp, _, _, reference_split left splits⟩

theorem splits_binds_before {before after : List Link} {link : Link}
    (splits : Splits before link after) (left : Node) (filled : before ≠ []) :
    (reference left before).bindsBefore link.op = true := by
  obtain ⟨root, inside, a, b, same⟩ := reference_root left before filled
  rw [same, Node.bindsBefore, splits.earlier root inside]
  cases assigns : link.op.isAssignment with
  | true => rfl
  | false =>
      have weaker := (splits.weakest assigns).1 root inside
      simp [weaker]

theorem reference_opens (left : Node) (links : List Link) (called : left.calledBlock = true) :
    (reference left links).opens = true := by
  induction links using splits_induction with
  | nil =>
      rw [reference_nil]
      exact left.opens_of_called_block called
  | split before link after splits ihBefore _ =>
      rw [reference_split left splits, Node.opens, ihBefore]
      cases before with
      | nil => rw [reference_nil, called]; rfl
      | cons first before => rw [splits_binds_before splits left (by simp)]; simp

end Link

namespace Greedy

open Rule

theorem closed_called_block : ∀ {tokens : List TokenKind} {node : Node}, Closed tokens node →
    opensWith '\x7b' tokens = true → node.calledBlock = true
  | _, _, .block _ _, _ => rfl
  | _, _, @Closed.call front _ callee _ first _ _, opens => by
      have sentence : Sentence true front callee := sentence_last (.closed first)
      have called := closed_called_block first (opens_with_front sentence opens)
      exact called

theorem sentence_opens {dangling : Bool} {tokens : List TokenKind} {node : Node}
    (sentence : Sentence dangling tokens node) (opens : opensWith '\x7b' tokens = true) :
    node.opens = true := by
  obtain ⟨chain⟩ := sentence
  rename_i front first links
  have called : first.calledBlock = true := by
    cases chain with
    | closed last =>
        exact closed_called_block last (by simpa using opens)
    | function _ _ => cases opens
    | ifThen _ _ _ => cases opens
    | ifElse _ _ _ _ => cases opens
    | link _ closed _ =>
        have front : Sentence true _ _ := sentence_last (.closed closed)
        exact closed_called_block closed (opens_with_front front opens)
  exact Link.reference_opens first links called

theorem lexable_piece (separator : Char) (pieces : List (List TokenKind)) (tokens : List TokenKind)
    (apart : Separated separator pieces tokens) (lexable : Lexable tokens) :
    ∀ piece ∈ pieces, Lexable piece := by
  cases pieces with
  | nil => simp
  | cons first pieces =>
      obtain ⟨last, _, rfl⟩ := (separated_cons _ _ _ _).mp apart
      intro piece inside
      rcases List.mem_cons.mp inside with rfl | inside
      · exact lexable_part lexable fun kind member => by simp [member]
      · refine lexable_part lexable fun kind member => ?_
        have later : kind ∈ pieces.flatMap (.punctuation separator :: ·) :=
          List.mem_flatMap.mpr ⟨piece, inside, by simp [member]⟩
        simp [later]

theorem names_well_formed (names : List String) (tokens : List TokenKind)
    (apart : Separated ',' (names.map fun name => [.identifier name]) tokens)
    (lexable : Lexable tokens) : names.all nameText = true := by
  refine List.all_eq_true.mpr fun name inside => ?_
  have piece := lexable_piece _ _ _ apart lexable [.identifier name] (List.mem_map_of_mem inside)
  exact piece (.identifier name) (by simp)

theorem pieces_well_formed (separator : Char) (pieces : List (List TokenKind × Node))
    (tokens : List TokenKind) (apart : Separated separator (pieces.map Prod.fst) tokens)
    (lexable : Lexable tokens)
    (each : ∀ piece ∈ pieces, Lexable piece.1 → piece.2.wellFormed = true) :
    Node.wellFormeds (pieces.map Prod.snd) = true := by
  refine (Node.well_formeds_iff _).mpr fun node inside => ?_
  obtain ⟨piece, member, rfl⟩ := List.mem_map.mp inside
  exact each piece member (lexable_piece _ _ _ apart lexable piece.1 (List.mem_map_of_mem member))

mutual
theorem closed_well_formed : ∀ {tokens : List TokenKind} {node : Node}, Closed tokens node →
    Lexable tokens → node.wellFormed = true
  | _, _, .number _ => fun lexable => (lexable_cons.mp lexable).1
  | _, _, .string _ => fun _ => rfl
  | _, _, .character _ => fun _ => rfl
  | _, _, .identifier _ => fun lexable => (lexable_cons.mp lexable).1
  | _, _, .yes => fun _ => rfl
  | _, _, .no => fun _ => rfl
  | _, _, .group whole => fun lexable =>
      sentence_well_formed whole (lexable_part lexable fun kind member => by simp [member])
  | _, _, @Closed.block inside pieces each apart => fun lexable =>
      pieces_well_formed _ pieces inside apart (lexable_part lexable fun kind member => by simp [member])
        fun piece member => sentence_well_formed (each piece member)
  | _, _, @Closed.call _ inside _ pieces first each apart => by
      intro lexable
      have callee := closed_well_formed first (lexable_part lexable fun kind member => by simp [member])
      have arguments := pieces_well_formed _ pieces inside apart
        (lexable_part lexable fun kind member => by simp [member])
        fun piece member => sentence_well_formed (each piece member)
      rw [Node.wellFormed, callee, arguments]
      rfl
theorem chain_well_formed : ∀ {dangling : Bool} {front : List TokenKind} {first : Node}
    {links : List Link}, Chain dangling front first links → Lexable (front ++ Link.spelled links) →
    first.wellFormed = true ∧ ∀ link ∈ links, link.node.wellFormed = true
  | _, _, _, _, .closed last => fun lexable =>
      ⟨closed_well_formed last (lexable_part lexable fun kind member => by simp [member]), by simp⟩
  | _, _, _, _, @Chain.function _ inside tokens names body apart whole => by
      intro lexable
      have parameters := names_well_formed names inside apart
        (lexable_part lexable fun kind member => by simp [member])
      have body := sentence_well_formed whole (lexable_part lexable fun kind member => by simp [member])
      refine ⟨?_, by simp⟩
      rw [Node.wellFormed, parameters, body]
      rfl
  | _, _, _, _, @Chain.ifThen a b _ _ first opens second => by
      intro lexable
      have condition := sentence_well_formed first
        (lexable_part lexable fun kind member => by simp [member])
      have branch := sentence_well_formed second
        (lexable_part lexable fun kind member => by simp [member])
      refine ⟨?_, by simp⟩
      rw [Node.wellFormed, condition, branch, sentence_opens second opens]
      rfl
  | _, _, _, _, @Chain.ifElse _ a b c _ _ _ first opens second third => by
      intro lexable
      have condition := sentence_well_formed first
        (lexable_part lexable fun kind member => by simp [member])
      have branch := sentence_well_formed second
        (lexable_part lexable fun kind member => by simp [member])
      have alternative := sentence_well_formed third
        (lexable_part lexable fun kind member => by simp [member])
      refine ⟨?_, by simp⟩
      rw [Node.wellFormed, condition, branch, sentence_opens second opens, alternative]
      rfl
  | _, _, _, _, @Chain.link _ _ _ _ _ _ op closed later => by
      intro lexable
      obtain ⟨next, rest⟩ := chain_well_formed later
        (lexable_part lexable fun kind member => List.mem_append_right _ (List.mem_cons_of_mem _ member))
      refine ⟨closed_well_formed closed (lexable_part lexable fun kind member => by simp [member]),
        fun link inside => ?_⟩
      rcases List.mem_cons.mp inside with rfl | inside
      · exact next
      · exact rest link inside
theorem sentence_well_formed : ∀ {dangling : Bool} {tokens : List TokenKind} {node : Node},
    Sentence dangling tokens node → Lexable tokens → node.wellFormed = true
  | _, _, _, @Sentence.mk _ front first links chain => by
      intro lexable
      obtain ⟨begun, each⟩ := chain_well_formed chain lexable
      exact Link.reference_well_formed first links begun each
end

theorem statements_well_formed {tokens : List TokenKind} {statements : List Node}
    (whole : Statements tokens statements) (lexable : Lexable tokens) :
    Node.wellFormeds statements = true := by
  obtain ⟨pieces, apart, each, rfl⟩ := whole
  exact pieces_well_formed _ pieces tokens apart lexable
    fun piece member => sentence_well_formed (each piece member)

end Greedy

end ScriptReader
