import ScriptReader.Proofs.Phrase.Embedding
import ScriptReader.Proofs.Program.Verdict
import ScriptReader.Proofs.Token.Parted

set_option autoImplicit false

namespace ScriptReader

namespace Phrase

open Rule Greedy

variable {α : Type}

section Lists

variable {element : Phrase α} {separator : Char} {ends closes : List TokenKind → Bool}
  {a b : List TokenKind}

-- The elements of a list may be followed by another end, if no element begins as that end does.
theorem further_moved (unbound : Unbound element) (alike : Alike a b) (closed : closes b = true)
    (begins : ∀ taken value behind more, element taken value behind → noMore closes (taken ++ more) = false)
    {taken : List TokenKind} {values : List α} (further : Further element separator ends taken values a) :
    Further element separator closes taken values b := by
  induction further with
  | done _ => exact .done (by rw [noMore, closed, Bool.or_true])
  | trailing _ => exact .trailing closed
  | @next taken more rest value values _ read later ih =>
      have unended := begins taken value _ (more ++ b) read
      rw [noMore, Bool.or_eq_false_iff] at unended
      exact .next unended.2 (unbound _ _ _ _ read (alike_append more alike)) (ih alike)

theorem listed_moved (unbound : Unbound element) (alike : Alike a b) (closed : closes b = true)
    (begins : ∀ taken value behind more, element taken value behind → noMore closes (taken ++ more) = false)
    {taken : List TokenKind} {values : List α} (listed : Listed element separator ends taken values a) :
    Listed element separator closes taken values b := by
  cases listed with
  | none _ => exact .none (by rw [noMore, closed, Bool.or_true])
  | @some taken more _ value values _ read later =>
      have further := further_moved unbound alike closed begins later
      exact .some (begins taken value _ _ read) (unbound _ _ _ _ read (alike_append more alike)) further

end Lists

theorem calls_from {inner : Phrase Node} {callee node : Node} {taken rest : List TokenKind}
    (calls : Calls inner callee taken node rest) :
    taken = [] ∧ node = callee ∨ ∃ other arguments, node = .call other arguments := by
  induction calls with
  | done _ => exact .inl ⟨rfl, rfl⟩
  | further _ _ ih =>
      rcases ih with ⟨_, rfl⟩ | called
      · exact .inr ⟨_, _, rfl⟩
      · exact .inr called

theorem climbing_from {operand : Phrase Node} {rise : Nat → Node → Phrase Node} {floor : Nat}
    {left node : Node} {taken rest : List TokenKind}
    (climbing : Climbing operand rise floor left taken node rest) :
    taken = [] ∧ node = left ∨ ∃ op first second, node = .operation op first second := by
  induction climbing with
  | done _ => exact .inl ⟨rfl, rfl⟩
  | further _ _ _ _ _ ih =>
      rcases ih with ⟨_, rfl⟩ | operation
      · exact .inr ⟨_, _, _, rfl⟩
      · exact .inr operation

theorem block_of_expression {level : Nat} {tokens rest : List TokenKind} {statements : List Node}
    (read : Expression (level + 1) (.punctuation '\x7b' :: tokens) (.block statements) rest) :
    Enclosed '\x7b' '\x7d' ';' (Expression level) (.punctuation '\x7b' :: tokens) statements rest := by
  obtain ⟨front, behind, first, whole, ⟨primary, calls⟩, climbed⟩ := (expression_succ _ _ _ _).mp read
  rw [Phrase.climb_succ] at climbed
  rcases climbing_from climbed with ⟨rfl, rfl⟩ | ⟨_, _, _, same⟩
  · rcases calls_from calls with ⟨rfl, rfl⟩ | ⟨_, _, same⟩
    · rw [List.append_nil, List.append_nil] at whole
      rw [whole]
      cases primary with
      | block listed => exact listed
      | group inside => cases whole
    · cases same
  · cases same

theorem program_iff_listed (level : Nat) (tokens : List TokenKind) (statements : List Node) :
    program level tokens = .ok (statements, []) ↔
      Listed (Expression level) ';' (opensWith '\x7d') tokens statements [.punctuation '\x7d'] := by
  have unbound := (level_unbound level).1
  have stops := stops_mark true '\x7d' [] (by decide)
  constructor
  · intro read
    obtain ⟨taken, same, listed⟩ := (program_reads level).takes _ _ _ read
    rw [List.append_nil] at same
    subst same
    refine listed_moved unbound (.inr ⟨stops_nil true, stops⟩) rfl ?_ listed
    intro taken node behind more phrase
    have sentence := sentence_loosen (expression_sentence phrase).1
    exact no_more_sentence '\x7d' sentence (by decide) (by decide) more
  · intro listed
    have moved : Listed (Expression level) ';' List.isEmpty tokens statements [] := by
      refine listed_moved unbound (.inr ⟨stops, stops_nil true⟩) rfl ?_ listed
      intro taken node behind more phrase
      cases taken with
      | nil => exact absurd rfl (expression_filled phrase)
      | cons kind taken => rfl
    have read := (program_reads level).accepts _ _ _ moved
    rwa [List.append_nil] at read

theorem program_block_iff (level : Nat) (tokens : List TokenKind) (statements : List Node) :
    program level tokens = .ok (statements, []) ↔
      program (level + 1) (.punctuation '\x7b' :: (tokens ++ [.punctuation '\x7d'])) =
        .ok ([.block statements], []) := by
  rw [program_iff_listed level tokens]
  constructor
  · intro listed
    exact program_of_expression (expression_of_primary (.block (.mk listed)) (stops_nil true))
  · intro read
    generalize whole : TokenKind.punctuation '\x7b' :: (tokens ++ [.punctuation '\x7d']) = taken at read
    have unmarked : taken.getLast? ≠ some (.punctuation ';') := by
      rw [← whole, ← List.cons_append, List.getLast?_concat]
      decide
    have expression := expression_of_program read unmarked
    rw [← whole] at expression
    have enclosed := block_of_expression expression
    rw [whole] at enclosed
    obtain ⟨listed⟩ := enclosed
    rw [List.cons.injEq, List.append_cancel_right_eq] at whole
    rwa [whole.2]

end Phrase

theorem program_iff_block (limit : Nat) (source : String) (statements : List Node) :
    parseWithin limit source = .ok (.block statements) ↔
      parseWithin (limit + 1) ("\x7b" ++ source ++ "\n\x7d") = .ok (.block [.block statements]) := by
  have text : ("\x7b" ++ source ++ "\n\x7d").toList = '\x7b' :: (source.toList ++ '\n' :: ['\x7d']) := by
    simp
  constructor
  · intro parsed
    obtain ⟨_, same, lexes, read⟩ := lexes_of_parse parsed
    cases same
    have braced := lexes_mark '\x7b' rfl (lexes_append lexes (lexes_mark '\x7d' rfl lexes_nil))
    rw [← text] at braced
    exact parse_of_lexes braced ((Phrase.program_block_iff _ _ _).mp read)
  · intro parsed
    obtain ⟨_, same, lexes, read⟩ := lexes_of_parse parsed
    cases same
    generalize (yielded ("\x7b" ++ source ++ "\n\x7d")).map Token.kind = kinds at lexes read
    rw [text] at lexes
    obtain ⟨others, rfl, inner⟩ := (lexes_mark_iff '\x7b' rfl _ _).mp lexes
    obtain ⟨front, behind, first, last, rfl⟩ := lexes_parted (by decide) (by decide) inner
    obtain ⟨rest, rfl, ended⟩ := (lexes_mark_iff '\x7d' rfl _ _).mp last
    obtain rfl := (lexes_nil_iff rest).mp ended
    exact parse_of_lexes first ((Phrase.program_block_iff _ _ _).mpr read)

end ScriptReader
