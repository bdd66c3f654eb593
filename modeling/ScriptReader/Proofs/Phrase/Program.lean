import ScriptReader.Proofs.Phrase.Exact

set_option autoImplicit false

namespace ScriptReader.Greedy

open Rule Phrase

def Statements (tokens : List TokenKind) (statements : List Node) : Prop :=
  ∃ pieces : List (List TokenKind × Node), Separated ';' (pieces.map Prod.fst) tokens ∧
    (∀ piece ∈ pieces, Sentence true piece.1 piece.2) ∧ statements = pieces.map Prod.snd

theorem program_statements {level : Nat} {tokens rest : List TokenKind} {statements : List Node}
    (read : program level tokens = .ok (statements, rest)) : Statements tokens statements := by
  obtain rfl := program_reads_all _ _ _ _ read
  obtain ⟨taken, rfl, listed⟩ := (program_reads level).takes _ _ _ read
  obtain ⟨pieces, same, apart, each⟩ := separated_of_listed listed
    fun tokens node behind read => sentence_loosen (expression_sentence read).1
  rw [List.append_nil]
  exact ⟨pieces, apart, each, same⟩

theorem program_of_pieces (level : Nat) (pieces : List (List TokenKind × Node))
    (tokens : List TokenKind) (apart : Separated ';' (pieces.map Prod.fst) tokens)
    (reads : ∀ piece ∈ pieces, ∀ behind, opensWith ';' behind = true ∨ behind = [] →
      Expression level piece.1 piece.2 behind)
    (begins : ∀ piece ∈ pieces, piece.1 ≠ []) :
    program level tokens = .ok (pieces.map Prod.snd, []) := by
  have unended : ∀ piece ∈ pieces, ∀ behind, noMore List.isEmpty (piece.1 ++ behind) = false := by
    intro piece inside behind
    cases front : piece.1 with
    | nil => exact absurd front (begins piece inside)
    | cons kind rest => rfl
  have listed := listed_of_separated pieces tokens [] apart rfl reads unended
  have read := (program_reads level).accepts _ _ _ listed
  rwa [List.append_nil] at read

theorem program_accepted {level : Nat} {tokens : List TokenKind} {statements : List Node}
    (whole : Statements tokens statements) (enough : tokens.length < level) :
    program level tokens = .ok (statements, []) := by
  obtain ⟨pieces, apart, each, rfl⟩ := whole
  refine program_of_pieces level pieces tokens apart ?_ ?_
  · intro piece inside behind next
    have shorter := length_of_separated _ _ _ apart piece.1 (List.mem_map_of_mem inside)
    refine sentence_accepted (each piece inside) level behind (by omega) ?_
    rcases next with next | rfl
    · exact stops_opened true ';' behind (by decide) next
    · exact stops_nil true
  · intro piece inside
    obtain ⟨kind, rest, same, _⟩ := sentence_begins (each piece inside)
    simp [same]

end ScriptReader.Greedy
