import ScriptReader.Proofs.Phrase.Basic

set_option autoImplicit false

namespace ScriptReader

def Separated (separator : Char) (pieces : List (List TokenKind)) (tokens : List TokenKind) : Prop :=
  tokens = [.punctuation separator].intercalate pieces ∨
    pieces ≠ [] ∧ tokens = [.punctuation separator].intercalate pieces ++ [.punctuation separator]

theorem intercalate_cons (separator : Char) (piece : List TokenKind)
    (pieces : List (List TokenKind)) :
    [TokenKind.punctuation separator].intercalate (piece :: pieces) =
      piece ++ pieces.flatMap (.punctuation separator :: ·) := by
  induction pieces generalizing piece with
  | nil => simp
  | cons next pieces ih => rw [List.intercalate_cons_cons, ih]; simp

theorem separated_cons (separator : Char) (piece tokens : List TokenKind)
    (pieces : List (List TokenKind)) :
    Separated separator (piece :: pieces) tokens ↔
      ∃ last, (last = [] ∨ last = [.punctuation separator]) ∧
        tokens = piece ++ (pieces.flatMap (.punctuation separator :: ·) ++ last) := by
  rw [Separated, intercalate_cons]
  constructor
  · rintro (rfl | ⟨_, rfl⟩)
    · exact ⟨[], .inl rfl, by simp⟩
    · exact ⟨_, .inr rfl, by simp⟩
  · rintro ⟨_, rfl | rfl, rfl⟩
    · exact .inl (by simp)
    · exact .inr ⟨by simp, by simp⟩

theorem separated_nil (separator : Char) (tokens : List TokenKind) :
    Separated separator [] tokens ↔ tokens = [] := by
  simp [Separated]

theorem length_of_separated (separator : Char) (pieces : List (List TokenKind))
    (tokens : List TokenKind) (apart : Separated separator pieces tokens) :
    ∀ piece ∈ pieces, piece.length ≤ tokens.length := by
  cases pieces with
  | nil => simp
  | cons first pieces =>
      obtain ⟨last, _, rfl⟩ := (separated_cons _ _ _ _).mp apart
      intro piece inside
      simp only [List.length_append]
      rcases List.mem_cons.mp inside with rfl | inside
      · omega
      · have spread := (List.sublist_flatten_of_mem
          (List.mem_map_of_mem (f := (TokenKind.punctuation separator :: ·)) inside)).length_le
        rw [← List.flatMap_def, List.length_cons] at spread
        omega

namespace Phrase

open Rule

variable {α : Type} {element : Phrase α} {separator : Char} {ends : List TokenKind → Bool}

theorem behind_piece (pieces : List (List TokenKind)) (last rest : List TokenKind)
    (closes : last = [] ∨ last = [.punctuation separator]) :
    opensWith separator (pieces.flatMap (.punctuation separator :: ·) ++ last ++ rest) = true ∨
      pieces.flatMap (.punctuation separator :: ·) ++ last ++ rest = rest := by
  cases pieces with
  | nil => rcases closes with rfl | rfl <;> simp [opensWith]
  | cons next pieces => simp [opensWith]

theorem further_of_pieces (pieces : List (List TokenKind × α)) (last rest : List TokenKind)
    (ended : ends rest = true) (closes : last = [] ∨ last = [.punctuation separator])
    (reads : ∀ piece ∈ pieces, ∀ behind, opensWith separator behind = true ∨ behind = rest →
      element piece.1 piece.2 behind)
    (begins : ∀ piece ∈ pieces, ∀ behind, noMore ends (piece.1 ++ behind) = false) :
    Further element separator ends
      ((pieces.map Prod.fst).flatMap (.punctuation separator :: ·) ++ last) (pieces.map Prod.snd)
      rest := by
  induction pieces with
  | nil =>
      rcases closes with rfl | rfl
      · exact .done (by simp [noMore, ended])
      · exact .trailing ended
  | cons piece pieces ih =>
      have later := ih (fun other inside => reads other (by simp [inside]))
        (fun other inside => begins other (by simp [inside]))
      have unended := begins piece (by simp)
        ((pieces.map Prod.fst).flatMap (.punctuation separator :: ·) ++ last ++ rest)
      have behind := behind_piece (pieces.map Prod.fst) last rest closes
      simp only [noMore, Bool.or_eq_false_iff] at unended
      simpa using Further.next unended.2 (reads piece (by simp) _ behind) later

theorem listed_of_separated (pieces : List (List TokenKind × α)) (tokens rest : List TokenKind)
    (apart : Separated separator (pieces.map Prod.fst) tokens) (ended : ends rest = true)
    (reads : ∀ piece ∈ pieces, ∀ behind, opensWith separator behind = true ∨ behind = rest →
      element piece.1 piece.2 behind)
    (begins : ∀ piece ∈ pieces, ∀ behind, noMore ends (piece.1 ++ behind) = false) :
    Listed element separator ends tokens (pieces.map Prod.snd) rest := by
  cases pieces with
  | nil =>
      rw [(separated_nil _ _).mp apart]
      exact .none (by simp [noMore, ended])
  | cons piece pieces =>
      obtain ⟨last, closes, rfl⟩ := (separated_cons _ _ _ _).mp apart
      have later := further_of_pieces pieces last rest ended closes
        (fun other inside => reads other (by simp [inside]))
        (fun other inside => begins other (by simp [inside]))
      have behind := behind_piece (pieces.map Prod.fst) last rest closes
      exact .some (begins piece (by simp) _) (reads piece (by simp) _ behind) later

theorem pieces_of_further {taken rest : List TokenKind} {values : List α}
    (further : Further element separator ends taken values rest)
    {holds : List TokenKind → α → Prop}
    (each : ∀ tokens value behind, element tokens value behind → holds tokens value) :
    ∃ (pieces : List (List TokenKind × α)) (last : List TokenKind),
      values = pieces.map Prod.snd ∧ (last = [] ∨ last = [.punctuation separator]) ∧
        taken = (pieces.map Prod.fst).flatMap (.punctuation separator :: ·) ++ last ∧
        ∀ piece ∈ pieces, holds piece.1 piece.2 := by
  induction further with
  | done _ => exact ⟨[], [], rfl, .inl rfl, rfl, by simp⟩
  | trailing _ => exact ⟨[], _, rfl, .inr rfl, rfl, by simp⟩
  | @next taken more rest value values unended read later ih =>
      obtain ⟨pieces, last, rfl, closes, rfl, inside⟩ := ih
      refine ⟨(taken, value) :: pieces, last, rfl, closes, by simp, ?_⟩
      intro piece member
      rcases List.mem_cons.mp member with rfl | member
      · exact each _ _ _ read
      · exact inside piece member

theorem separated_of_listed {taken rest : List TokenKind} {values : List α}
    (listed : Listed element separator ends taken values rest) {holds : List TokenKind → α → Prop}
    (each : ∀ tokens value behind, element tokens value behind → holds tokens value) :
    ∃ pieces : List (List TokenKind × α), values = pieces.map Prod.snd ∧
      Separated separator (pieces.map Prod.fst) taken ∧
        ∀ piece ∈ pieces, holds piece.1 piece.2 := by
  cases listed with
  | none _ => exact ⟨[], rfl, (separated_nil _ _).mpr rfl, by simp⟩
  | @some front more _ value _ unended read later =>
      obtain ⟨pieces, last, rfl, closes, rfl, inside⟩ := pieces_of_further later each
      refine ⟨(front, value) :: pieces, rfl, ?_, ?_⟩
      · exact (separated_cons _ _ _ _).mpr ⟨last, closes, rfl⟩
      · intro piece member
        rcases List.mem_cons.mp member with rfl | member
        · exact each _ _ _ read
        · exact inside piece member

end Phrase

end ScriptReader
