import Mathlib.Data.List.Chain
import ScriptReader.Proofs.Token.Lookahead
import ScriptReader.Proofs.Token.Spelling

set_option autoImplicit false

namespace ScriptReader

structure Spaced where
  gap : List Char
  kind : TokenKind

def Spaced.text (piece : Spaced) : List Char := piece.gap ++ piece.kind.spelling

def layOut (pieces : List Spaced) (last : List Char) : List Char :=
  pieces.flatMap Spaced.text ++ last

def TokenKind.merges : TokenKind → TokenKind → Bool
  | .operator _, .operator _ => true
  | .keyword _, .keyword _ | .keyword _, .identifier _ | .keyword _, .number _ => true
  | .identifier _, .keyword _ | .identifier _, .identifier _ | .identifier _, .number _ => true
  | .number _, .number _ => true
  | .number _, .punctuation c => c == '.'
  | _, _ => false

theorem punctuation_classes (c : Char) (mark : isPunctuation c = true) :
    isDigit c = false ∧ continuesWord c = false ∧ isOperatorMark c = false := by
  unfold isPunctuation at mark
  split at mark <;> first | decide | cases mark

theorem operator_classes (c : Char) (mark : isOperatorMark c = true) :
    isDigit c = false ∧ continuesWord c = false ∧ c ≠ '.' := by
  unfold isOperatorMark at mark
  split at mark <;> first | decide | cases mark

theorem word_classes (c : Char) (opens : opensWord c = true) :
    isDigit c = false ∧ isOperatorMark c = false ∧ c ≠ '.' := by
  refine ⟨Scan.digit_of_opens c opens, ?_, ?_⟩
  · apply Bool.eq_false_iff.mpr
    intro mark
    have other := (operator_classes c mark).2.1
    rw [continues_of_opens c opens] at other
    cases other
  · rintro rfl
    exact absurd opens (by decide)

theorem digit_classes (c : Char) (digit : isDigit c = true) : isOperatorMark c = false := by
  apply Bool.eq_false_iff.mpr
  intro mark
  rw [(operator_classes c mark).1] at digit
  cases digit

theorem merges_eq (left right : TokenKind) (lexable : right.lexable = true) :
    ∃ c text, right.spelling = c :: text ∧ left.goesOn c = left.merges right := by
  have word : ∀ c, opensWord c = true → left.goesOn c =
      match left with | .keyword _ | .identifier _ => true | _ => false := by
    intro c opens
    obtain ⟨digit, mark, point⟩ := word_classes c opens
    cases left <;> simp [TokenKind.goesOn, digit, mark, point, continues_of_opens c opens]
  cases right with
  | number text =>
      obtain ⟨c, rest, same, digit⟩ := Scan.number_text_head text.toList lexable
      refine ⟨c, rest, same, ?_⟩
      cases left <;> simp [TokenKind.goesOn, TokenKind.merges, digit, continues_of_digit c digit,
        digit_classes c digit]
  | string value => exact ⟨'"', _, rfl, by cases left <;> rfl⟩
  | character value => exact ⟨'\'', _, rfl, by cases left <;> rfl⟩
  | keyword keyword =>
      obtain ⟨c, rest, same, opens⟩ := Scan.word_text_head _ (keyword_text keyword)
      refine ⟨c, rest, same, ?_⟩
      rw [word c opens]
      cases left <;> rfl
  | identifier name =>
      rw [TokenKind.lexable, nameText, Bool.and_eq_true] at lexable
      obtain ⟨c, rest, same, opens⟩ := Scan.word_text_head _ lexable.1
      refine ⟨c, rest, same, ?_⟩
      rw [word c opens]
      cases left <;> rfl
  | punctuation c =>
      obtain ⟨digit, continues, mark⟩ := punctuation_classes c lexable
      refine ⟨c, [], rfl, ?_⟩
      cases left <;> simp [TokenKind.goesOn, TokenKind.merges, digit, continues, mark]
  | operator symbol =>
      simp only [TokenKind.lexable, Bool.and_eq_true, Bool.not_eq_true', List.isEmpty_eq_false_iff]
        at lexable
      obtain ⟨c, rest, same, mark⟩ := Scan.operator_text_head symbol.toList lexable.1 lexable.2
      obtain ⟨digit, continues, point⟩ := operator_classes c mark
      refine ⟨c, rest, same, ?_⟩
      cases left <;> simp [TokenKind.goesOn, TokenKind.merges, digit, continues, mark, point]

theorem gap_ends (kind : TokenKind) {gap : List Char} (skips : Gap gap) (filled : gap ≠ [])
    (rest : List Char) : kind.EndsBefore (gap ++ rest) := by
  intro c head
  cases skips with
  | none => exact absurd rfl filled
  | blank d blank later =>
      cases head
      rcases blank with rfl | rfl | rfl | rfl <;> cases kind <;> rfl
  | comment inside line later =>
      cases head
      cases kind <;> rfl

theorem layout_ends_iff (kind : TokenKind) (pieces : List Spaced) (last : List Char)
    (lexable : ∀ piece ∈ pieces, piece.kind.lexable = true) (gaps : ∀ piece ∈ pieces, Gap piece.gap)
    (final : Gap last) :
    kind.EndsBefore (layOut pieces last) ↔
      ∀ next ∈ pieces.head?, next.gap = [] → kind.merges next.kind = false := by
  cases pieces with
  | nil =>
      refine ⟨fun _ next head => (by cases head), fun _ => ?_⟩
      by_cases filled : last = []
      · subst filled
        exact fun c head => by cases head
      · have ends := gap_ends kind final filled []
        rwa [List.append_nil] at ends
  | cons next pieces =>
      have split : layOut (next :: pieces) last =
          next.gap ++ (next.kind.spelling ++ layOut pieces last) := by
        simp [layOut, Spaced.text]
      rw [split]
      by_cases touching : next.gap = []
      · obtain ⟨c, text, spelled, same⟩ := merges_eq kind next.kind (lexable next (by simp))
        rw [touching, spelled]
        simp [TokenKind.EndsBefore, same, touching]
      · have ends := gap_ends kind (gaps next (by simp)) touching (next.kind.spelling ++ layOut pieces last)
        simp [ends, touching]

theorem spells_eq {spelling : List Char} {kind : TokenKind} (spells : Spells spelling kind) :
    spelling = kind.spelling ∨ ∀ c, kind.goesOn c = false := by
  cases spells with
  | number text digits => exact .inl String.toList_ofList.symm
  | string within => exact .inr fun _ => rfl
  | character c within => exact .inr fun _ => rfl
  | keyword word => exact .inl rfl
  | identifier name word free => exact .inl String.toList_ofList.symm
  | punctuation c mark => exact .inr fun _ => rfl
  | operator marks filled each => exact .inl String.toList_ofList.symm

theorem ends_of_read_back (kind : TokenKind) (rest spelling behind : List Char)
    (found : Scan.token (kind.spelling ++ rest) = some ⟨.ok kind, spelling, behind⟩) :
    kind.EndsBefore rest := by
  obtain ⟨same, spells, ends⟩ := (Scan.token_eq_iff _ _ _ _).mp found
  rcases spells_eq spells with whole | never
  · rw [whole, List.append_cancel_left_eq] at same
    rwa [same]
  · exact fun c _ => never c

theorem ends_of_transcript (piece : Spaced) (rest : List Char) (kinds : List TokenKind)
    (lexable : piece.kind.lexable = true) (skips : Gap piece.gap)
    (same : (transcript (piece.gap ++ (piece.kind.spelling ++ rest))).kinds = piece.kind :: kinds) :
    piece.kind.EndsBefore rest := by
  have behind : (read (piece.gap ++ (piece.kind.spelling ++ rest))).lexed =
      Scan.token (piece.kind.spelling ++ rest) := by
    rw [read, Scan.gap_before_token skips (piece.kind.spelling_spells lexable)]
  cases found : Scan.token (piece.kind.spelling ++ rest) with
  | none =>
      rw [transcript_end _ (behind.trans found)] at same
      cases same
  | some lexed =>
      obtain ⟨outcome, spelling, left⟩ := lexed
      cases outcome with
      | error flaw =>
          rw [transcript_flaw _ flaw spelling left (behind.trans found)] at same
          cases same
      | ok kind =>
          rw [transcript_token _ kind spelling left (behind.trans found)] at same
          obtain rfl : kind = piece.kind := (List.cons.inj same).1
          exact ends_of_read_back _ _ spelling left found

theorem transcript_layout_iff (pieces : List Spaced) (last : List Char)
    (lexable : ∀ piece ∈ pieces, piece.kind.lexable = true) (gaps : ∀ piece ∈ pieces, Gap piece.gap)
    (final : Gap last) :
    (transcript (layOut pieces last)).ending = .complete ∧
        (transcript (layOut pieces last)).kinds = pieces.map Spaced.kind ↔
      pieces.IsChain fun left right => right.gap = [] → left.kind.merges right.kind = false := by
  induction pieces with
  | nil =>
      have ended := (read_end_iff last).mpr (.whole final)
      simp [layOut, transcript_end last ended, Transcript.kinds]
  | cons piece pieces ih =>
      obtain ⟨first, lexable⟩ := List.forall_mem_cons.mp lexable
      obtain ⟨skips, gaps⟩ := List.forall_mem_cons.mp gaps
      have spells := piece.kind.spelling_spells first
      have split : layOut (piece :: pieces) last =
          piece.gap ++ (piece.kind.spelling ++ layOut pieces last) := by
        simp [layOut, Spaced.text]
      rw [List.isChain_cons, ← layout_ends_iff piece.kind pieces last lexable gaps final, ← ih lexable gaps]
      by_cases ends : piece.kind.EndsBefore (layOut pieces last)
      · have reading := (read_eq_iff _ _ _ _ _).mpr ⟨split, skips, spells, ends⟩
        rw [transcript_token _ piece.kind piece.kind.spelling (layOut pieces last) (by rw [reading])]
        simp [Transcript.kinds, ends]
      · refine iff_of_false (fun whole => ends ?_) (fun chain => ends chain.1)
        rw [split] at whole
        exact ends_of_transcript piece _ _ first skips whole.2

theorem layout_read_back_iff (pieces : List Spaced) (last : List Char)
    (lexable : ∀ piece ∈ pieces, piece.kind.lexable = true) (gaps : ∀ piece ∈ pieces, Gap piece.gap)
    (final : Gap last) :
    (∃ tokens, tokenize (String.ofList (layOut pieces last)) = .ok tokens ∧
        tokens.map Token.kind = pieces.map Spaced.kind) ↔
      pieces.IsChain fun left right => right.gap = [] → left.kind.merges right.kind = false := by
  rw [← transcript_layout_iff pieces last lexable gaps final]
  constructor
  · rintro ⟨tokens, lexed, same⟩
    have complete := ((tokenize_ok_iff _ _).mp lexed).1
    rw [kinds_of_tokenize lexed] at same
    rw [String.toList_ofList] at complete same
    exact ⟨complete, same⟩
  · rintro ⟨complete, same⟩
    obtain ⟨tokens, lexed⟩ := tokenize_total (String.ofList (layOut pieces last))
      (by rw [String.toList_ofList]; exact complete)
    refine ⟨tokens, lexed, ?_⟩
    rw [kinds_of_tokenize lexed, String.toList_ofList]
    exact same

theorem touching_tokens_read_back :
    ∃ tokens, tokenize "if#!\nx1\"a\\\"\"1. .2'\\''" = .ok tokens ∧
      tokens.map Token.kind = [.keyword .ifWord, .identifier "x1", .string "a\"", .number "1.",
        .punctuation '.', .number "2", .character '\''] := by
  let pieces : List Spaced := [⟨[], .keyword .ifWord⟩, ⟨['#', '!', '\n'], .identifier "x1"⟩,
    ⟨[], .string "a\""⟩, ⟨[], .number "1."⟩, ⟨[' '], .punctuation '.'⟩, ⟨[], .number "2"⟩,
    ⟨[], .character '\''⟩]
  have lexable : ∀ piece ∈ pieces, piece.kind.lexable = true := by decide +kernel
  have gaps : ∀ piece ∈ pieces, Gap piece.gap := by
    intro piece member
    simp only [pieces, List.mem_cons, List.not_mem_nil, or_false] at member
    rcases member with rfl | rfl | rfl | rfl | rfl | rfl | rfl
    · exact .none
    · exact .comment ['!'] (by decide) .none
    · exact .none
    · exact .none
    · exact .blank ' ' (.inl rfl) .none
    · exact .none
    · exact .none
  exact (layout_read_back_iff pieces [] lexable gaps .none).mpr (by decide)

end ScriptReader
