import ScriptReader.Proofs.Token.Joined

/-!
Texts parted at a newline. Only a literal runs on over a newline, and it ends in a quote. So before a
text without quotes a newline always parts the tokens (`lexes_parted`), whatever is in front of it.
-/

set_option autoImplicit false

namespace ScriptReader

theorem lexes_nil_iff (kinds : List TokenKind) : Lexes [] kinds ↔ kinds = [] := by
  have nothing : (read []).lexed = none := (read_end_iff []).mpr (.whole .none)
  rw [lexes_iff, transcript_end [] nothing]
  exact ⟨fun whole => whole.2.symm, fun empty => ⟨rfl, empty.symm⟩⟩

theorem lexes_mark_iff (c : Char) (mark : isPunctuation c = true) (text : List Char)
    (kinds : List TokenKind) :
    Lexes (c :: text) kinds ↔ ∃ others, kinds = .punctuation c :: others ∧ Lexes text others := by
  constructor
  · have spelled : read (c :: text) = ⟨[], some ⟨.ok (.punctuation c), [c], text⟩⟩ :=
      (read_eq_iff _ _ _ _ _).mpr ⟨rfl, .none, .punctuation c mark, fun _ _ => rfl⟩
    have found : (read (c :: text)).lexed = some ⟨.ok (.punctuation c), [c], text⟩ := by rw [spelled]
    rw [lexes_iff, transcript_token _ _ _ _ found]
    rintro ⟨complete, same⟩
    exact ⟨(transcript text).kinds, same.symm, (lexes_iff _ _).mpr ⟨complete, rfl⟩⟩
  · rintro ⟨others, rfl, lexes⟩
    exact lexes_mark c mark lexes

theorem number_text_char {text : List Char} (well : numberText text = true) {c : Char}
    (member : c ∈ text) : isDigit c = true ∨ c = '.' := by
  rw [numberText, Bool.and_eq_true] at well
  rw [← List.takeWhile_append_dropWhile (p := isDigit) (l := text), List.mem_append] at member
  rcases member with digits | behind
  · exact .inl (List.all_eq_true.mp List.all_takeWhile c digits)
  · cases rest : text.dropWhile isDigit with
    | nil =>
        rw [rest] at behind
        cases behind
    | cons point decimals =>
        rw [rest, decimalText, Bool.and_eq_true, beq_iff_eq] at well
        rw [rest] at behind
        rcases List.mem_cons.mp behind with rfl | decimal
        · exact .inr well.2.1
        · exact .inl (List.all_eq_true.mp well.2.2 c decimal)

theorem word_text_char {text : List Char} (well : wordText text = true) {c : Char}
    (member : c ∈ text) : continuesWord c = true := by
  obtain ⟨first, rest, rfl, opens⟩ := Scan.word_text_head text well
  rw [wordText, Bool.and_eq_true] at well
  rcases List.mem_cons.mp member with rfl | later
  · exact continues_of_opens c opens
  · exact List.all_eq_true.mp well.2 c later

def TokenKind.isLiteral : TokenKind → Bool
  | .string _ | .character _ => true
  | _ => false

theorem literal_of_newline {spelling : List Char} {kind : TokenKind} (spells : Spells spelling kind)
    (inside : '\n' ∈ spelling) : kind.isLiteral = true := by
  cases spells with
  | string within | character c within => rfl
  | number text digits => rcases number_text_char digits inside with digit | point <;> contradiction
  | keyword word => exact absurd (word_text_char (keyword_text word) inside) (by decide)
  | identifier name word free => exact absurd (word_text_char word inside) (by decide)
  | punctuation c mark =>
      obtain rfl := List.mem_singleton.mp inside
      cases mark
  | operator marks filled each => exact absurd (List.all_eq_true.mp each _ inside) (by decide)

theorem quote_of_newline {spelling : List Char} {kind : TokenKind} (spells : Spells spelling kind)
    (inside : '\n' ∈ spelling) :
    ∃ front quote, spelling = front ++ [quote] ∧ (quote = '"' ∨ quote = '\'') := by
  have literal := literal_of_newline spells inside
  cases spells with
  | string within => exact ⟨_ :: _, '"', rfl, .inl rfl⟩
  | character c within => exact ⟨_ :: _, '\'', rfl, .inr rfl⟩
  | _ => cases literal

theorem after_gap_parted {a b : List Char} {last : Bool}
    (reads : Machine.after Scan.gap false (a ++ '\n' :: b) = some last) :
    FinalGap a ∧ Machine.after Scan.gap false b = some last := by
  rw [Machine.after_append] at reads
  cases first : Machine.after Scan.gap false a with
  | none =>
      rw [first] at reads
      cases reads
  | some state =>
      refine ⟨(Scan.after_final_gap_iff a).mp ⟨state, first⟩, ?_⟩
      cases state <;> simpa [first, Machine.after, Scan.gap, isBlank] using reads

theorem gap_parted {a b : List Char} (skips : Gap (a ++ '\n' :: b)) : FinalGap a ∧ Gap b := by
  obtain ⟨front, reads⟩ := after_gap_parted (Scan.after_of_gap skips)
  exact ⟨front, (Scan.after_gap_iff b).mp reads⟩

theorem final_gap_parted {a b : List Char} (final : FinalGap (a ++ '\n' :: b)) :
    FinalGap a ∧ FinalGap b := by
  obtain ⟨last, reads⟩ := (Scan.after_final_gap_iff _).mpr final
  obtain ⟨front, behind⟩ := after_gap_parted reads
  exact ⟨front, (Scan.after_final_gap_iff b).mp ⟨last, behind⟩⟩

theorem quote_behind_newline {x y : List Char} {kind : TokenKind}
    (spells : Spells (x ++ '\n' :: y) kind) : '"' ∈ y ∨ '\'' ∈ y := by
  obtain ⟨front, quote, same, quotes⟩ := quote_of_newline spells (by simp)
  have last : (x ++ '\n' :: y).getLast? = some quote := by simp [same]
  rw [List.getLast?_append, List.getLast?_cons] at last
  cases ended : y.getLast? with
  | none =>
      rw [ended] at last
      rcases quotes with rfl | rfl <;> cases last
  | some other =>
      rw [ended] at last
      obtain rfl : other = quote := by simpa using last
      have inside := List.mem_of_getLast? ended
      rcases quotes with rfl | rfl
      · exact .inl inside
      · exact .inr inside

theorem append_cons_cases {a b u v : List Char} {c : Char} (same : a ++ c :: b = u ++ v) :
    (∃ x, u = a ++ c :: x ∧ b = x ++ v) ∨ ∃ x, a = u ++ x ∧ x ++ c :: b = v := by
  rcases List.append_eq_append_iff.mp same with ⟨x, rfl, behind⟩ | ⟨x, rfl, behind⟩
  · cases x with
    | nil => exact .inr ⟨[], by simp, behind⟩
    | cons d x =>
        obtain ⟨rfl, rfl⟩ := List.cons.inj behind
        exact .inl ⟨x, rfl, rfl⟩
  · exact .inr ⟨x, rfl, behind.symm⟩

theorem lexes_parted {a b : List Char} {kinds : List TokenKind} (double : '"' ∉ b)
    (single : '\'' ∉ b) (lexes : Lexes (a ++ '\n' :: b) kinds) :
    ∃ front behind, Lexes a front ∧ Lexes b behind ∧ kinds = front ++ behind := by
  obtain ⟨lexemes, last, tiles, rfl⟩ := lexes
  generalize whole : a ++ '\n' :: b = text at tiles
  induction tiles generalizing a with
  | done final =>
      obtain ⟨front, behind⟩ := final_gap_parted (whole ▸ final)
      exact ⟨[], [], ⟨[], a, .done front, rfl⟩, ⟨[], b, .done behind, rfl⟩, rfl⟩
  | @next gap spelling rest last kind lexemes skips spells ends later ih =>
      -- The newline is in the gap before the token, in the token, or behind it.
      rcases append_cons_cases whole with ⟨x, rfl, rfl⟩ | ⟨x, rfl, inner⟩
      · obtain ⟨front, behind⟩ := gap_parted skips
        exact ⟨[], _, ⟨[], a, .done front, rfl⟩, ⟨_, last, .next behind spells ends later, rfl⟩, rfl⟩
      · rcases append_cons_cases inner with ⟨y, rfl, rfl⟩ | ⟨y, rfl, further⟩
        · rcases quote_behind_newline spells with quote | quote
          · exact absurd (List.mem_append_left rest quote) double
          · exact absurd (List.mem_append_left rest quote) single
        · obtain ⟨front, behind, ⟨lexemes', last', first, kinds⟩, second, same⟩ := ih further
          have ended : kind.EndsBefore y := ends_of_prefix (further ▸ ends)
          refine ⟨kind :: front, behind, ⟨_, last', .next skips spells ended first, ?_⟩, second, ?_⟩
          · rw [List.map_cons, kinds]
          · rw [List.map_cons, same, List.cons_append]

end ScriptReader
