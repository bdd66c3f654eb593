import ScriptReader.Proofs.Token.Lookahead
import ScriptReader.Proofs.Token.Spells

set_option autoImplicit false

namespace ScriptReader

-- No longer beginning of the text spells a token, and a number is not cut short by a point.
structure Munched (spelling : List Char) (kind : TokenKind) (behind : List Char) : Prop where
  longest : ∀ longer other, longer <+: spelling ++ behind → Spells longer other →
    longer.length ≤ spelling.length
  pointless : ∀ text, kind = .number text → behind.head? ≠ some '.'

structure Tiling (text : List Char) (lexemes : List Lexeme) (last : List Char)
    (tokens : List Token) : Prop where
  covers : lexemes.flatMap Lexeme.text ++ last = text
  gaps : ∀ lexeme ∈ lexemes, Gap lexeme.gap
  final : FinalGap last
  filled : ∀ lexeme ∈ lexemes, lexeme.spelling ≠ []
  spells : ∀ lexeme ∈ lexemes, Spells lexeme.spelling lexeme.kind
  munched : ∀ before lexeme after, lexemes = before ++ lexeme :: after →
    Munched lexeme.spelling lexeme.kind (after.flatMap Lexeme.text ++ last)
  count : tokens.length = lexemes.length
  placed : ∀ before lexeme after, lexemes = before ++ lexeme :: after →
    tokens[before.length]? =
      some ⟨lexeme.kind, Position.start.advanceOver (before.flatMap Lexeme.text ++ lexeme.gap)⟩

theorem number_text_snoc (text : List Char) (c : Char) (well : numberText text = true)
    (digit : isDigit c = true) : numberText (text ++ [c]) = true := by
  obtain ⟨d, rest, rfl, first⟩ := Scan.number_text_head text well
  rw [Scan.number_text_cons d rest first] at well
  obtain ⟨last, reads⟩ := (Scan.after_number_iff rest).mpr well
  have further : Machine.after Scan.number false (rest ++ [c]) = some last := by
    simp [Machine.after_append, reads, Machine.after, Scan.number, digit]
  rw [List.cons_append, Scan.number_text_cons d _ first]
  exact (Scan.after_number_iff _).mp ⟨last, further⟩

theorem word_text_snoc (text : List Char) (c : Char) (well : wordText text = true)
    (continues : continuesWord c = true) : wordText (text ++ [c]) = true := by
  cases text with
  | nil => cases well
  | cons d text =>
      rw [wordText, Bool.and_eq_true] at well
      rw [List.cons_append, wordText, well.1, List.all_append, well.2, List.all_cons, continues]
      rfl

-- A character that goes on with a token makes it a longer one; only a point may be one too many.
theorem spells_snoc {spelling : List Char} {kind : TokenKind} (spells : Spells spelling kind)
    (c : Char) (goes : kind.goesOn c = true) (pointless : ∀ text, kind = .number text → c ≠ '.') :
    ∃ other, Spells (spelling ++ [c]) other := by
  cases spells with
  | number text digits =>
      have point := pointless _ rfl
      have digit : isDigit c = true := by simpa [TokenKind.goesOn, point] using goes
      exact ⟨_, .number _ (number_text_snoc spelling c digits digit)⟩
  | keyword word => exact ⟨_, Scan.word_kind_spells _ (word_text_snoc _ c (keyword_text word) goes)⟩
  | identifier name word free => exact ⟨_, Scan.word_kind_spells _ (word_text_snoc _ c word goes)⟩
  | operator marks filled each =>
      have mark : isOperatorMark c = true := goes
      refine ⟨_, .operator _ (by simp) ?_⟩
      rw [List.all_append, each, List.all_cons, mark]
      rfl
  | string within => cases goes
  | character d within => cases goes
  | punctuation d mark => cases goes

-- Two tokens cannot both stand at the head of a text, so that a longer one is what goes on.
theorem longest_of_ends {spelling behind longer : List Char} {kind other : TokenKind}
    (spells : Spells spelling kind) (ends : kind.EndsBefore behind)
    (beginning : longer <+: spelling ++ behind) (spelled : Spells longer other) :
    longer.length ≤ spelling.length := by
  by_cases shorter : longer.length ≤ spelling.length
  · exact shorter
  · have within : spelling <+: longer := List.prefix_of_prefix_length_le
      (List.prefix_append spelling behind) beginning (Nat.le_of_not_le shorter)
    obtain ⟨more, rfl⟩ := within
    obtain ⟨rest, same⟩ := beginning
    rw [List.append_assoc, List.append_cancel_left_eq] at same
    have ended : kind.EndsBefore (more ++ []) := by
      cases more with
      | nil => exact fun c head => by cases head
      | cons c more =>
          rw [← same] at ends
          exact ends
    have once := Scan.token_of_spells spells (more ++ []) ended
    have twice := Scan.token_of_spells spelled [] (fun c head => by cases head)
    rw [List.append_assoc, once, Option.some.injEq, Lexed.mk.injEq] at twice
    exact Nat.le_of_eq (congrArg List.length twice.2.1.symm)

theorem munched_iff {spelling : List Char} {kind : TokenKind} (spells : Spells spelling kind)
    (behind : List Char) : Munched spelling kind behind ↔ kind.EndsBefore behind := by
  constructor
  · intro munched c head
    by_cases goes : kind.goesOn c = true
    · obtain ⟨rest, rfl⟩ := List.head?_eq_some_iff.mp head
      have pointless : ∀ text, kind = .number text → c ≠ '.' := fun text same point =>
        munched.pointless text same (congrArg some point)
      obtain ⟨other, longer⟩ := spells_snoc spells c goes pointless
      have bound := munched.longest _ other ⟨rest, by simp⟩ longer
      rw [List.length_append, List.length_singleton] at bound
      omega
    · exact Bool.eq_false_iff.mpr goes
  · intro ends
    refine ⟨fun longer other beginning spelled => longest_of_ends spells ends beginning spelled, ?_⟩
    rintro text rfl point
    have next := ends '.' point
    simp [TokenKind.goesOn] at next

inductive Tiles : List Char → List Lexeme → List Char → Prop where
  | done {last : List Char} (final : FinalGap last) : Tiles last [] last
  | next {gap spelling rest last : List Char} {kind : TokenKind} {lexemes : List Lexeme}
      (skips : Gap gap) (spells : Spells spelling kind) (ends : kind.EndsBefore rest)
      (later : Tiles rest lexemes last) :
      Tiles (gap ++ (spelling ++ rest)) (⟨gap, spelling, kind⟩ :: lexemes) last

theorem transcript_complete_iff (text : List Char) (lexemes : List Lexeme) (last : List Char) :
    transcript text = ⟨lexemes, last, .complete⟩ ↔ Tiles text lexemes last := by
  constructor
  · intro same
    induction text using transcript_induction generalizing lexemes with
    | finished text found =>
        rw [transcript_end text found, Transcript.mk.injEq] at same
        obtain ⟨rfl, rfl, _⟩ := same
        exact .done ((read_end_iff text).mp found)
    | token text kind spelling rest found ih =>
        rw [transcript_token text kind spelling rest found, Transcript.mk.injEq] at same
        obtain ⟨rfl, rfl, complete⟩ := same
        have reading : read text = ⟨(read text).gap, some ⟨.ok kind, spelling, rest⟩⟩ := by rw [← found]
        obtain ⟨pieces, skips, spells, ends⟩ := (read_eq_iff _ _ _ _ _).mp reading
        have later := ih (transcript rest).lexemes (by rw [← complete])
        have tiles := Tiles.next skips spells ends later
        rwa [← pieces] at tiles
    | flaw text flaw spelling rest found =>
        rw [transcript_flaw text flaw spelling rest found] at same
        cases same
  · intro tiles
    induction tiles with
    | done final => exact transcript_end _ ((read_end_iff _).mpr final)
    | next skips spells ends later ih =>
        have reading := (read_eq_iff _ _ _ _ _).mpr ⟨rfl, skips, spells, ends⟩
        rw [transcript_token _ _ _ _ (by rw [reading]), reading, ih]

theorem tiles_covers {text last : List Char} {lexemes : List Lexeme}
    (tiles : Tiles text lexemes last) : lexemes.flatMap Lexeme.text ++ last = text := by
  induction tiles with
  | done final => rfl
  | next skips spells ends later ih =>
      rw [List.flatMap_cons, List.append_assoc, ih, Lexeme.text, List.append_assoc]

theorem tiles_lexeme {text last : List Char} {lexemes : List Lexeme}
    (tiles : Tiles text lexemes last) (lexeme : Lexeme) (member : lexeme ∈ lexemes) :
    Gap lexeme.gap ∧ Spells lexeme.spelling lexeme.kind := by
  induction tiles with
  | done final => cases member
  | next skips spells ends later ih =>
      rcases List.mem_cons.mp member with rfl | inside
      · exact ⟨skips, spells⟩
      · exact ih inside

theorem tiles_final {text last : List Char} {lexemes : List Lexeme}
    (tiles : Tiles text lexemes last) : FinalGap last := by
  induction tiles with
  | done final => exact final
  | next skips spells ends later ih => exact ih

theorem tiles_ends {text last : List Char} {before after : List Lexeme} {lexeme : Lexeme}
    (tiles : Tiles text (before ++ lexeme :: after) last) :
    lexeme.kind.EndsBefore (after.flatMap Lexeme.text ++ last) := by
  induction before generalizing text with
  | nil =>
      cases tiles with
      | next skips spells ends later => rwa [tiles_covers later]
  | cons first before ih =>
      cases tiles with
      | next skips spells ends later => exact ih later

theorem tiles_of_pieces (lexemes : List Lexeme) (last : List Char) (final : FinalGap last)
    (each : ∀ lexeme ∈ lexemes, Gap lexeme.gap ∧ Spells lexeme.spelling lexeme.kind)
    (ends : ∀ before lexeme after, lexemes = before ++ lexeme :: after →
      lexeme.kind.EndsBefore (after.flatMap Lexeme.text ++ last)) :
    Tiles (lexemes.flatMap Lexeme.text ++ last) lexemes last := by
  induction lexemes with
  | nil => exact .done final
  | cons lexeme lexemes ih =>
      have here := each lexeme (by simp)
      have later := ih (fun other member => each other (by simp [member]))
        (fun before other after same => ends (lexeme :: before) other after (by rw [same]; rfl))
      rw [List.flatMap_cons, List.append_assoc, Lexeme.text, List.append_assoc]
      exact .next here.1 here.2 (ends [] lexeme lexemes rfl) later

theorem placed_iff (lexemes : List Lexeme) (tokens : List Token) :
    tokens = tokensFrom .start lexemes ↔
      tokens.length = lexemes.length ∧
        ∀ before lexeme after, lexemes = before ++ lexeme :: after →
          tokens[before.length]? = some
            ⟨lexeme.kind, Position.start.advanceOver (before.flatMap Lexeme.text ++ lexeme.gap)⟩ := by
  constructor
  · rintro rfl
    refine ⟨tokens_from_length _ _, ?_⟩
    rintro before lexeme after rfl
    exact tokens_from_getElem _ before after lexeme
  · rintro ⟨count, placed⟩
    apply List.ext_getElem?
    intro index
    by_cases inside : index < lexemes.length
    · have split : lexemes = lexemes.take index ++ lexemes[index] :: lexemes.drop (index + 1) := by
        rw [← List.drop_eq_getElem_cons inside, List.take_append_drop]
      have here := placed _ _ _ split
      have there := tokens_from_getElem .start (lexemes.take index) (lexemes.drop (index + 1))
        lexemes[index]
      rw [← split] at there
      rw [List.length_take_of_le (Nat.le_of_lt inside)] at here there
      rw [here, there]
    · have outside := Nat.le_of_not_lt inside
      rw [List.getElem?_eq_none (by rw [count]; exact outside),
        List.getElem?_eq_none (by rw [tokens_from_length]; exact outside)]

theorem tiling_iff (text : List Char) (lexemes : List Lexeme) (last : List Char)
    (tokens : List Token) :
    Tiling text lexemes last tokens ↔
      Tiles text lexemes last ∧ tokens = tokensFrom .start lexemes := by
  constructor
  · intro tiling
    refine ⟨?_, (placed_iff lexemes tokens).mpr ⟨tiling.count, tiling.placed⟩⟩
    have tiles := tiles_of_pieces lexemes last tiling.final
      (fun lexeme member => ⟨tiling.gaps lexeme member, tiling.spells lexeme member⟩)
      (fun before lexeme after same => by
        have spells := tiling.spells lexeme (by simp [same])
        exact (munched_iff spells _).mp (tiling.munched before lexeme after same))
    rwa [tiling.covers] at tiles
  · rintro ⟨tiles, same⟩
    obtain ⟨count, placed⟩ := (placed_iff lexemes tokens).mp same
    have each := tiles_lexeme tiles
    refine {
      covers := tiles_covers tiles
      gaps := fun lexeme member => (each lexeme member).1
      final := tiles_final tiles
      filled := fun lexeme member => ?_
      spells := fun lexeme member => (each lexeme member).2
      munched := ?_
      count := count
      placed := placed }
    · obtain ⟨c, text, filled, _⟩ := Scan.spells_head (each lexeme member).2
      rw [filled]
      exact List.cons_ne_nil _ _
    · rintro before lexeme after rfl
      exact (munched_iff (each lexeme (by simp)).2 _).mpr (tiles_ends tiles)

theorem tokenize_ok_iff_tiling (source : String) (tokens : List Token) :
    tokenize source = .ok tokens ↔
      ∃ lexemes last, Tiling source.toList lexemes last tokens := by
  rw [tokenize_ok_iff]
  constructor
  · rintro ⟨complete, same⟩
    refine ⟨_, (transcript source.toList).gap, (tiling_iff _ _ _ _).mpr ⟨?_, same⟩⟩
    exact (transcript_complete_iff _ _ _).mp (by rw [← complete])
  · rintro ⟨lexemes, last, tiling⟩
    obtain ⟨tiles, same⟩ := (tiling_iff _ _ _ _).mp tiling
    rw [(transcript_complete_iff _ _ _).mpr tiles]
    exact ⟨rfl, same⟩

end ScriptReader
