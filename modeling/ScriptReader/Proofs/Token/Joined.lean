import ScriptReader.Proofs.Token.Layout
import ScriptReader.Proofs.Token.Tiling

set_option autoImplicit false

namespace ScriptReader

def Lexes (text : List Char) (kinds : List TokenKind) : Prop :=
  ∃ lexemes last, Tiles text lexemes last ∧ lexemes.map Lexeme.kind = kinds

theorem lexes_iff (text : List Char) (kinds : List TokenKind) :
    Lexes text kinds ↔ (transcript text).ending = .complete ∧ (transcript text).kinds = kinds := by
  constructor
  · rintro ⟨lexemes, last, tiles, same⟩
    rw [(transcript_complete_iff text lexemes last).mpr tiles]
    exact ⟨rfl, same⟩
  · rintro ⟨complete, same⟩
    refine ⟨(transcript text).lexemes, (transcript text).gap, ?_, same⟩
    exact (transcript_complete_iff _ _ _).mp (by rw [← complete])

theorem lexes_iff_tokenize (source : String) (kinds : List TokenKind) :
    Lexes source.toList kinds ↔
      ∃ tokens, tokenize source = .ok tokens ∧ tokens.map Token.kind = kinds := by
  rw [lexes_iff]
  constructor
  · rintro ⟨complete, same⟩
    obtain ⟨tokens, lexed⟩ := tokenize_total source complete
    exact ⟨tokens, lexed, by rw [kinds_of_tokenize lexed, same]⟩
  · rintro ⟨tokens, lexed, same⟩
    rw [kinds_of_tokenize lexed] at same
    exact ⟨((tokenize_ok_iff _ _).mp lexed).1, same⟩

theorem gap_append {a b : List Char} (first : Gap a) (second : Gap b) : Gap (a ++ b) := by
  induction first with
  | none => exact second
  | blank c blank later ih => exact .blank c blank ih
  | comment inside line later ih =>
      rw [List.cons_append, List.append_assoc, List.cons_append]
      exact .comment inside line ih

theorem final_gap_append {a b : List Char} (first : Gap a) (second : FinalGap b) : FinalGap (a ++ b) := by
  cases second with
  | whole skips => exact .whole (gap_append first skips)
  | comment skips inside line =>
      rw [← List.append_assoc]
      exact .comment (gap_append first skips) inside line

-- A newline ends the comment that the end of a text may leave open.
theorem gap_newline {a : List Char} (final : FinalGap a) : Gap (a ++ ['\n']) := by
  cases final with
  | whole skips => exact gap_append skips (.blank '\n' (.inr (.inr (.inl rfl))) .none)
  | comment skips inside line =>
      rw [List.append_assoc, List.cons_append]
      exact gap_append skips (.comment inside line .none)

theorem ends_of_prefix {kind : TokenKind} {a b : List Char} (ends : kind.EndsBefore (a ++ b)) :
    kind.EndsBefore a := by
  cases a with
  | nil => exact fun c head => by cases head
  | cons c a => exact ends

theorem ends_before_newline (kind : TokenKind) (text : List Char) : kind.EndsBefore ('\n' :: text) := by
  have newline : Gap ['\n'] := .blank '\n' (.inr (.inr (.inl rfl))) .none
  exact gap_ends kind newline (List.cons_ne_nil _ _) text

theorem ends_before_line {kind : TokenKind} {rest : List Char} (ends : kind.EndsBefore rest)
    (text : List Char) : kind.EndsBefore (rest ++ '\n' :: text) := by
  cases rest with
  | nil => exact ends_before_newline kind text
  | cons c rest => exact ends

theorem lexes_gap {gap text : List Char} {kinds : List TokenKind} (skips : Gap gap)
    (lexes : Lexes text kinds) : Lexes (gap ++ text) kinds := by
  obtain ⟨lexemes, last, tiles, same⟩ := lexes
  cases tiles with
  | done final => exact ⟨[], _, .done (final_gap_append skips final), same⟩
  | next inner spells ends later =>
      rw [← List.append_assoc]
      exact ⟨_, last, .next (gap_append skips inner) spells ends later, same⟩

theorem lexes_nil : Lexes [] [] := ⟨[], [], .done (.whole .none), rfl⟩

theorem lexes_cons (kind : TokenKind) {text : List Char} {kinds : List TokenKind}
    (lexable : kind.lexable = true) (ends : kind.EndsBefore text) (lexes : Lexes text kinds) :
    Lexes (kind.spelling ++ text) (kind :: kinds) := by
  obtain ⟨lexemes, last, tiles, same⟩ := lexes
  have spells := kind.spelling_spells lexable
  exact ⟨_, last, .next .none spells ends tiles, by rw [List.map_cons, same]⟩

theorem lexes_mark (c : Char) (mark : isPunctuation c = true) {text : List Char}
    {kinds : List TokenKind} (lexes : Lexes text kinds) : Lexes (c :: text) (.punctuation c :: kinds) :=
  lexes_cons (.punctuation c) mark (fun _ _ => rfl) lexes

theorem lexes_spaced (kind : TokenKind) (lexable : kind.lexable = true) {text : List Char}
    {kinds : List TokenKind} (lexes : Lexes text kinds) :
    Lexes (kind.spelling ++ ' ' :: text) (kind :: kinds) := by
  have blank : Gap [' '] := .blank ' ' (.inl rfl) .none
  have ends := gap_ends kind blank (List.cons_ne_nil _ _) text
  exact lexes_cons kind lexable ends (lexes_gap blank lexes)

theorem lexes_marked (kind : TokenKind) (c : Char) (lexable : kind.lexable = true)
    (mark : isPunctuation c = true) (ended : kind.goesOn c = false) {text : List Char}
    {kinds : List TokenKind} (lexes : Lexes text kinds) :
    Lexes (kind.spelling ++ c :: text) (kind :: .punctuation c :: kinds) := by
  have ends : kind.EndsBefore (c :: text) := by
    intro d head
    cases head
    exact ended
  exact lexes_cons kind lexable ends (lexes_mark c mark lexes)

theorem lexes_append {a b : List Char} {front behind : List TokenKind} (first : Lexes a front)
    (second : Lexes b behind) : Lexes (a ++ '\n' :: b) (front ++ behind) := by
  obtain ⟨lexemes, last, tiles, rfl⟩ := first
  induction tiles with
  | done final =>
      have joined := lexes_gap (gap_newline final) second
      rwa [List.append_assoc] at joined
  | @next gap spelling rest last kind lexemes skips spells ends later ih =>
      obtain ⟨others, final, tiles, same⟩ := ih
      refine ⟨⟨gap, spelling, kind⟩ :: others, final, ?_, by simp [same]⟩
      have whole := Tiles.next skips spells (ends_before_line ends b) tiles
      simpa using whole

theorem lexes_written (kinds : List TokenKind) (lexable : Lexable kinds) :
    Lexes (TokenKind.written kinds) kinds := by
  rw [lexes_iff, transcript_written kinds lexable]
  simp [Transcript.kinds, Function.comp_def]

theorem read_of_lexed {text spelling rest : List Char} {kind : TokenKind}
    (found : (read text).lexed = some ⟨.ok kind, spelling, rest⟩) :
    text = (read text).gap ++ (spelling ++ rest) ∧ Gap (read text).gap ∧ Spells spelling kind ∧
      kind.EndsBefore rest :=
  (read_eq_iff text _ spelling rest kind).mp (by rw [← found])

theorem taken_initial (text : List Char) (count : Nat) :
    ((transcript text).lexemes.take count).flatMap Lexeme.text <+: text := by
  have whole := transcript_text text
  rw [Transcript.text, ← List.take_append_drop count (transcript text).lexemes, List.flatMap_append,
    List.append_assoc, List.append_assoc] at whole
  exact ⟨_, whole⟩

theorem tiles_cut (text last : List Char) (count : Nat) (final : FinalGap last)
    (cut : ((transcript text).lexemes.take count).flatMap Lexeme.text ++ last <+: text) :
    Tiles (((transcript text).lexemes.take count).flatMap Lexeme.text ++ last)
      ((transcript text).lexemes.take count) last := by
  induction text using transcript_induction generalizing count with
  | finished text found =>
      rw [transcript_end text found, List.take_nil]
      exact .done final
  | flaw text flaw spelling rest found =>
      rw [transcript_flaw text flaw spelling rest found, List.take_nil]
      exact .done final
  | token text kind spelling rest found ih =>
      obtain ⟨whole, skips, spells, ends⟩ := read_of_lexed found
      rw [transcript_token text kind spelling rest found] at cut ⊢
      cases count with
      | zero => exact .done final
      | succ count =>
          simp only [List.take_succ_cons, List.flatMap_cons, Lexeme.text, List.append_assoc] at cut ⊢
          generalize (read text).gap = gap at whole skips cut ⊢
          subst whole
          rw [List.prefix_append_right_inj, List.prefix_append_right_inj] at cut
          obtain ⟨behind, same⟩ := cut
          have further : kind.EndsBefore (((transcript rest).lexemes.take count).flatMap Lexeme.text ++
              last) := ends_of_prefix (same ▸ ends)
          exact .next skips spells further (ih count ⟨behind, same⟩)

theorem lexes_cut (text last : List Char) (count : Nat) (final : FinalGap last)
    (cut : ((transcript text).lexemes.take count).flatMap Lexeme.text ++ last <+: text) :
    Lexes (((transcript text).lexemes.take count).flatMap Lexeme.text ++ last)
      ((transcript text).kinds.take count) :=
  ⟨_, last, tiles_cut text last count final cut, by rw [Transcript.kinds, List.map_take]⟩

theorem transcript_lexeme {text : List Char} {lexeme : Lexeme}
    (member : lexeme ∈ (transcript text).lexemes) :
    Gap lexeme.gap ∧ Spells lexeme.spelling lexeme.kind := by
  have front := taken_initial text (transcript text).lexemes.length
  rw [← List.append_nil (List.flatMap _ _)] at front
  have tiles := tiles_cut text [] _ (.whole .none) front
  rw [List.take_length] at tiles
  exact tiles_lexeme tiles lexeme member

end ScriptReader
