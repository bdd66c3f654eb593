import ScriptReader.Proofs.Token.Joined

set_option autoImplicit false

namespace ScriptReader

/-- The tokens of a text, as far as they go before its end or its first flaw. -/
def yielded (source : String) : List Token := tokensFrom .start (transcript source.toList).lexemes

def textThrough (source : String) (count : Nat) : String :=
  String.ofList (((transcript source.toList).lexemes.take count).flatMap Lexeme.text)

theorem yielded_of_tokenize {source : String} {tokens : List Token}
    (lexed : tokenize source = .ok tokens) : yielded source = tokens :=
  ((tokenize_ok_iff _ _).mp lexed).2.symm

theorem yielded_kinds (source : String) :
    (yielded source).map Token.kind = (transcript source.toList).kinds :=
  tokens_from_kinds _ _

theorem drop_yielded {source : String} {index : Nat} {token : Token}
    (there : (yielded source)[index]? = some token) :
    ((yielded source).map Token.kind).drop index =
      token.kind :: ((yielded source).map Token.kind).drop (index + 1) := by
  obtain ⟨bound, rfl⟩ := List.getElem?_eq_some_iff.mp there
  rw [← List.map_drop, List.drop_eq_getElem_cons bound, List.map_cons, List.map_drop]

theorem yielded_split {source : String} {index : Nat} {token : Token}
    (there : (yielded source)[index]? = some token) :
    ∃ before lexeme after, (transcript source.toList).lexemes = before ++ lexeme :: after ∧
      before.length = index ∧
      token = ⟨lexeme.kind, Position.start.advanceOver (before.flatMap Lexeme.text ++ lexeme.gap)⟩ := by
  have inside : index < (transcript source.toList).lexemes.length := by
    have bound := (List.getElem?_eq_some_iff.mp there).1
    rwa [yielded, tokens_from_length] at bound
  have split : (transcript source.toList).lexemes =
      (transcript source.toList).lexemes.take index ++ (transcript source.toList).lexemes[index] ::
        (transcript source.toList).lexemes.drop (index + 1) := by
    rw [← List.drop_eq_getElem_cons inside, List.take_append_drop]
  refine ⟨_, _, _, split, List.length_take_of_le (Nat.le_of_lt inside), ?_⟩
  have placed := tokens_from_getElem .start ((transcript source.toList).lexemes.take index)
    ((transcript source.toList).lexemes.drop (index + 1)) (transcript source.toList).lexemes[index]
  rw [← split, List.length_take_of_le (Nat.le_of_lt inside)] at placed
  exact Option.some.inj (there.symm.trans placed)

theorem peek_yielded {source : String} {index : Nat} {token : Token}
    (there : (yielded source)[index]? = some token) :
    ((TokenStream.ofString source).skip index).peek.1 = .ok (some token) := by
  obtain ⟨before, lexeme, after, split, rfl, rfl⟩ := yielded_split there
  obtain ⟨rest, same, skipped⟩ := TokenStream.skip_lexemes before.length source.toList .start
    (by rw [split, List.length_append]; omega)
  have first : (transcript rest).lexemes = lexeme :: after := by
    rw [same, split]
    exact List.drop_left
  rw [TokenStream.of_string_eq, skipped, TokenStream.peek_lexeme rest _ lexeme after first, split,
    List.take_left, Position.advance_over_append]
  rfl

theorem yielded_front {source : String} {index : Nat} {token : Token}
    (there : (yielded source)[index]? = some token) :
    ∃ front behind, source.toList = front ++ behind ∧ Position.start.advanceOver front = token.position ∧
      Lexes front ((transcript source.toList).kinds.take index) := by
  obtain ⟨before, lexeme, after, split, rfl, rfl⟩ := yielded_split there
  have whole := transcript_text source.toList
  rw [Transcript.text, split] at whole
  have taken : (transcript source.toList).lexemes.take before.length = before := by
    rw [split, List.take_left]
  have member : lexeme ∈ (transcript source.toList).lexemes := by simp [split]
  have cut : before.flatMap Lexeme.text ++ lexeme.gap <+: source.toList := by
    rw [← whole]
    exact ⟨lexeme.spelling ++ (after.flatMap Lexeme.text ++ ((transcript source.toList).gap ++
      (transcript source.toList).ending.text)), by simp [Lexeme.text]⟩
  have lexes := lexes_cut source.toList lexeme.gap before.length (.whole (transcript_lexeme member).1)
    (by rwa [taken])
  rw [taken] at lexes
  obtain ⟨behind, same⟩ := cut
  exact ⟨_, behind, same.symm, rfl, lexes⟩

theorem le_of_tokens_from (p : Position) (lexemes : List Lexeme) (token : Token)
    (member : token ∈ tokensFrom p lexemes) : p ≤ token.position := by
  induction lexemes generalizing p with
  | nil => cases member
  | cons lexeme lexemes ih =>
      rw [tokens_from_cons] at member
      rcases List.mem_cons.mp member with rfl | inside
      · exact Position.le_advance_over p lexeme.gap
      · exact Position.le_trans (Position.le_advance_over p lexeme.text) (ih _ inside)

theorem tokens_from_increasing (p : Position) (lexemes : List Lexeme)
    (filled : ∀ lexeme ∈ lexemes, lexeme.spelling ≠ []) :
    (tokensFrom p lexemes).Pairwise fun a b => a.position < b.position := by
  induction lexemes generalizing p with
  | nil => exact .nil
  | cons lexeme lexemes ih =>
      obtain ⟨here, others⟩ := List.forall_mem_cons.mp filled
      rw [tokens_from_cons, List.pairwise_cons]
      refine ⟨fun token member => ?_, ih _ others⟩
      have further := le_of_tokens_from _ lexemes token member
      rw [Lexeme.text, Position.advance_over_append] at further
      have moved := Position.lt_advance_over (p.advanceOver lexeme.gap) lexeme.spelling here
      rcases further with less | same
      · exact Position.lt_trans moved less
      · exact same ▸ moved

theorem yielded_increasing (source : String) :
    (yielded source).Pairwise fun a b => a.position < b.position := by
  refine tokens_from_increasing _ _ fun lexeme member => ?_
  obtain ⟨c, text, filled, _⟩ := Scan.spells_head (transcript_lexeme member).2
  exact filled ▸ List.cons_ne_nil c text

theorem index_of_position {source : String} {i j : Nat} {token other : Token}
    (first : (yielded source)[i]? = some token) (second : (yielded source)[j]? = some other)
    (same : token.position = other.position) : i = j := by
  obtain ⟨boundI, rfl⟩ := List.getElem?_eq_some_iff.mp first
  obtain ⟨boundJ, rfl⟩ := List.getElem?_eq_some_iff.mp second
  have increasing := List.pairwise_iff_getElem.mp (yielded_increasing source)
  rcases Nat.lt_trichotomy i j with less | equal | less
  · exact absurd (same ▸ increasing i j boundI boundJ less) (Position.lt_irrefl _)
  · exact equal
  · exact absurd (same ▸ increasing j i boundJ boundI less) (Position.lt_irrefl _)

theorem position_yielded_iff {source : String} {index : Nat} {token : Token}
    (there : (yielded source)[index]? = some token) (i : Nat) :
    (yielded source)[i]?.map Token.position = some token.position ↔ i = index := by
  constructor
  · intro placed
    obtain ⟨other, found, same⟩ := Option.map_eq_some_iff.mp placed
    exact index_of_position found there same
  · rintro rfl
    rw [there]
    rfl

theorem text_through_initial (source : String) (count : Nat) :
    (textThrough source count).toList <+: source.toList := by
  rw [textThrough, String.toList_ofList]
  exact taken_initial source.toList count

theorem text_through_lexes (source : String) (count : Nat) :
    Lexes (textThrough source count).toList ((transcript source.toList).kinds.take count) := by
  have cut := text_through_initial source count
  rw [textThrough, String.toList_ofList] at cut ⊢
  rw [← List.append_nil (List.flatMap _ _)] at cut ⊢
  exact lexes_cut source.toList [] count (.whole .none) cut

theorem position_of_skip (source : String) (count : Nat) (enough : count ≤ (yielded source).length) :
    ((TokenStream.ofString source).skip count).position =
      Position.start.advanceOver (textThrough source count).toList := by
  rw [yielded, tokens_from_length] at enough
  obtain ⟨rest, _, skipped⟩ := TokenStream.skip_lexemes count source.toList .start enough
  rw [TokenStream.of_string_eq, skipped, textThrough, String.toList_ofList]
  rfl

theorem position_of_peek {stream : TokenStream} {token : Token}
    (shown : stream.peek.1 = .ok (some token)) : stream.peek.2.position = token.position := by
  obtain ⟨cursor, peeked, failed⟩ := stream
  cases peeked with
  | some held =>
      cases shown
      rfl
  | none =>
      simp only [TokenStream.peek] at shown ⊢
      generalize cursor.token = answer at shown ⊢
      obtain ⟨result, behind⟩ := answer
      cases result with
      | error error => cases shown
      | ok found =>
          cases shown
          rfl

theorem rest_behind_yielded (source : String) :
    ∃ rest, transcript rest =
        ⟨[], (transcript source.toList).gap, (transcript source.toList).ending⟩ ∧
      (TokenStream.ofString source).skip (yielded source).length =
        TokenStream.openAt rest
          (Position.start.advanceOver (textThrough source (yielded source).length).toList) ∧
      (textThrough source (yielded source).length).toList ++ rest = source.toList := by
  have count : (yielded source).length = (transcript source.toList).lexemes.length :=
    tokens_from_length _ _
  obtain ⟨rest, same, skipped⟩ := TokenStream.skip_lexemes (yielded source).length source.toList .start
    (Nat.le_of_eq count)
  rw [count, List.drop_length] at same
  have whole := transcript_text source.toList
  have behind := transcript_text rest
  rw [same] at behind
  rw [Transcript.text] at whole behind
  refine ⟨rest, same, ?_, ?_⟩
  · rw [textThrough, String.toList_ofList]
    exact skipped
  · rw [textThrough, String.toList_ofList, count, List.take_length]
    rw [← behind]
    simpa using whole

theorem peek_behind_yielded (source : String) :
    ((TokenStream.ofString source).skip (yielded source).length).peek.1 =
      (tokenize source).map fun _ => none := by
  obtain ⟨rest, same, skipped, _⟩ := rest_behind_yielded source
  have through : (textThrough source (yielded source).length).toList =
      (transcript source.toList).lexemes.flatMap Lexeme.text := by
    rw [textThrough, String.toList_ofList, yielded, tokens_from_length, List.take_length]
  rw [skipped, TokenStream.peek_behind_lexemes rest _ (by rw [same]), same, through]
  cases ending : (transcript source.toList).ending with
  | complete => simp [tokenize_complete ending, Except.map]
  | flawed flaw passed rest =>
      simp [tokenize, TokenStream.tokenize_flawed ending, Except.map]

theorem position_behind_yielded {source : String} {tokens : List Token}
    (lexed : tokenize source = .ok tokens) :
    ((TokenStream.ofString source).skip (yielded source).length).peek.2.position =
      Position.start.advanceOver source.toList := by
  obtain ⟨rest, same, skipped, whole⟩ := rest_behind_yielded source
  have complete := ((tokenize_ok_iff _ _).mp lexed).1
  have final : FinalGap rest := by
    have tiles := (transcript_complete_iff rest [] (transcript source.toList).gap).mp (by rw [same, complete])
    cases tiles with
    | done final => exact final
  have found := (read_end_iff rest).mpr final
  rw [skipped, ← whole, Position.advance_over_append]
  simp [TokenStream.openAt, TokenStream.ofCursor, TokenStream.peek, Cursor.token, found,
    TokenStream.position, read_end rest found]

end ScriptReader
