import ScriptReader.Proofs.Token.Gap
import ScriptReader.Proofs.Token.Lexable

set_option autoImplicit false

namespace ScriptReader

-- A backslash is dropped and keeps the character behind it.
inductive Body (quote : Char) : List Char → List Char → Prop where
  | none : Body quote [] []
  | plain {body value : List Char} (c : Char) (slash : c ≠ '\\') (inside : c ≠ quote)
      (later : Body quote body value) : Body quote (c :: body) (c :: value)
  | escaped {body value : List Char} (c : Char) (later : Body quote body value) :
      Body quote ('\\' :: c :: body) (c :: value)

inductive Spells : List Char → TokenKind → Prop where
  | number (text : List Char) (digits : numberText text = true) :
      Spells text (.number (String.ofList text))
  | string {body value : List Char} (within : Body '"' body value) :
      Spells ('"' :: (body ++ ['"'])) (.string (String.ofList value))
  | character {body : List Char} (c : Char) (within : Body '\'' body [c]) :
      Spells ('\'' :: (body ++ ['\''])) (.character c)
  | keyword (word : Keyword) : Spells word.spelling.toList (.keyword word)
  | identifier (name : List Char) (word : wordText name = true)
      (free : Keyword.ofWord? (String.ofList name) = none) :
      Spells name (.identifier (String.ofList name))
  | punctuation (c : Char) (mark : isPunctuation c = true) : Spells [c] (.punctuation c)
  | operator (marks : List Char) (filled : marks ≠ []) (each : marks.all isOperatorMark = true) :
      Spells marks (.operator (String.ofList marks))

namespace TokenKind

def goesOn : TokenKind → Char → Bool
  | .number _, c => isDigit c || c == '.'
  | .keyword _, c | .identifier _, c => continuesWord c
  | .operator _, c => isOperatorMark c
  | .string _, _ | .character _, _ | .punctuation _, _ => false

def EndsBefore (kind : TokenKind) (rest : List Char) : Prop := ∀ c ∈ rest.head?, kind.goesOn c = false

end TokenKind

theorem keyword_text (word : Keyword) : wordText word.spelling.toList = true := by
  cases word <;> decide +kernel

theorem lexable_of_spells {spelling : List Char} {kind : TokenKind} (spells : Spells spelling kind) :
    kind.lexable = true := by
  cases spells with
  | number text digits => rwa [TokenKind.lexable, String.toList_ofList]
  | string within => rfl
  | character c within => rfl
  | keyword word => rfl
  | identifier name word free =>
      rw [TokenKind.lexable, nameText, String.toList_ofList, word, free]
      rfl
  | punctuation c mark => exact mark
  | operator marks filled each =>
      rw [TokenKind.lexable, String.toList_ofList, each, Bool.and_true, Bool.not_eq_true']
      exact List.isEmpty_eq_false_iff.mpr filled

namespace Scan

theorem after_body {quote : Char} {text value : List Char} (within : Body quote text value)
    (different : quote ≠ '\\') : Machine.after (body quote) false text = some false := by
  induction within with
  | none => rfl
  | plain c slash inside later ih =>
      have kept : (c == '\\') = false := beq_eq_false_iff_ne.mpr slash
      simpa [Machine.after, body, inside, kept] using ih
  | escaped c later ih => simpa [Machine.after, body, Ne.symm different] using ih

theorem unescape_body {quote : Char} {text value : List Char} (within : Body quote text value) :
    unescape text = value := by
  induction within with
  | none => rfl
  | plain c slash inside later ih => rw [unescape_plain c _ slash, ih]
  | escaped c later ih => rw [unescape_escaped, ih]

-- Behind a backslash the machine takes one character more before it is in the body again.
theorem body_of_after (quote : Char) (text : List Char) :
    (Machine.after (body quote) false text = some false → Body quote text (unescape text)) ∧
      (Machine.after (body quote) true text = some false →
        ∃ c later, text = c :: later ∧ Body quote later (unescape later)) := by
  induction text with
  | nil => exact ⟨fun _ => .none, fun reads => by cases reads⟩
  | cons c text ih =>
      refine ⟨fun reads => ?_, fun reads => ⟨c, text, rfl, ih.1 reads⟩⟩
      by_cases inside : c = quote
      · simp [Machine.after, body, inside] at reads
      · by_cases slash : c = '\\'
        · subst slash
          have entered : Machine.after (body quote) true text = some false := by
            simpa [Machine.after, body, inside] using reads
          obtain ⟨next, later, rfl, within⟩ := ih.2 entered
          rw [unescape_escaped]
          exact .escaped next within
        · have kept : (c == '\\') = false := beq_eq_false_iff_ne.mpr slash
          have entered : Machine.after (body quote) false text = some false := by
            simpa [Machine.after, body, inside, kept] using reads
          rw [unescape_plain c text slash]
          exact .plain c slash inside (ih.1 entered)

theorem literal_of_body {quote : Char} {text value : List Char}
    (meaning : List Char → Except Flaw TokenKind) (rest : List Char) (within : Body quote text value)
    (different : quote ≠ '\\') :
    literal quote meaning (text ++ quote :: rest) =
      ⟨meaning value, quote :: (text ++ [quote]), rest⟩ := by
  have halts : Machine.Halts (body quote) false (quote :: rest) := by simp [Machine.Halts, body]
  have split := Machine.longest_of_after (body quote) false false text _
    (after_body within different) halts
  rw [literal, split]
  dsimp only
  rw [unescape_body within]

theorem closing_of_longest {quote closing : Char} {text inside behind : List Char}
    (split : Machine.longest (body quote) false text = (inside, closing :: behind)) :
    closing = quote ∧ Body quote inside (unescape inside) := by
  obtain ⟨last, reads, halts⟩ := Machine.after_longest (body quote) false text
  rw [split] at reads halts
  cases last with
  | true => cases halts
  | false => exact ⟨by simpa [Machine.Halts, body] using halts, (body_of_after quote inside).1 reads⟩

theorem literal_ok {quote : Char} {meaning : List Char → Except Flaw TokenKind}
    {text spelling rest : List Char} {kind : TokenKind}
    (found : literal quote meaning text = ⟨.ok kind, spelling, rest⟩) :
    ∃ inside value, Body quote inside value ∧ meaning value = .ok kind ∧
      spelling = quote :: (inside ++ [quote]) := by
  rw [literal] at found
  cases split : Machine.longest (body quote) false text with
  | mk inside behind =>
      rw [split] at found
      cases behind with
      | nil => cases found
      | cons closing behind =>
          obtain ⟨rfl, within⟩ := closing_of_longest split
          simp only [Lexed.mk.injEq] at found
          exact ⟨inside, unescape inside, within, found.1, found.2.1.symm⟩

-- No character belongs to two classes, so the first character tells what is read.
theorem token_of_digit (c : Char) (text : List Char) (digit : isDigit c = true) :
    token (c :: text) = some (numberAt (c :: text)) := by
  have string : c ≠ '"' := by rintro rfl; exact absurd digit (by decide)
  have character : c ≠ '\'' := by rintro rfl; exact absurd digit (by decide)
  rw [token, if_neg string, if_neg character, if_pos digit]

theorem digit_of_opens (c : Char) (opens : opensWord c = true) : isDigit c = false := by
  apply Bool.eq_false_iff.mpr
  intro digit
  simp only [isDigit, Bool.and_eq_true, decide_eq_true_eq] at digit
  simp only [opensWord, isLetter, Bool.or_eq_true, Bool.and_eq_true, decide_eq_true_eq,
    beq_iff_eq] at opens
  rcases opens with (lower | upper) | rfl
  · exact absurd (Char.le_trans lower.1 digit.2) (by decide)
  · exact absurd (Char.le_trans upper.1 digit.2) (by decide)
  · exact absurd digit.2 (by decide)

theorem token_of_word (c : Char) (text : List Char) (opens : opensWord c = true) :
    token (c :: text) = some (wordAt (c :: text)) := by
  have string : c ≠ '"' := by rintro rfl; exact absurd opens (by decide)
  have character : c ≠ '\'' := by rintro rfl; exact absurd opens (by decide)
  rw [token, if_neg string, if_neg character, digit_of_opens c opens, if_neg Bool.false_ne_true,
    if_pos opens]

theorem token_of_punctuation (c : Char) (text : List Char) (mark : isPunctuation c = true) :
    token (c :: text) = some ⟨.ok (.punctuation c), [c], text⟩ := by
  unfold isPunctuation at mark
  split at mark <;> first | rfl | cases mark

theorem token_of_operator (c : Char) (text : List Char) (mark : isOperatorMark c = true) :
    token (c :: text) = some (operatorAt (c :: text)) := by
  unfold isOperatorMark at mark
  split at mark <;> first | rfl | cases mark

section Runs

theorem all_longest (p : Char → Bool) (text : List Char) :
    (Machine.longest (Machine.all p) () text).1.all p = true := by
  obtain ⟨_, reads, _⟩ := Machine.after_longest (Machine.all p) () text
  exact List.all_eq_true.mpr ((Machine.after_all p _).mp reads)

theorem all_ends (p : Char → Bool) (text : List Char) :
    ∀ c ∈ (Machine.longest (Machine.all p) () text).2.head?, p c = false := by
  obtain ⟨_, _, halts⟩ := Machine.after_longest (Machine.all p) () text
  intro c head
  cases behind : (Machine.longest (Machine.all p) () text).2 with
  | nil => rw [behind] at head; cases head
  | cons d rest =>
      rw [behind] at halts head
      cases head
      simpa [Machine.Halts, Machine.all] using halts

theorem longest_all (p : Char → Bool) (text rest : List Char) (each : text.all p = true)
    (ends : ∀ c ∈ rest.head?, p c = false) :
    Machine.longest (Machine.all p) () (text ++ rest) = (text, rest) := by
  have reads := (Machine.after_all p text).mpr (List.all_eq_true.mp each)
  refine Machine.longest_of_after (Machine.all p) () () text rest reads ?_
  cases rest with
  | nil => trivial
  | cons c rest => simp [Machine.Halts, Machine.all, ends c rfl]

end Runs

theorem number_ok (c : Char) (text spelling rest : List Char) (kind : TokenKind)
    (first : isDigit c = true) (found : numberAt (c :: text) = ⟨.ok kind, spelling, rest⟩) :
    Spells spelling kind ∧ kind.EndsBefore rest := by
  have moves : number false c = some false := by simp [number, first]
  obtain ⟨last, reads, halts⟩ := Machine.after_longest number false text
  have whole := (number_text_cons c _ first).trans ((after_number_iff _).mp ⟨last, reads⟩)
  simp only [numberAt, Machine.longest_cons_step number false false c text moves] at found
  generalize Machine.longest number false text = pair at whole halts found
  obtain ⟨digits, behind⟩ := pair
  split at found
  · cases found
  · rename_i other
    cases found
    refine ⟨.number _ whole, ?_⟩
    intro next head
    cases behind with
    | nil => cases head
    | cons d behind =>
        cases head
        have point : next ≠ '.' := fun same => other behind (same ▸ rfl)
        have digit : isDigit next = false := by simpa [Machine.Halts, number, point] using halts
        simp [TokenKind.goesOn, digit, point]

theorem number_at_text (text rest : List Char) (well : numberText text = true)
    (ends : ∀ c ∈ rest.head?, (isDigit c || c == '.') = false) :
    numberAt (text ++ rest) = ⟨.ok (.number (String.ofList text)), text, rest⟩ := by
  rw [numberText, Bool.and_eq_true] at well
  obtain ⟨last, reads⟩ := (after_number_iff text).mpr well.2
  cases rest with
  | nil => rw [numberAt, Machine.longest_of_after number false last text [] reads trivial]
  | cons c rest =>
      have next := ends c rfl
      simp only [Bool.or_eq_false_iff, beq_eq_false_iff_ne] at next
      have halts : Machine.Halts number last (c :: rest) := by simp [Machine.Halts, number, next]
      rw [numberAt, Machine.longest_of_after number false last text _ reads halts]
      dsimp only
      split
      · rename_i same
        cases same
        exact absurd rfl next.2
      · rfl

theorem word_kind_goes_on (word : String) (c : Char) : (wordKind word).goesOn c = continuesWord c := by
  unfold wordKind
  split <;> rfl

theorem word_kind_spells (text : List Char) (word : wordText text = true) :
    Spells text (wordKind (String.ofList text)) := by
  unfold wordKind
  split
  · rename_i keyword found
    have same := (Keyword.of_word_eq_some _ _).mp found
    have spelled := Spells.keyword keyword
    rwa [same, String.toList_ofList] at spelled
  · rename_i free
    exact .identifier text word free

theorem word_ok (c : Char) (text spelling rest : List Char) (kind : TokenKind)
    (opens : opensWord c = true) (found : wordAt (c :: text) = ⟨.ok kind, spelling, rest⟩) :
    Spells spelling kind ∧ kind.EndsBefore rest := by
  have moves : Machine.all continuesWord () c = some () := by
    simp [Machine.all, continues_of_opens c opens]
  have ends := all_ends continuesWord text
  simp only [wordAt, Machine.longest_cons_step _ () () c text moves] at found
  cases found
  refine ⟨word_kind_spells _ ?_, fun next head => ?_⟩
  · rw [wordText, opens, all_longest continuesWord text]
    rfl
  · rw [word_kind_goes_on]
    exact ends next head

theorem word_at_text (text rest : List Char) (well : wordText text = true)
    (ends : ∀ c ∈ rest.head?, continuesWord c = false) :
    wordAt (text ++ rest) = ⟨.ok (wordKind (String.ofList text)), text, rest⟩ := by
  have each : text.all continuesWord = true := by
    cases text with
    | nil => rfl
    | cons c text =>
        rw [wordText, Bool.and_eq_true] at well
        rw [List.all_cons, continues_of_opens c well.1, well.2]
        rfl
  rw [wordAt, longest_all continuesWord text rest each ends]

theorem operator_ok (c : Char) (text spelling rest : List Char) (kind : TokenKind)
    (mark : isOperatorMark c = true) (found : operatorAt (c :: text) = ⟨.ok kind, spelling, rest⟩) :
    Spells spelling kind ∧ kind.EndsBefore rest := by
  have moves : Machine.all isOperatorMark () c = some () := by simp [Machine.all, mark]
  have ends := all_ends isOperatorMark text
  simp only [operatorAt, Machine.longest_cons_step _ () () c text moves] at found
  cases found
  refine ⟨.operator _ (List.cons_ne_nil _ _) ?_, ends⟩
  rw [List.all_cons, mark, all_longest isOperatorMark text]
  rfl

theorem operator_at_text (text rest : List Char) (each : text.all isOperatorMark = true)
    (ends : ∀ c ∈ rest.head?, isOperatorMark c = false) :
    operatorAt (text ++ rest) = ⟨.ok (.operator (String.ofList text)), text, rest⟩ := by
  rw [operatorAt, longest_all isOperatorMark text rest each ends]

theorem spells_of_token (text spelling rest : List Char) (kind : TokenKind)
    (found : token text = some ⟨.ok kind, spelling, rest⟩) :
    Spells spelling kind ∧ kind.EndsBefore rest := by
  cases text with
  | nil => cases found
  | cons c text =>
      simp only [token, Option.some.injEq] at found
      split at found
      · obtain ⟨inside, value, within, meant, rfl⟩ := literal_ok found
        cases meant
        exact ⟨.string within, fun _ _ => rfl⟩
      split at found
      · obtain ⟨inside, value, within, meant, rfl⟩ := literal_ok found
        unfold characterMeaning at meant
        split at meant
        · cases meant
          exact ⟨.character _ within, fun _ _ => rfl⟩
        · cases meant
      split at found
      · rename_i first
        exact number_ok c text spelling rest kind first found
      split at found
      · rename_i opens
        exact word_ok c text spelling rest kind opens found
      split at found
      · rename_i mark
        cases found
        exact ⟨.punctuation c mark, fun _ _ => rfl⟩
      split at found
      · rename_i mark
        exact operator_ok c text spelling rest kind mark found
      · cases found

theorem token_of_word_text (text rest : List Char) (well : wordText text = true)
    (ends : ∀ c ∈ rest.head?, continuesWord c = false) :
    token (text ++ rest) = some ⟨.ok (wordKind (String.ofList text)), text, rest⟩ := by
  rw [← word_at_text text rest well ends]
  obtain ⟨c, more, rfl, opens⟩ := word_text_head text well
  exact token_of_word c _ opens

theorem token_of_spells {spelling : List Char} {kind : TokenKind} (spells : Spells spelling kind)
    (rest : List Char) (ends : kind.EndsBefore rest) :
    token (spelling ++ rest) = some ⟨.ok kind, spelling, rest⟩ := by
  cases spells with
  | number text digits =>
      rw [← number_at_text spelling rest digits ends]
      obtain ⟨c, more, rfl, digit⟩ := number_text_head spelling digits
      exact token_of_digit c _ digit
  | @string body value within =>
      have read := literal_of_body stringMeaning rest within (by decide)
      rw [List.cons_append, List.append_assoc, List.singleton_append]
      exact congrArg some read
  | @character body c within =>
      have read := literal_of_body characterMeaning rest within (by decide)
      rw [List.cons_append, List.append_assoc, List.singleton_append]
      exact congrArg some read
  | keyword word =>
      have read := token_of_word_text word.spelling.toList rest (keyword_text word) ends
      rwa [String.ofList_toList, wordKind, Keyword.of_word_spelling] at read
  | identifier name word free =>
      have read := token_of_word_text spelling rest word ends
      rwa [wordKind, free] at read
  | punctuation c mark => exact token_of_punctuation c rest mark
  | operator marks filled each =>
      rw [← operator_at_text spelling rest each ends]
      obtain ⟨c, more, rfl, mark⟩ := operator_text_head spelling filled each
      exact token_of_operator c _ mark

theorem token_eq_iff (text spelling rest : List Char) (kind : TokenKind) :
    token text = some ⟨.ok kind, spelling, rest⟩ ↔
      text = spelling ++ rest ∧ Spells spelling kind ∧ kind.EndsBefore rest := by
  constructor
  · intro found
    exact ⟨(token_parts text _ found).symm, spells_of_token text spelling rest kind found⟩
  · rintro ⟨rfl, spells, ends⟩
    exact token_of_spells spells rest ends

theorem gap_of_class (c : Char)
    (known : c = '"' ∨ c = '\'' ∨ isDigit c = true ∨ opensWord c = true ∨ isPunctuation c = true ∨
      isOperatorMark c = true) : gap false c = none := by
  have other : c ≠ '#' ∧ isBlank c = false := by
    constructor
    · rintro rfl
      revert known
      decide
    · apply Bool.eq_false_iff.mpr
      intro blank
      rcases (is_blank_iff c).mp blank with rfl | rfl | rfl | rfl <;> revert known <;> decide
  rw [gap, if_neg other.1, other.2, if_neg Bool.false_ne_true]

theorem spells_head {spelling : List Char} {kind : TokenKind} (spells : Spells spelling kind) :
    ∃ c text, spelling = c :: text ∧ gap false c = none := by
  have word : ∀ text, wordText text = true → ∃ c rest, text = c :: rest ∧ gap false c = none := by
    intro text well
    obtain ⟨c, rest, same, opens⟩ := word_text_head text well
    exact ⟨c, rest, same, gap_of_class c (by simp [opens])⟩
  cases spells with
  | number text digits =>
      obtain ⟨c, rest, same, digit⟩ := number_text_head spelling digits
      exact ⟨c, rest, same, gap_of_class c (by simp [digit])⟩
  | string within => exact ⟨'"', _, rfl, rfl⟩
  | character c within => exact ⟨'\'', _, rfl, rfl⟩
  | keyword keyword => exact word _ (keyword_text keyword)
  | identifier name well free => exact word spelling well
  | punctuation c mark => exact ⟨c, [], rfl, gap_of_class c (by simp [mark])⟩
  | operator marks filled each =>
      obtain ⟨c, rest, same, mark⟩ := operator_text_head spelling filled each
      exact ⟨c, rest, same, gap_of_class c (by simp [mark])⟩

theorem gap_before_token {before spelling : List Char} {kind : TokenKind} (skips : Gap before)
    (spells : Spells spelling kind) (rest : List Char) :
    Machine.longest gap false (before ++ (spelling ++ rest)) = (before, spelling ++ rest) := by
  obtain ⟨c, text, rfl, halts⟩ := spells_head spells
  exact Machine.longest_of_after gap false false before _ (after_of_gap skips) halts

end Scan

theorem read_eq_iff (text gap spelling rest : List Char) (kind : TokenKind) :
    read text = ⟨gap, some ⟨.ok kind, spelling, rest⟩⟩ ↔
      text = gap ++ (spelling ++ rest) ∧ Gap gap ∧ Spells spelling kind ∧ kind.EndsBefore rest := by
  constructor
  · intro same
    obtain ⟨last, reads, halts⟩ := Machine.after_longest Scan.gap false text
    have pieces := Machine.longest_append Scan.gap false text
    simp only [read, Reading.mk.injEq] at same
    generalize Machine.longest Scan.gap false text = pair at reads halts pieces same
    obtain ⟨before, behind⟩ := pair
    obtain ⟨rfl, found⟩ := same
    obtain ⟨rfl, spells, ends⟩ := (Scan.token_eq_iff _ _ _ _).mp found
    refine ⟨pieces.symm, ?_, spells, ends⟩
    -- A token stands behind the gap, so that the gap cannot be inside a comment.
    obtain ⟨c, more, rfl, _⟩ := Scan.spells_head spells
    cases last with
    | true => cases halts
    | false => exact (Scan.after_gap_iff _).mp reads
  · rintro ⟨rfl, skips, spells, ends⟩
    rw [read, Scan.gap_before_token skips spells rest]
    exact congrArg (Reading.mk gap) (Scan.token_of_spells spells rest ends)

theorem read_end_iff (text : List Char) : (read text).lexed = none ↔ FinalGap text := by
  constructor
  · intro ended
    obtain ⟨last, reads, _⟩ := Machine.after_longest Scan.gap false text
    have whole : (Machine.longest Scan.gap false text).1 = text := read_end text ended
    rw [whole] at reads
    exact (Scan.after_final_gap_iff text).mp ⟨last, reads⟩
  · intro final
    obtain ⟨last, reads⟩ := (Scan.after_final_gap_iff text).mpr final
    have whole := Machine.longest_of_after Scan.gap false last text [] reads trivial
    rw [List.append_nil] at whole
    simp [read, whole, Scan.token]

end ScriptReader
