import ScriptReader.Token.Scan

set_option autoImplicit false

namespace ScriptReader

def decimalText : List Char → Bool
  | [] => true
  | point :: decimals => point == '.' && decimals.all isDigit

def numberText (text : List Char) : Bool :=
  !(text.takeWhile isDigit).isEmpty && decimalText (text.dropWhile isDigit)

def wordText : List Char → Bool
  | [] => false
  | c :: text => opensWord c && text.all continuesWord

def nameText (name : String) : Bool := wordText name.toList && (Keyword.ofWord? name).isNone

def TokenKind.lexable : TokenKind → Bool
  | .number text => numberText text.toList
  | .string _ | .character _ | .keyword _ => true
  | .identifier name => nameText name
  | .punctuation c => isPunctuation c
  | .operator symbol => !symbol.toList.isEmpty && symbol.toList.all isOperatorMark

def Lexable (kinds : List TokenKind) : Prop := ∀ kind ∈ kinds, kind.lexable = true

@[simp] theorem lexable_nil : Lexable [] := by
  simp [Lexable]

@[simp] theorem lexable_cons {kind : TokenKind} {kinds : List TokenKind} :
    Lexable (kind :: kinds) ↔ kind.lexable = true ∧ Lexable kinds := by
  simp [Lexable]

theorem lexable_part {whole part : List TokenKind} (lexable : Lexable whole)
    (inside : ∀ kind ∈ part, kind ∈ whole) : Lexable part :=
  fun kind member => lexable kind (inside kind member)

theorem lexable_single {kind : TokenKind} (lexable : kind.lexable = true) : Lexable [kind] :=
  lexable_cons.mpr ⟨lexable, lexable_nil⟩

@[simp] theorem lexable_append {a b : List TokenKind} : Lexable (a ++ b) ↔ Lexable a ∧ Lexable b := by
  simp [Lexable, or_imp, forall_and]

namespace Scan

theorem number_text_head (text : List Char) (well : numberText text = true) :
    ∃ c rest, text = c :: rest ∧ isDigit c = true := by
  cases text with
  | nil => cases well
  | cons c rest =>
      by_cases digit : isDigit c = true
      · exact ⟨c, rest, rfl, digit⟩
      · simp [numberText, digit] at well

theorem word_text_head (text : List Char) (well : wordText text = true) :
    ∃ c rest, text = c :: rest ∧ opensWord c = true := by
  cases text with
  | nil => cases well
  | cons c rest =>
      rw [wordText, Bool.and_eq_true] at well
      exact ⟨c, rest, rfl, well.1⟩

theorem operator_text_head (text : List Char) (filled : text ≠ [])
    (each : text.all isOperatorMark = true) :
    ∃ c rest, text = c :: rest ∧ isOperatorMark c = true := by
  cases text with
  | nil => exact absurd rfl filled
  | cons c rest => exact ⟨c, rest, rfl, (List.all_eq_true.mp each) c (by simp)⟩

theorem number_text_cons (c : Char) (text : List Char) (first : isDigit c = true) :
    numberText (c :: text) = decimalText (text.dropWhile isDigit) := by
  simp [numberText, first]

theorem after_pointed_iff (text : List Char) :
    (∃ last, Machine.after number true text = some last) ↔ text.all isDigit = true := by
  induction text with
  | nil => simp [Machine.after]
  | cons c text ih =>
      by_cases digit : isDigit c = true
      · simpa [Machine.after, number, digit] using ih
      · simp [Machine.after, number, digit]

theorem after_number_iff (text : List Char) :
    (∃ last, Machine.after number false text = some last) ↔
      decimalText (text.dropWhile isDigit) = true := by
  induction text with
  | nil => simp [Machine.after, decimalText]
  | cons c text ih =>
      by_cases digit : isDigit c = true
      · simpa [Machine.after, number, digit] using ih
      · by_cases point : c = '.'
        · obtain rfl := point
          have decimals := after_pointed_iff text
          simpa [Machine.after, number, digit, decimalText] using decimals
        · simp [Machine.after, number, digit, decimalText, point]

end Scan

end ScriptReader
