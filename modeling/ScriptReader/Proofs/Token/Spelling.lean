import ScriptReader.Proofs.Token.Spells
import ScriptReader.Token.Transcript

set_option autoImplicit false

namespace ScriptReader

namespace Scan

def escape (quote : Char) (value : List Char) : List Char :=
  value.flatMap fun c => if c = '\\' ∨ c = quote then ['\\', c] else [c]

def quoted (quote : Char) (value : List Char) : List Char :=
  quote :: (escape quote value ++ [quote])

theorem escape_cons (quote c : Char) (value : List Char) :
    escape quote (c :: value) =
      (if c = '\\' ∨ c = quote then ['\\', c] else [c]) ++ escape quote value := rfl

theorem escape_body (quote : Char) (value : List Char) : Body quote (escape quote value) value := by
  induction value with
  | nil => exact .none
  | cons c value ih =>
      rw [escape_cons]
      by_cases escaped : c = '\\' ∨ c = quote
      · rw [if_pos escaped]
        exact .escaped c ih
      · rw [if_neg escaped]
        obtain ⟨slash, inside⟩ := not_or.mp escaped
        exact .plain c slash inside ih

end Scan

namespace TokenKind

def spelling : TokenKind → List Char
  | .number text => text.toList
  | .string value => Scan.quoted '"' value.toList
  | .character value => Scan.quoted '\'' [value]
  | .keyword word => word.spelling.toList
  | .identifier name => name.toList
  | .punctuation c => [c]
  | .operator symbol => symbol.toList

theorem spelling_spells (kind : TokenKind) (lexable : kind.lexable = true) :
    Spells kind.spelling kind := by
  cases kind with
  | number text =>
      have spelled := Spells.number text.toList lexable
      rwa [String.ofList_toList] at spelled
  | string value =>
      have spelled := Spells.string (Scan.escape_body '"' value.toList)
      rwa [String.ofList_toList] at spelled
  | character value => exact .character value (Scan.escape_body '\'' [value])
  | keyword word => exact .keyword word
  | identifier name =>
      simp only [TokenKind.lexable, nameText, Bool.and_eq_true, Option.isNone_iff_eq_none] at lexable
      have spelled := Spells.identifier name.toList lexable.1
      rw [String.ofList_toList] at spelled
      exact spelled lexable.2
  | punctuation c => exact .punctuation c lexable
  | operator symbol =>
      simp only [TokenKind.lexable, Bool.and_eq_true, Bool.not_eq_true', List.isEmpty_eq_false_iff]
        at lexable
      have spelled := Spells.operator symbol.toList lexable.1 lexable.2
      rwa [String.ofList_toList] at spelled

def written (kinds : List TokenKind) : List Char := kinds.flatMap fun kind => ' ' :: kind.spelling

@[simp] theorem written_cons (kind : TokenKind) (kinds : List TokenKind) :
    written (kind :: kinds) = [' '] ++ (kind.spelling ++ written kinds) := by
  simp [written]

theorem written_ends (kind : TokenKind) (kinds : List TokenKind) : kind.EndsBefore (written kinds) := by
  intro c first
  cases kinds with
  | nil => cases first
  | cons next kinds =>
      rw [written_cons] at first
      cases first
      cases kind <;> rfl

end TokenKind

open TokenKind

theorem transcript_written (kinds : List TokenKind) (lexable : Lexable kinds) :
    transcript (written kinds) =
      ⟨kinds.map fun kind => ⟨[' '], kind.spelling, kind⟩, [], .complete⟩ := by
  induction kinds with
  | nil => exact transcript_end [] rfl
  | cons kind kinds ih =>
      obtain ⟨first, others⟩ := lexable_cons.mp lexable
      have blank : Gap [' '] := .blank ' ' (.inl rfl) .none
      have reading := (read_eq_iff _ [' '] kind.spelling (written kinds) kind).mpr
        ⟨written_cons kind kinds, blank, spelling_spells kind first, written_ends kind kinds⟩
      rw [transcript_token _ kind kind.spelling (written kinds) (by rw [reading]), reading, ih others]
      rfl

theorem lexable_of_transcript (text : List Char) : Lexable (transcript text).kinds := by
  induction text using transcript_induction with
  | finished text found => simp [transcript_end text found, Transcript.kinds, Lexable]
  | flaw text flaw spelling rest found =>
      simp [transcript_flaw text flaw spelling rest found, Transcript.kinds, Lexable]
  | token text kind spelling rest found ih =>
      rw [transcript_token text kind spelling rest found]
      exact lexable_cons.mpr ⟨lexable_of_spells (Scan.spells_of_token _ spelling rest kind found).1, ih⟩

end ScriptReader
