import ScriptReader.Text.Machine
import ScriptReader.Token.Basic
import ScriptReader.Token.Class

set_option autoImplicit false

namespace ScriptReader

inductive Flaw where
  | unexpectedCharacter (c : Char)
  | unterminated (quote : Char)
  -- The number up to and including its second point.
  | secondPoint (text : String)
  -- The value of a character literal that does not hold exactly one character.
  | notOneCharacter (value : String)
deriving DecidableEq, Repr

structure Lexed where
  outcome : Except Flaw TokenKind
  spelling : List Char
  rest : List Char

namespace Scan

-- Blanks, and comments from `#` through the end of the line. The state tells whether the machine
-- is inside a comment.
def gap : Machine Bool
  | true, c => some (c != '\n')
  | false, c => if c = '#' then some true else if isBlank c then some false else none

-- Digits with at most one point. The state tells whether the point has been read.
def number : Machine Bool := fun pointed c =>
  if isDigit c then some pointed else if c = '.' && !pointed then some true else none

-- The body of a literal: up to the first quote that no backslash escapes. The state tells whether
-- the character before was an escaping backslash.
def body (quote : Char) : Machine Bool
  | true, _ => some false
  | false, c => if c = quote then none else some (c == '\\')

def unescapeOnto (kept : List Char) : Bool → List Char → List Char
  | _, [] => kept.reverse
  | true, c :: text => unescapeOnto (c :: kept) false text
  | false, c :: text =>
      if c = '\\' then unescapeOnto kept true text else unescapeOnto (c :: kept) false text

def unescape (text : List Char) : List Char := unescapeOnto [] false text

def literal (quote : Char) (meaning : List Char → Except Flaw TokenKind) (text : List Char) :
    Lexed :=
  let (body, behind) := Machine.longest (body quote) false text
  match behind with
  | [] => ⟨.error (.unterminated quote), quote :: body, []⟩
  | closing :: rest => ⟨meaning (unescape body), quote :: (body ++ [closing]), rest⟩

def stringMeaning (value : List Char) : Except Flaw TokenKind := .ok (.string (String.ofList value))

def characterMeaning : List Char → Except Flaw TokenKind
  | [c] => .ok (.character c)
  | value => .error (.notOneCharacter (String.ofList value))

def numberAt (text : List Char) : Lexed :=
  let (digits, behind) := Machine.longest number false text
  match behind with
  | '.' :: _ => ⟨.error (.secondPoint (String.ofList (digits ++ ['.']))), digits, behind⟩
  | _ => ⟨.ok (.number (String.ofList digits)), digits, behind⟩

def wordKind (word : String) : TokenKind :=
  match Keyword.ofWord? word with
  | some keyword => .keyword keyword
  | none => .identifier word

def wordAt (text : List Char) : Lexed :=
  let (word, behind) := Machine.longest (Machine.all continuesWord) () text
  ⟨.ok (wordKind (String.ofList word)), word, behind⟩

def operatorAt (text : List Char) : Lexed :=
  let (marks, behind) := Machine.longest (Machine.all isOperatorMark) () text
  ⟨.ok (.operator (String.ofList marks)), marks, behind⟩

def token : List Char → Option Lexed
  | [] => none
  | c :: text => some <|
      if c = '"' then literal '"' stringMeaning text
      else if c = '\'' then literal '\'' characterMeaning text
      else if isDigit c then numberAt (c :: text)
      else if opensWord c then wordAt (c :: text)
      else if isPunctuation c then ⟨.ok (.punctuation c), [c], text⟩
      else if isOperatorMark c then operatorAt (c :: text)
      else ⟨.error (.unexpectedCharacter c), [], c :: text⟩

end Scan

structure Reading where
  gap : List Char
  lexed : Option Lexed

def read (text : List Char) : Reading :=
  let (gap, behind) := Machine.longest Scan.gap false text
  ⟨gap, Scan.token behind⟩

namespace Scan

theorem unescape_onto_eq (kept : List Char) (escaped : Bool) (text : List Char) :
    unescapeOnto kept escaped text = kept.reverse ++ unescapeOnto [] escaped text := by
  induction text generalizing kept escaped with
  | nil => cases escaped <;> simp [unescapeOnto]
  | cons c text ih =>
      cases escaped with
      | true => simp only [unescapeOnto]; rw [ih, ih [c]]; simp
      | false =>
          simp only [unescapeOnto]
          split
          · exact ih kept true
          · rw [ih, ih [c]]; simp

theorem unescape_plain (c : Char) (text : List Char) (plain : c ≠ '\\') :
    unescape (c :: text) = c :: unescape text := by
  simp only [unescape, unescapeOnto, if_neg plain]
  exact unescape_onto_eq [c] false text

theorem unescape_escaped (c : Char) (text : List Char) :
    unescape ('\\' :: c :: text) = c :: unescape text := by
  simp only [unescape, unescapeOnto, if_pos]
  exact unescape_onto_eq [c] false text

theorem literal_parts (quote : Char) (meaning : List Char → Except Flaw TokenKind)
    (text : List Char) :
    (literal quote meaning text).spelling ++ (literal quote meaning text).rest = quote :: text := by
  have split := Machine.longest_append (body quote) false text
  simp only [literal]
  generalize Machine.longest (body quote) false text = pair at split ⊢
  obtain ⟨inside, behind⟩ := pair
  cases behind with
  | nil => simpa using split
  | cons closing rest => simpa using split

theorem number_parts (text : List Char) :
    (numberAt text).spelling ++ (numberAt text).rest = text := by
  have pieces := Machine.longest_append number false text
  simp only [numberAt]
  split <;> exact pieces

theorem word_parts (text : List Char) : (wordAt text).spelling ++ (wordAt text).rest = text :=
  Machine.longest_append _ _ text

theorem operator_parts (text : List Char) :
    (operatorAt text).spelling ++ (operatorAt text).rest = text :=
  Machine.longest_append _ _ text

theorem token_parts (text : List Char) (lexed : Lexed) (found : token text = some lexed) :
    lexed.spelling ++ lexed.rest = text := by
  cases text with
  | nil => cases found
  | cons c text =>
      simp only [token, Option.some.injEq] at found
      subst found
      split
      · rename_i same
        exact same ▸ literal_parts '"' stringMeaning text
      split
      · rename_i same
        exact same ▸ literal_parts '\'' characterMeaning text
      split
      · exact number_parts _
      split
      · exact word_parts _
      split
      · rfl
      split
      · exact operator_parts _
      · rfl

theorem longest_head {σ : Type} (step : Machine σ) (state next : σ) (c : Char) (text : List Char)
    (moves : step state c = some next) : (Machine.longest step state (c :: text)).1 ≠ [] := by
  simp [Machine.longest_cons_step step state next c text moves]

theorem number_spelling (c : Char) (text : List Char) (digit : isDigit c = true) :
    (numberAt (c :: text)).spelling ≠ [] := by
  have filled := longest_head number false false c text (by simp [number, digit])
  simp only [numberAt]
  split <;> exact filled

theorem literal_spelling (quote : Char) (meaning : List Char → Except Flaw TokenKind)
    (text : List Char) : (literal quote meaning text).spelling ≠ [] := by
  simp only [literal]
  split <;> simp

-- Only a character that no class knows is left where it stands.
theorem token_spelling (text : List Char) (lexed : Lexed) (found : token text = some lexed)
    (empty : lexed.spelling = []) :
    ∃ c, lexed.outcome = .error (.unexpectedCharacter c) ∧ text.head? = some c := by
  cases text with
  | nil => cases found
  | cons c text =>
      simp only [token, Option.some.injEq] at found
      subst found
      revert empty
      split
      · exact fun empty => absurd empty (literal_spelling _ _ _)
      split
      · exact fun empty => absurd empty (literal_spelling _ _ _)
      split
      · rename_i digit
        exact fun empty => absurd empty (number_spelling c text digit)
      split
      · rename_i opens
        have continues := continues_of_opens c opens
        exact fun empty => absurd empty (longest_head _ () () c text (by simp [Machine.all, continues]))
      split
      · exact fun empty => absurd empty (by simp)
      split
      · rename_i mark
        exact fun empty => absurd empty (longest_head _ () () c text (by simp [Machine.all, mark]))
      · exact fun _ => ⟨c, rfl, rfl⟩

end Scan

theorem read_end (text : List Char) (ended : (read text).lexed = none) : (read text).gap = text := by
  have pieces := Machine.longest_append Scan.gap false text
  simp only [read] at ended ⊢
  generalize Machine.longest Scan.gap false text = pair at ended pieces ⊢
  obtain ⟨gap, behind⟩ := pair
  cases behind with
  | nil => simpa using pieces
  | cons c behind => simp [Scan.token] at ended

theorem read_parts (text : List Char) (lexed : Lexed) (found : (read text).lexed = some lexed) :
    (read text).gap ++ lexed.spelling ++ lexed.rest = text := by
  have pieces := Machine.longest_append Scan.gap false text
  have parts := Scan.token_parts _ lexed found
  rw [List.append_assoc, parts]
  exact pieces

theorem read_shorter (text : List Char) (lexed : Lexed) (kind : TokenKind)
    (found : (read text).lexed = some lexed) (well : lexed.outcome = .ok kind) :
    lexed.rest.length < text.length := by
  have parts := congrArg List.length (read_parts text lexed found)
  have filled : lexed.spelling ≠ [] := by
    intro empty
    obtain ⟨c, flawed, _⟩ := Scan.token_spelling _ lexed found empty
    rw [well] at flawed
    cases flawed
  have positive := List.length_pos_iff.mpr filled
  simp only [List.length_append] at parts
  omega

end ScriptReader
