import ScriptReader.Token.Scan

set_option autoImplicit false

namespace ScriptReader

structure Lexeme where
  gap : List Char
  spelling : List Char
  kind : TokenKind
deriving DecidableEq

namespace Lexeme

def text (lexeme : Lexeme) : List Char := lexeme.gap ++ lexeme.spelling

def token (p : Position) (lexeme : Lexeme) : Token := ⟨lexeme.kind, p.advanceOver lexeme.gap⟩

end Lexeme

inductive Ending where
  | complete
  | flawed (flaw : Flaw) (passed rest : List Char)
deriving DecidableEq

def Ending.text : Ending → List Char
  | .complete => []
  | .flawed _ passed rest => passed ++ rest

structure Transcript where
  lexemes : List Lexeme
  gap : List Char
  ending : Ending
deriving DecidableEq

namespace Transcript

def kinds (transcript : Transcript) : List TokenKind := transcript.lexemes.map Lexeme.kind

def text (transcript : Transcript) : List Char :=
  transcript.lexemes.flatMap Lexeme.text ++ transcript.gap ++ transcript.ending.text

end Transcript

-- The lexemes read so far are held in reverse, so that a long text is no deep recursion.
def transcribe (done : List Lexeme) (text : List Char) : Transcript :=
  let reading := read text
  match _found : reading.lexed with
  | none => ⟨done.reverse, reading.gap, .complete⟩
  | some ⟨.ok kind, spelling, rest⟩ => transcribe (⟨reading.gap, spelling, kind⟩ :: done) rest
  | some ⟨.error flaw, spelling, rest⟩ => ⟨done.reverse, reading.gap, .flawed flaw spelling rest⟩
termination_by text.length
decreasing_by exact read_shorter text _ kind _found rfl

def transcript (text : List Char) : Transcript := transcribe [] text

-- Each lexeme with the position where its gap begins, and the position behind the last one.
def placeOnto (placed : List (Position × Lexeme)) (p : Position) :
    List Lexeme → List (Position × Lexeme) × Position
  | [] => (placed.reverse, p)
  | lexeme :: lexemes =>
      placeOnto ((p, lexeme) :: placed)
        ((p.advanceOver lexeme.gap).advanceOver lexeme.spelling) lexemes

def place (p : Position) (lexemes : List Lexeme) : List (Position × Lexeme) × Position :=
  placeOnto [] p lexemes

def tokensFrom (p : Position) (lexemes : List Lexeme) : List Token :=
  (place p lexemes).1.map fun (start, lexeme) => lexeme.token start

theorem transcribe_eq (done : List Lexeme) (text : List Char) :
    transcribe done text =
      { transcript text with lexemes := done.reverse ++ (transcript text).lexemes } := by
  rw [transcript, transcribe.eq_def done text, transcribe.eq_def [] text]
  dsimp only
  split
  · simp
  · rename_i kind spelling rest found
    have shorter := read_shorter text _ kind found rfl
    rw [transcribe_eq _ rest, transcribe_eq [_] rest]
    simp
  · simp
termination_by text.length

theorem transcript_end (text : List Char) (found : (read text).lexed = none) :
    transcript text = ⟨[], text, .complete⟩ := by
  rw [transcript, transcribe.eq_def]
  dsimp only
  split
  · simp [read_end text found]
  · simp_all
  · simp_all

theorem transcript_token (text : List Char) (kind : TokenKind) (spelling rest : List Char)
    (found : (read text).lexed = some ⟨.ok kind, spelling, rest⟩) :
    transcript text = { transcript rest with
      lexemes := ⟨(read text).gap, spelling, kind⟩ :: (transcript rest).lexemes } := by
  rw [transcript, transcribe.eq_def]
  dsimp only
  split
  · simp_all
  · rename_i other characters behind same
    obtain ⟨rfl, rfl, rfl⟩ : other = kind ∧ characters = spelling ∧ behind = rest := by
      simpa using same.symm.trans found
    exact transcribe_eq _ _
  · simp_all

theorem transcript_flaw (text : List Char) (flaw : Flaw) (spelling rest : List Char)
    (found : (read text).lexed = some ⟨.error flaw, spelling, rest⟩) :
    transcript text = ⟨[], (read text).gap, .flawed flaw spelling rest⟩ := by
  rw [transcript, transcribe.eq_def]
  dsimp only
  split
  · simp_all
  · simp_all
  · rename_i other characters behind same
    obtain ⟨rfl, rfl, rfl⟩ : other = flaw ∧ characters = spelling ∧ behind = rest := by
      simpa using same.symm.trans found
    rfl

theorem transcript_induction {motive : List Char → Prop}
    (finished : ∀ text, (read text).lexed = none → motive text)
    (token : ∀ text kind spelling rest, (read text).lexed = some ⟨.ok kind, spelling, rest⟩ →
      motive rest → motive text)
    (flaw : ∀ text flaw spelling rest, (read text).lexed = some ⟨.error flaw, spelling, rest⟩ →
      motive text) (text : List Char) : motive text := by
  cases found : (read text).lexed with
  | none => exact finished text found
  | some lexed =>
      obtain ⟨outcome, spelling, rest⟩ := lexed
      cases outcome with
      | error bad => exact flaw text bad spelling rest found
      | ok kind =>
          have shorter := read_shorter text _ kind found rfl
          exact token text kind spelling rest found (transcript_induction finished token flaw rest)
termination_by text.length

theorem transcript_text (text : List Char) : (transcript text).text = text := by
  induction text using transcript_induction with
  | finished text found => rw [transcript_end text found]; simp [Transcript.text, Ending.text]
  | token text kind spelling rest found ih =>
      have parts := read_parts text _ found
      rw [transcript_token text kind spelling rest found]
      simp only [Transcript.text, List.flatMap_cons, List.append_assoc] at ih parts ⊢
      rw [ih, Lexeme.text, List.append_assoc]
      exact parts
  | flaw text flaw spelling rest found =>
      have parts := read_parts text _ found
      rw [transcript_flaw text flaw spelling rest found]
      simpa [Transcript.text, Ending.text] using parts

theorem place_onto_eq (placed : List (Position × Lexeme)) (p : Position) (lexemes : List Lexeme) :
    placeOnto placed p lexemes =
      (placed.reverse ++ (place p lexemes).1, (place p lexemes).2) := by
  induction lexemes generalizing placed p with
  | nil => simp [place, placeOnto]
  | cons lexeme lexemes ih =>
      simp only [place, placeOnto]
      rw [ih, ih [_]]
      simp

@[simp] theorem place_cons (p : Position) (lexeme : Lexeme) (lexemes : List Lexeme) :
    place p (lexeme :: lexemes) =
      ((p, lexeme) :: (place (p.advanceOver lexeme.text) lexemes).1,
        (place (p.advanceOver lexeme.text) lexemes).2) := by
  rw [Lexeme.text, Position.advance_over_append]
  exact place_onto_eq [_] _ _

@[simp] theorem place_end (p : Position) (lexemes : List Lexeme) :
    (place p lexemes).2 = p.advanceOver (lexemes.flatMap Lexeme.text) := by
  induction lexemes generalizing p with
  | nil => rfl
  | cons lexeme lexemes ih =>
      simp [ih]

@[simp] theorem tokens_from_nil (p : Position) : tokensFrom p [] = [] := rfl

@[simp] theorem tokens_from_cons (p : Position) (lexeme : Lexeme) (lexemes : List Lexeme) :
    tokensFrom p (lexeme :: lexemes) =
      lexeme.token p :: tokensFrom (p.advanceOver lexeme.text) lexemes := by
  simp [tokensFrom]

end ScriptReader
