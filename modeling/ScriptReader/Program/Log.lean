import ScriptReader.Program.Parse

set_option autoImplicit false

namespace ScriptReader

inductive Event where
  | producedToken (token : Token)
  -- A comment, with the line it starts on and its length from `#` in UTF-8 bytes.
  | skippedComment (line bytes : Nat)
  | lexicalError (error : LexicalError)
  | parsingProgram
  | parsedProgram (statements : Nat)
  | parseError (error : ParseError)
deriving DecidableEq

namespace Event

def level : Event → String
  | .producedToken _ | .skippedComment _ _ => "TRACE"
  | .lexicalError _ | .parsingProgram | .parsedProgram _ | .parseError _ => "DEBUG"

def target : Event → String
  | .producedToken _ | .skippedComment _ _ | .lexicalError _ => "lumen::lexer"
  | .parsingProgram | .parsedProgram _ | .parseError _ => "lumen::parser"

def message : Event → String
  | .producedToken _ => "Produced token"
  | .skippedComment _ _ => "Skipped comment"
  | .lexicalError _ => "Lex error"
  | .parsingProgram => "Parsing program"
  | .parsedProgram _ => "Parsed program"
  | .parseError _ => "Parse error"

def fields : Event → List (String × String)
  | .producedToken token =>
      [("kind", token.kind.text), ("line", toString token.position.line),
        ("column", toString token.position.column)]
  | .skippedComment line bytes => [("line", toString line), ("len", toString bytes)]
  | .lexicalError error => [("error", error.message)]
  | .parsingProgram => []
  | .parsedProgram statements => [("statements", toString statements)]
  | .parseError error => [("error", error.message)]

end Event

def commentsOnto (found : List Event) (inside : Option (Nat × Nat)) (p : Position) :
    List Char → List Event
  | [] =>
      match inside with
      | none => found.reverse
      | some (line, bytes) => (.skippedComment line bytes :: found).reverse
  | c :: gap =>
      match inside with
      | none =>
          commentsOnto found (if c = '#' then some (p.line, c.utf8Size) else none) (p.advance c) gap
      | some (line, bytes) =>
          if c = '\n' then commentsOnto (.skippedComment line bytes :: found) none (p.advance c) gap
          else commentsOnto found (some (line, bytes + c.utf8Size)) (p.advance c) gap

def comments (p : Position) (gap : List Char) : List Event := commentsOnto [] none p gap

def Lexeme.events (p : Position) (lexeme : Lexeme) : List Event :=
  comments p lexeme.gap ++ [.producedToken (lexeme.token p)]

namespace Transcript

def endEvents (p : Position) (transcript : Transcript) : List Event :=
  comments p transcript.gap ++
    match transcript.ending with
    | .complete => []
    | .flawed flaw passed _ =>
        let start := p.advanceOver transcript.gap
        [.lexicalError (flaw.locate start (start.advanceOver passed))]

-- What the first `count` readings tell; the one after the last lexeme finds the ending.
def eventsWithin (count : Nat) (p : Position) (transcript : Transcript) : List Event :=
  let (placed, behind) := place p transcript.lexemes
  (placed.take count).flatMap (fun (start, lexeme) => lexeme.events start) ++
    if placed.length < count then transcript.endEvents behind else []

def events (p : Position) (transcript : Transcript) : List Event :=
  transcript.eventsWithin (transcript.lexemes.length + 1) p

end Transcript

def tokenizeLog (source : String) : List Event := (transcript source.toList).events .start

-- How the log of a parse ends; a lexical error is already in it.
def closingEvents : Except ParseError Node → List Event
  | .ok program => [.parsedProgram (program.statements?.getD []).length]
  | .error (.lexical _) => []
  | .error (.grammatical fault position) => [.parseError (.grammatical fault position)]

-- The log of parsing a text: the readings are those of the tokens taken and of one looked at.
def parseLog (limit : Nat) (source : String) : List Event :=
  let transcript := transcript source.toList
  let tried := attempt limit transcript.kinds
  let readings := if tried.looked then tried.taken + 1 else tried.taken
  .parsingProgram :: (transcript.eventsWithin readings .start ++
    closingEvents (parseWithin limit source))

end ScriptReader
