import ScriptReader.Cursor
import ScriptReader.Token.Scan

set_option autoImplicit false

namespace ScriptReader

inductive LexicalFault where
  | unexpectedCharacter (c : Char)
  | unterminatedLiteral (terminator : Char) (start : Position)
  | malformedNumber (text : String)
  | invalidCharacterLiteral (value : String)
deriving DecidableEq, Repr

-- The parts are joined outside of the case distinction, where they are quick to unfold.
def LexicalFault.parts : LexicalFault → List String
  | .unexpectedCharacter c => ["unexpected character '", c.toString, "'"]
  | .unterminatedLiteral terminator start =>
      ["unterminated literal starting at ", start.text, ", expected closing ",
        Quoted.character terminator]
  | .malformedNumber text => ["malformed number '", text, "': more than one decimal point"]
  | .invalidCharacterLiteral value =>
      ["character literal must hold exactly one character, found ", Quoted.string value]

def LexicalFault.message (fault : LexicalFault) : String := String.join fault.parts

structure LexicalError where
  fault : LexicalFault
  position : Position
deriving DecidableEq, Repr

def LexicalError.message (error : LexicalError) : String :=
  "Lex error at " ++ error.position.text ++ ": " ++ error.fault.message

-- A literal that is closed is blamed where it starts, all else where reading stopped.
def Flaw.locate (start stop : Position) : Flaw → LexicalError
  | .unexpectedCharacter c => ⟨.unexpectedCharacter c, stop⟩
  | .unterminated quote => ⟨.unterminatedLiteral quote start, stop⟩
  | .secondPoint text => ⟨.malformedNumber text, stop⟩
  | .notOneCharacter value => ⟨.invalidCharacterLiteral value, start⟩

def Cursor.error (cursor : Cursor) (fault : LexicalFault) : LexicalError := ⟨fault, cursor.position⟩

end ScriptReader
