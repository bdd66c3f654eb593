import ScriptReader.Grammar.Rule
import ScriptReader.Token.Error

set_option autoImplicit false

namespace ScriptReader

def Expectation.text : Expectation → String
  | .mark c => "'" ++ c.toString ++ "'"
  | .branch => "'\x7b' after if condition"
  | .expression => "expression"
  | .parameter => "parameter name"

inductive GrammarFault where
  | expected (wanted found : String)
  | unexpectedToken (found : String)
  | unexpectedEnd (wanted : String)
  | expectedIdentifier (found : String)
  | nestingTooDeep (limit : Nat)
deriving DecidableEq, Repr

def GrammarFault.parts : GrammarFault → List String
  | .expected wanted found => ["expected ", wanted, ", found ", found]
  | .unexpectedToken found => ["unexpected ", found]
  | .unexpectedEnd wanted => ["expected ", wanted, ", found end of input"]
  | .expectedIdentifier found => ["expected identifier, found ", found]
  | .nestingTooDeep limit => ["nesting exceeds the limit of ", toString limit]

def GrammarFault.message (fault : GrammarFault) : String := String.join fault.parts

inductive ParseError where
  | lexical (error : LexicalError)
  | grammatical (fault : GrammarFault) (position : Position)
deriving DecidableEq, Repr

namespace ParseError

def position : ParseError → Position
  | .lexical error => error.position
  | .grammatical _ position => position

def message : ParseError → String
  | .lexical error => error.message
  | .grammatical fault position => "Parse error at " ++ position.text ++ ": " ++ fault.message

end ParseError

namespace Expectation

def faultAt (what : Expectation) (found : TokenKind) : GrammarFault :=
  match what with
  | .mark _ | .branch => .expected what.text found.text
  | .expression => .unexpectedToken found.text
  | .parameter => .expectedIdentifier found.text

-- An expression or a parameter is read by taking a token, which is lost if it does not fit; for a
-- mark the token is only looked at.
def takes : Expectation → Bool
  | .mark _ | .branch => false
  | .expression | .parameter => true

end Expectation

end ScriptReader
