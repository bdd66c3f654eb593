import ScriptReader.Grammar.Rule

set_option autoImplicit false

namespace ScriptReader.Rule

variable {α : Type}

-- Another separator, and the element behind it unless the sequence ends there. The elements are
-- held in reverse.
def furtherElement (element : Rule α) (separator : Char) (ends : List TokenKind → Bool) :
    Step (List α) := fun found tokens =>
  if tokens.isEmpty || ends tokens then .ok none
  else do
    let (_, tokens) ← mark separator tokens
    if ends tokens then return some (found, tokens)
    let (next, tokens) ← element tokens
    return some (next :: found, tokens)

def elements (element : Rule α) (separator : Char) (ends : List TokenKind → Bool) :
    Rule (List α) := fun tokens =>
  if tokens.isEmpty || ends tokens then .ok ([], tokens)
  else do
    let (first, tokens) ← element tokens
    let (found, tokens) ← repeatedly (furtherElement element separator ends) [first] tokens
    return (found.reverse, tokens)

def enclosed (opening closing separator : Char) (element : Rule α) : Rule (List α) := fun tokens => do
  let (_, tokens) ← mark opening tokens
  let (found, tokens) ← elements element separator (opensWith closing) tokens
  let (_, tokens) ← mark closing tokens
  return (found, tokens)

end ScriptReader.Rule
