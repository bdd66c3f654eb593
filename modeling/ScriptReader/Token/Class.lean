set_option autoImplicit false

namespace ScriptReader

def isDigit (c : Char) : Bool := '0' ≤ c && c ≤ '9'

def isLetter (c : Char) : Bool := 'a' ≤ c && c ≤ 'z' || 'A' ≤ c && c ≤ 'Z'

def opensWord (c : Char) : Bool := isLetter c || c == '_'

def continuesWord (c : Char) : Bool := isLetter c || isDigit c || c == '_'

def isOperatorMark (c : Char) : Bool :=
  match c with
  | '+' | '-' | '*' | '/' | '%' | '=' | '&' | '|' | '<' | '>' | '!' => true
  | _ => false

def isPunctuation (c : Char) : Bool :=
  match c with
  | ',' | '.' | ';' | '(' | ')' | '\x7b' | '\x7d' | '[' | ']' => true
  | _ => false

def isBlank (c : Char) : Bool :=
  match c with
  | ' ' | '\t' | '\n' | '\r' => true
  | _ => false

theorem continues_of_opens (c : Char) (opens : opensWord c = true) : continuesWord c = true := by
  simp only [opensWord, continuesWord, Bool.or_eq_true] at opens ⊢
  rcases opens with letter | underscore
  · exact .inl (.inl letter)
  · exact .inr underscore

theorem continues_of_digit (c : Char) (digit : isDigit c = true) : continuesWord c = true := by
  simp [continuesWord, digit]

end ScriptReader
