import ScriptReader.Text.Unprintable

set_option autoImplicit false

namespace ScriptReader.Quoted

def codePoint (c : Char) : List Char :=
  '\\' :: 'u' :: '\x7b' :: (Nat.toDigits 16 c.toNat ++ ['\x7d'])

-- The other quote needs no escape.
def escape (quote c : Char) : List Char :=
  if c = '\x00' then ['\\', '0']
  else if c = '\t' then ['\\', 't']
  else if c = '\r' then ['\\', 'r']
  else if c = '\n' then ['\\', 'n']
  else if c = '\\' then ['\\', '\\']
  else if c = quote then ['\\', quote]
  else if unprintable c then codePoint c
  else [c]

def encode (quote : Char) (text : List Char) : List Char :=
  quote :: (text.flatMap (escape quote) ++ [quote])

def string (text : String) : String := String.ofList (encode '"' text.toList)

def character (c : Char) : String := String.ofList (encode '\'' [c])

theorem escape_shape (quote c : Char) :
    (escape quote c = [c] ∧ c ≠ '\\' ∧ c ≠ quote) ∨ ∃ tail, tail ≠ [] ∧ escape quote c = '\\' :: tail := by
  simp only [escape]
  split
  · exact .inr ⟨_, by simp, rfl⟩
  split
  · exact .inr ⟨_, by simp, rfl⟩
  split
  · exact .inr ⟨_, by simp, rfl⟩
  split
  · exact .inr ⟨_, by simp, rfl⟩
  split
  · exact .inr ⟨_, by simp, rfl⟩
  split
  · exact .inr ⟨_, by simp, rfl⟩
  split
  · exact .inr ⟨_, by simp, rfl⟩
  · exact .inl ⟨rfl, ‹_›, ‹_›⟩

end ScriptReader.Quoted
