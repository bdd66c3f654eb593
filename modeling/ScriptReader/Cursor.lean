import ScriptReader.Position

set_option autoImplicit false

namespace ScriptReader

structure Cursor where
  rest : List Char
  position : Position
deriving DecidableEq

namespace Cursor

def ofText (text : List Char) : Cursor := ⟨text, .start⟩

def ofString (text : String) : Cursor := ofText text.toList

def peek (cursor : Cursor) : Option Char := cursor.rest.head?

def next (cursor : Cursor) : Option Char × Cursor :=
  match cursor.rest with
  | [] => (none, cursor)
  | c :: rest => (some c, ⟨rest, cursor.position.advance c⟩)

def atEnd (cursor : Cursor) : Bool := cursor.rest.isEmpty

def skip : Nat → Cursor → Cursor
  | 0, cursor => cursor
  | count + 1, cursor => skip count cursor.next.2

theorem skip_eq (count : Nat) (cursor : Cursor) :
    cursor.skip count =
      ⟨cursor.rest.drop count, cursor.position.advanceOver (cursor.rest.take count)⟩ := by
  induction count generalizing cursor with
  | zero => rfl
  | succ count ih =>
      obtain ⟨rest, position⟩ := cursor
      cases rest with
      | nil => rw [skip, ih]; simp [next]
      | cons c rest => rw [skip, ih]; simp [next]

end Cursor

end ScriptReader
