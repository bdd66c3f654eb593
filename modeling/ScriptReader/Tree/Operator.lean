set_option autoImplicit false

namespace ScriptReader

inductive Operator where
  | assign
  | arrow
  | or
  | and
  | less
  | greater
  | atMost
  | atLeast
  | add
  | subtract
  | multiply
  | divide
  | remainder
deriving DecidableEq, Repr

namespace Operator

def all : List Operator :=
  [.assign, .arrow, .or, .and, .less, .greater, .atMost, .atLeast, .add, .subtract, .multiply,
   .divide, .remainder]

def symbol : Operator → String
  | .assign => "="
  | .arrow => "->"
  | .or => "||"
  | .and => "&&"
  | .less => "<"
  | .greater => ">"
  | .atMost => "<="
  | .atLeast => ">="
  | .add => "+"
  | .subtract => "-"
  | .multiply => "*"
  | .divide => "/"
  | .remainder => "%"

def ofSymbol? (symbol : String) : Option Operator := all.find? fun op => op.symbol == symbol

def isAssignment : Operator → Bool
  | .assign | .arrow => true
  | _ => false

def precedence : Operator → Nat
  | .assign | .arrow => 1
  | .or => 2
  | .and => 3
  | .less | .greater | .atMost | .atLeast => 7
  | .add | .subtract => 10
  | .multiply | .divide | .remainder => 20

-- What an operator must exceed to stand in the right operand: an assignment lets its equals in.
def rightFloor (op : Operator) : Nat := if op.isAssignment then op.precedence - 1 else op.precedence

@[simp] theorem of_symbol_symbol (op : Operator) : ofSymbol? op.symbol = some op := by
  cases op <;> decide +kernel

theorem of_symbol_eq_some (symbol : String) (op : Operator) :
    ofSymbol? symbol = some op ↔ op.symbol = symbol := by
  constructor
  · intro found
    have spelled := (List.find?_eq_some_iff_append.mp found).1
    exact eq_of_beq spelled
  · rintro rfl
    exact of_symbol_symbol op

theorem precedence_pos (op : Operator) : 0 < op.precedence := by
  cases op <;> decide

end Operator

end ScriptReader
