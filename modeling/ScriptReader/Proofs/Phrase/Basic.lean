import ScriptReader.Grammar.Expression

/-!
Phrases: what the rules of the grammar read, as relations between the tokens taken, their meaning and
the tokens behind them. A phrase depends on what is behind it only where a rule looks ahead. The
relations follow the rules one by one, with the phrase of an inner expression as a parameter.
-/

set_option autoImplicit false

namespace ScriptReader

abbrev Phrase (α : Type) := List TokenKind → α → List TokenKind → Prop

namespace Phrase

open Rule

variable {α : Type}

def noMore (ends : List TokenKind → Bool) (tokens : List TokenKind) : Bool :=
  tokens.isEmpty || ends tokens

def opensElse : List TokenKind → Bool
  | .keyword .elseWord :: _ => true
  | _ => false

inductive Further (element : Phrase α) (separator : Char) (ends : List TokenKind → Bool) :
    Phrase (List α) where
  | done {rest : List TokenKind} (ended : noMore ends rest = true) :
      Further element separator ends [] [] rest
  | trailing {rest : List TokenKind} (ended : ends rest = true) :
      Further element separator ends [.punctuation separator] [] rest
  | next {taken more rest : List TokenKind} {value : α} {values : List α}
      (unended : ends (taken ++ (more ++ rest)) = false) (read : element taken value (more ++ rest))
      (later : Further element separator ends more values rest) :
      Further element separator ends (.punctuation separator :: (taken ++ more)) (value :: values) rest

inductive Listed (element : Phrase α) (separator : Char) (ends : List TokenKind → Bool) :
    Phrase (List α) where
  | none {rest : List TokenKind} (ended : noMore ends rest = true) :
      Listed element separator ends [] [] rest
  | some {taken more rest : List TokenKind} {value : α} {values : List α}
      (unended : noMore ends (taken ++ (more ++ rest)) = false)
      (read : element taken value (more ++ rest))
      (later : Further element separator ends more values rest) :
      Listed element separator ends (taken ++ more) (value :: values) rest

inductive Enclosed (opening closing separator : Char) (element : Phrase α) : Phrase (List α) where
  | mk {inside rest : List TokenKind} {values : List α}
      (listed : Listed element separator (opensWith closing) inside values
        (.punctuation closing :: rest)) :
      Enclosed opening closing separator element
        (.punctuation opening :: (inside ++ [.punctuation closing])) values rest

inductive Parameter : Phrase String where
  | mk (name : String) (rest : List TokenKind) : Parameter [.identifier name] name rest

inductive Primary (inner : Phrase Node) : Phrase Node where
  | number (text : String) (rest : List TokenKind) : Primary inner [.number text] (.number text) rest
  | string (value : String) (rest : List TokenKind) :
      Primary inner [.string value] (.string value) rest
  | character (value : Char) (rest : List TokenKind) :
      Primary inner [.character value] (.character value) rest
  | identifier (name : String) (rest : List TokenKind) :
      Primary inner [.identifier name] (.identifier name) rest
  | yes (rest : List TokenKind) : Primary inner [.keyword .trueWord] (.bool true) rest
  | no (rest : List TokenKind) : Primary inner [.keyword .falseWord] (.bool false) rest
  | group {inside rest : List TokenKind} {node : Node}
      (read : inner inside node (.punctuation ')' :: rest)) :
      Primary inner (.punctuation '(' :: (inside ++ [.punctuation ')'])) node rest
  | block {taken rest : List TokenKind} {statements : List Node}
      (listed : Enclosed '\x7b' '\x7d' ';' inner taken statements rest) :
      Primary inner taken (.block statements) rest
  | function {a b rest : List TokenKind} {parameters : List String} {body : Node}
      (listed : Enclosed '(' ')' ',' Parameter a parameters (b ++ rest))
      (read : inner b body rest) :
      Primary inner (.keyword .defWord :: (a ++ b)) (.function parameters body) rest
  | ifThen {a b rest : List TokenKind} {condition branch : Node}
      (first : inner a condition (b ++ rest)) (opens : opensWith '\x7b' (b ++ rest) = true)
      (second : inner b branch rest) (alone : opensElse rest = false) :
      Primary inner (.keyword .ifWord :: (a ++ b)) (.ifThen condition branch) rest
  | ifElse {a b c rest : List TokenKind} {condition branch other : Node}
      (first : inner a condition (b ++ .keyword .elseWord :: (c ++ rest)))
      (opens : opensWith '\x7b' (b ++ .keyword .elseWord :: (c ++ rest)) = true)
      (second : inner b branch (.keyword .elseWord :: (c ++ rest))) (third : inner c other rest) :
      Primary inner (.keyword .ifWord :: (a ++ (b ++ .keyword .elseWord :: c)))
        (.ifElse condition branch other) rest

inductive Calls (inner : Phrase Node) : Node → Phrase Node where
  | done {callee : Node} {rest : List TokenKind} (apart : opensWith '(' rest = false) :
      Calls inner callee [] callee rest
  | further {callee node : Node} {arguments : List Node} {a b rest : List TokenKind}
      (listed : Enclosed '(' ')' ',' inner a arguments (b ++ rest))
      (later : Calls inner (.call callee arguments) b node rest) :
      Calls inner callee (a ++ b) node rest

inductive Operand (inner : Phrase Node) : Phrase Node where
  | mk {a b rest : List TokenKind} {first node : Node} (primary : Primary inner a first (b ++ rest))
      (calls : Calls inner first b node rest) : Operand inner (a ++ b) node rest

inductive Climbing (operand : Phrase Node) (rise : Nat → Node → Phrase Node) (floor : Nat) :
    Node → Phrase Node where
  | done {left : Node} {rest : List TokenKind} (below : operatorAbove floor rest = none) :
      Climbing operand rise floor left [] left rest
  | further {left next right node : Node} {a b c rest : List TokenKind} (op : Operator)
      (above : floor < op.precedence) (read : operand a next (b ++ (c ++ rest)))
      (risen : rise op.rightFloor next b right (c ++ rest))
      (later : Climbing operand rise floor (.operation op left right) c node rest) :
      Climbing operand rise floor left (.operator op.symbol :: (a ++ (b ++ c))) node rest

def Nothing : Phrase Node := fun _ _ _ => False

mutual
def Expression : Nat → Phrase Node
  | 0 => Nothing
  | level + 1 => fun taken node rest =>
      ∃ a b first, taken = a ++ b ∧ Operand (Expression level) a first (b ++ rest) ∧
        Climbing (Operand (Expression level)) (Climb level) 0 first b node rest
def Climb : Nat → Nat → Node → Phrase Node
  | 0 => Climbing Nothing fun _ _ => Nothing
  | level + 1 => Climbing (Operand (Expression level)) (Climb level)
end

theorem expression_zero : Expression 0 = Nothing := by
  rw [Expression]

theorem expression_succ (level : Nat) (taken rest : List TokenKind) (node : Node) :
    Expression (level + 1) taken node rest ↔
      ∃ a b first, taken = a ++ b ∧ Operand (Expression level) a first (b ++ rest) ∧
        Climb (level + 1) 0 first b node rest := by
  rw [Expression, Climb]

theorem level_of_expression {level : Nat} {taken rest : List TokenKind} {node : Node}
    (read : Expression level taken node rest) : ∃ below, level = below + 1 := by
  cases level with
  | zero =>
      rw [expression_zero] at read
      exact read.elim
  | succ below => exact ⟨below, rfl⟩

theorem climb_zero : Climb 0 = Climbing Nothing fun _ _ => Nothing := by
  rw [Climb]

theorem climb_succ (level : Nat) :
    Climb (level + 1) = Climbing (Operand (Expression level)) (Climb level) := by
  rw [Climb]

end Phrase

end ScriptReader
