import ScriptReader.Position
import ScriptReader.Text.Quoted

set_option autoImplicit false

namespace ScriptReader

inductive Keyword where
  | ifWord
  | elseWord
  | charWord
  | intWord
  | longWord
  | floatWord
  | doubleWord
  | stringWord
  | defWord
  | namespWord
  | classWord
  | trueWord
  | falseWord
deriving DecidableEq, Repr

namespace Keyword

def all : List Keyword :=
  [.ifWord, .elseWord, .charWord, .intWord, .longWord, .floatWord, .doubleWord, .stringWord,
   .defWord, .namespWord, .classWord, .trueWord, .falseWord]

def spelling : Keyword → String
  | .ifWord => "if"
  | .elseWord => "else"
  | .charWord => "char"
  | .intWord => "int"
  | .longWord => "long"
  | .floatWord => "float"
  | .doubleWord => "double"
  | .stringWord => "string"
  | .defWord => "def"
  | .namespWord => "namesp"
  | .classWord => "class"
  | .trueWord => "true"
  | .falseWord => "false"

def ofWord? (word : String) : Option Keyword := all.find? fun keyword => keyword.spelling == word

theorem of_word_spelling (keyword : Keyword) : ofWord? keyword.spelling = some keyword := by
  cases keyword <;> decide +kernel

theorem of_word_eq_some (word : String) (keyword : Keyword) :
    ofWord? word = some keyword ↔ keyword.spelling = word := by
  constructor
  · intro found
    have spelled := (List.find?_eq_some_iff_append.mp found).1
    exact eq_of_beq spelled
  · rintro rfl
    exact of_word_spelling keyword

end Keyword

inductive TokenKind where
  -- The digits as written, such as `42` or `3.14`.
  | number (text : String)
  -- The value of a string literal: its body without quotes and escaping backslashes.
  | string (value : String)
  | character (value : Char)
  | keyword (word : Keyword)
  | identifier (name : String)
  | punctuation (mark : Char)
  -- A run of operator marks, with or without a meaning.
  | operator (symbol : String)
deriving DecidableEq, Repr

def TokenKind.text : TokenKind → String
  | .number text => "number " ++ text
  | .string value => "string " ++ Quoted.string value
  | .character value => "char " ++ Quoted.character value
  | .keyword word => "keyword '" ++ word.spelling ++ "'"
  | .identifier name => "identifier '" ++ name ++ "'"
  | .punctuation mark => "'" ++ mark.toString ++ "'"
  | .operator symbol => "operator '" ++ symbol ++ "'"

structure Token where
  kind : TokenKind
  position : Position
deriving DecidableEq, Repr

namespace Token

def text (token : Token) : String := token.kind.text ++ " at " ++ token.position.text

def isPunctuation (token : Token) (mark : Char) : Bool := token.kind == .punctuation mark

def isKeyword (token : Token) (word : Keyword) : Bool := token.kind == .keyword word

def isOperator (token : Token) (symbol : String) : Bool := token.kind == .operator symbol

end Token

end ScriptReader
