import ScriptReader.Token.Stream

set_option autoImplicit false

namespace ScriptReader

inductive Call where
  | peek
  | next
  | atEnd
  | position
  | item
  | tokenize
deriving DecidableEq, Repr

inductive Answer where
  | token (result : Except LexicalError (Option Token))
  | flag (result : Except LexicalError Bool)
  | position (p : Position)
  | item (result : Option (Except LexicalError Token))
  | tokens (result : Except LexicalError (List Token))

namespace Call

def perform (stream : TokenStream) : Call → Answer × TokenStream
  | .peek => stream.peek.map .token id
  | .next => stream.next.map .token id
  | .atEnd => stream.atEnd.map .flag id
  | .position => (.position stream.position, stream)
  | .item => stream.item.map .item id
  | .tokenize => stream.tokenize.map .tokens id

def run (stream : TokenStream) : List Call → List Answer × TokenStream
  | [] => ([], stream)
  | call :: calls =>
      let (answer, stream) := call.perform stream
      let (answers, stream) := run stream calls
      (answer :: answers, stream)

end Call

end ScriptReader
