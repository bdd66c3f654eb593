import ScriptReader.Grammar.Expression
import ScriptReader.Program.Error
import ScriptReader.Token.Stream

set_option autoImplicit false

namespace ScriptReader

structure Attempt where
  result : Except Obstacle (List Node)
  taken : Nat

def Attempt.looked (tried : Attempt) : Bool :=
  match tried.result with
  | .error (.tooDeep looked) => looked
  | _ => true

def attempt (limit : Nat) (tokens : List TokenKind) : Attempt :=
  match Rule.program limit tokens with
  | .ok (statements, unread) => ⟨.ok statements, tokens.length - unread.length⟩
  | .error ⟨obstacle, unread⟩ => ⟨.error obstacle, tokens.length - unread.length⟩

-- The grammar sees the tokens before the first flaw of the text only. Where it reads or misses
-- something behind the last of them, the stream is asked for one more token, and its error wins.
def TokenStream.parseProgram (limit : Nat) (stream : TokenStream) :
    Except ParseError Node × TokenStream :=
  let tried := attempt limit stream.upcoming
  let stream := stream.skip tried.taken
  match tried.result with
  | .error (.tooDeep looked) =>
      let stream := if looked then stream.peek.2 else stream
      (.error (.grammatical (.nestingTooDeep limit) stream.position), stream)
  | .error (.missing what) =>
      match stream.peek with
      | (.error error, stream) => (.error (.lexical error), stream)
      | (.ok none, stream) =>
          (.error (.grammatical (.unexpectedEnd what.text) stream.position), stream)
      | (.ok (some token), stream) =>
          (.error (.grammatical (what.faultAt token.kind) token.position),
            if what.takes then stream.next.2 else stream)
  | .ok statements =>
      match stream.peek with
      | (.error error, stream) => (.error (.lexical error), stream)
      | (.ok _, stream) => (.ok (.block statements), stream)

def parseWithin (limit : Nat) (source : String) : Except ParseError Node :=
  ((TokenStream.ofString source).parseProgram limit).1

def defaultLimit : Nat := 128

def parse (source : String) : Except ParseError Node := parseWithin defaultLimit source

end ScriptReader
