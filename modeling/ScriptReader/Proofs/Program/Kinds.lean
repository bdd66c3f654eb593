import ScriptReader.Proofs.Demand.Program
import ScriptReader.Proofs.Program.Outcome

set_option autoImplicit false

namespace ScriptReader

def GrammarFault.namesToken : GrammarFault → Bool
  | .expected _ _ | .unexpectedToken _ | .expectedIdentifier _ => true
  | .unexpectedEnd _ | .nestingTooDeep _ => false

-- A fault comes with the number of tokens before it.
def parseKinds (limit : Nat) (kinds : List TokenKind) : Except (GrammarFault × Nat) Node :=
  let tried := attempt limit kinds
  match tried.result with
  | .ok statements => .ok (.block statements)
  | .error (.tooDeep _) => .error (.nestingTooDeep limit, tried.taken)
  | .error (.missing what) =>
      match kinds[tried.taken]? with
      | none => .error (.unexpectedEnd what.text, tried.taken)
      | some kind => .error (what.faultAt kind, tried.taken)

inductive Located (tokens : List Token) :
    Except (GrammarFault × Nat) Node → Except ParseError Node → Prop where
  | tree (tree : Node) : Located tokens (.ok tree) (.ok tree)
  | fault (fault : GrammarFault) (index : Nat) (position : Position)
      (placed : fault.namesToken → tokens[index]?.map Token.position = some position) :
      Located tokens (.error (fault, index)) (.error (.grammatical fault position))

theorem attempt_taken (limit : Nat) (kinds : List TokenKind) :
    (attempt limit kinds).taken ≤ kinds.length := by
  unfold attempt
  split <;> exact Nat.sub_le _ _

theorem peek_token {source : String} {tokens : List Token} (lexed : tokenize source = .ok tokens)
    (count : Nat) (enough : count ≤ tokens.length) :
    ((TokenStream.ofString source).skip count).peek.1 = .ok tokens[count]? := by
  obtain ⟨complete, rfl⟩ := (tokenize_ok_iff _ _).mp lexed
  rw [tokens_from_length] at enough
  exact TokenStream.peek_after_skip source.toList .start count enough complete

theorem parse_within_located (limit : Nat) (source : String) (tokens : List Token)
    (lexed : tokenize source = .ok tokens) :
    Located tokens (parseKinds limit (tokens.map Token.kind)) (parseWithin limit source) := by
  have enough := attempt_taken limit (tokens.map Token.kind)
  rw [List.length_map] at enough
  have shown := peek_token lexed _ enough
  simp only [parseWithin, TokenStream.parseProgram, parseKinds, upcoming_of_string,
    ← kinds_of_tokenize lexed]
  generalize attempt limit (tokens.map Token.kind) = tried at shown ⊢
  generalize ((TokenStream.ofString source).skip tried.taken).peek = answer at shown ⊢
  obtain ⟨found, behind⟩ := answer
  cases shown
  cases tried.result with
  | ok statements => exact .tree _
  | error obstacle =>
      cases obstacle with
      | tooDeep looked => exact .fault _ _ _ fun named => (by cases named)
      | missing what =>
          rw [List.getElem?_map]
          cases there : tokens[tried.taken]? with
          | none => exact .fault _ _ _ fun named => (by cases named)
          | some token => exact .fault _ _ _ fun _ => by rw [there]; rfl

theorem parse_of_same_kinds (limit : Nat) (a b : String) (s t : List Token)
    (lexedA : tokenize a = .ok s) (lexedB : tokenize b = .ok t)
    (same : s.map Token.kind = t.map Token.kind) :
    ((∃ tree, parseKinds limit (s.map Token.kind) = .ok tree ∧
        parseWithin limit a = .ok tree ∧ parseWithin limit b = .ok tree) ∨
      ∃ fault index p q, parseKinds limit (s.map Token.kind) = .error (fault, index) ∧
        parseWithin limit a = .error (.grammatical fault p) ∧
        parseWithin limit b = .error (.grammatical fault q) ∧
        (fault.namesToken → s[index]?.map Token.position = some p ∧
          t[index]?.map Token.position = some q)) ∧
      Reader.program limit (.ofString a) = (TokenStream.ofString a).parseProgram limit ∧
      Reader.program limit (.ofString b) = (TokenStream.ofString b).parseProgram limit := by
  have first := parse_within_located limit a s lexedA
  have second := parse_within_located limit b t lexedB
  rw [← same] at second
  refine ⟨?_, Reader.program_eq limit _, Reader.program_eq limit _⟩
  generalize parseKinds limit (s.map Token.kind) = outcome at first second ⊢
  generalize parseWithin limit a = parsedA at first ⊢
  generalize parseWithin limit b = parsedB at second ⊢
  cases first with
  | tree tree =>
      cases second
      exact .inl ⟨tree, rfl, rfl, rfl⟩
  | fault fault index p placedA =>
      cases second with
      | fault _ _ q placedB =>
          exact .inr ⟨fault, index, p, q, rfl, rfl, rfl,
            fun named => ⟨placedA named, placedB named⟩⟩

theorem brace_in_either_layout :
    ∃ s t fault, tokenize "f(\x7d" = .ok s ∧ tokenize "f # g\n ( \x7d" = .ok t ∧
      s.map Token.kind = t.map Token.kind ∧
      parseWithin 9 "f(\x7d" = .error (.grammatical fault ⟨1, 2⟩) ∧
      parseWithin 9 "f # g\n ( \x7d" = .error (.grammatical fault ⟨2, 3⟩) := by
  have lexedA : tokenize "f(\x7d" = .ok [⟨.identifier "f", ⟨1, 0⟩⟩, ⟨.punctuation '(', ⟨1, 1⟩⟩,
      ⟨.punctuation '\x7d', ⟨1, 2⟩⟩] := by
    cbv
  have lexedB : tokenize "f # g\n ( \x7d" = .ok [⟨.identifier "f", ⟨1, 0⟩⟩,
      ⟨.punctuation '(', ⟨2, 1⟩⟩, ⟨.punctuation '\x7d', ⟨2, 3⟩⟩] := by
    cbv
  rcases (parse_of_same_kinds 9 _ _ _ _ lexedA lexedB rfl).1 with
    ⟨tree, read, _⟩ | ⟨fault, index, p, q, read, failedA, failedB, placed⟩
  · cases read
  · cases read
    obtain ⟨placedA, placedB⟩ := placed rfl
    cases placedA
    cases placedB
    exact ⟨_, _, _, lexedA, lexedB, rfl, failedA, failedB⟩

end ScriptReader
