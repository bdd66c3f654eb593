import ScriptReader.Proofs.Phrase.Greedy

set_option autoImplicit false

namespace ScriptReader.Greedy

open Rule Phrase

structure Stops (dangling : Bool) (rest : List TokenKind) : Prop where
  call : opensWith '(' rest = false
  operator : operatorAbove 0 rest = none
  other : dangling = true → opensElse rest = false

theorem stops_nil (dangling : Bool) : Stops dangling [] := ⟨rfl, rfl, fun _ => rfl⟩

theorem stops_mark (dangling : Bool) (c : Char) (rest : List TokenKind) (other : c ≠ '(') :
    Stops dangling (.punctuation c :: rest) :=
  ⟨by simp [opensWith, other], rfl, fun _ => rfl⟩

theorem stops_opened (dangling : Bool) (c : Char) (rest : List TokenKind) (other : c ≠ '(')
    (opens : opensWith c rest = true) : Stops dangling rest := by
  obtain ⟨behind, rfl⟩ := (opens_with_eq c rest).mp opens
  exact stops_mark dangling c behind other

theorem stops_else (rest : List TokenKind) : Stops false (.keyword .elseWord :: rest) :=
  ⟨rfl, rfl, fun dangling => by cases dangling⟩

theorem opens_with_append {c : Char} {tokens rest : List TokenKind}
    (opens : opensWith c tokens = true) : opensWith c (tokens ++ rest) = true := by
  obtain ⟨behind, rfl⟩ := (opens_with_eq c tokens).mp opens
  exact (opens_with_eq c _).mpr ⟨behind ++ rest, rfl⟩

theorem no_more_sentence (closing : Char) {tokens : List TokenKind} {node : Node}
    (sentence : Sentence true tokens node) (notCall : closing ≠ '(') (notBlock : closing ≠ '\x7b')
    (behind : List TokenKind) : noMore (opensWith closing) (tokens ++ behind) = false := by
  obtain ⟨kind, rest, rfl, opens⟩ := sentence_begins sentence
  cases kind with
  | punctuation c =>
      simp only [begins, Bool.or_eq_true, beq_iff_eq] at opens
      rcases opens with rfl | rfl
      · simp [noMore, opensWith, Ne.symm notCall]
      · simp [noMore, opensWith, Ne.symm notBlock]
  | _ => rfl

theorem enclosed_accepted (opening closing separator : Char) (level : Nat)
    (pieces : List (List TokenKind × Node)) (inside rest : List TokenKind)
    (notCall : closing ≠ '(') (notBlock : closing ≠ '\x7b') (separates : separator ≠ '(')
    (each : ∀ piece ∈ pieces, Sentence true piece.1 piece.2)
    (reads : ∀ piece ∈ pieces, ∀ behind, Stops true behind →
      Expression level piece.1 piece.2 behind)
    (apart : Separated separator (pieces.map Prod.fst) inside) :
    Enclosed opening closing separator (Expression level)
      (.punctuation opening :: (inside ++ [.punctuation closing])) (pieces.map Prod.snd) rest := by
  refine .mk (listed_of_separated pieces inside _ apart (by simp [opensWith]) ?_ ?_)
  · intro piece member behind next
    refine reads piece member behind ?_
    rcases next with next | rfl
    · exact stops_opened true separator behind separates next
    · exact stops_mark true closing rest notCall
  · exact fun piece member => no_more_sentence closing (each piece member) notCall notBlock

theorem parameters_accepted (names : List String) (inside rest : List TokenKind)
    (apart : Separated ',' (names.map fun name => [.identifier name]) inside) :
    Enclosed '(' ')' ',' Parameter (.punctuation '(' :: (inside ++ [.punctuation ')'])) names rest := by
  let pieces : List (List TokenKind × String) := names.map fun name => ([.identifier name], name)
  have fronts : pieces.map Prod.fst = names.map fun name => [.identifier name] := by simp [pieces]
  have values : pieces.map Prod.snd = names := by simp [pieces, Function.comp_def]
  have listed : Listed Parameter ',' (opensWith ')') inside (pieces.map Prod.snd)
      (.punctuation ')' :: rest) := by
    refine listed_of_separated pieces inside _ (fronts ▸ apart) rfl ?_ ?_
    · intro piece member behind _
      obtain ⟨name, _, rfl⟩ := List.mem_map.mp member
      exact .mk name behind
    · intro piece member behind
      obtain ⟨name, _, rfl⟩ := List.mem_map.mp member
      rfl
  rw [values] at listed
  exact .mk listed

theorem alone_accepted (level : Nat) (tokens rest : List TokenKind) (node : Node)
    (primary : Primary (Expression level) tokens node rest) (apart : opensWith '(' rest = false) :
    Operand (Expression level) tokens node rest := by
  have operand : Operand (Expression level) (tokens ++ []) node rest := .mk primary (.done apart)
  rwa [List.append_nil] at operand

mutual
theorem closed_accepted : ∀ {tokens : List TokenKind} {node : Node}, Closed tokens node →
    ∀ (level : Nat) (more rest : List TokenKind) (result : Node), tokens.length ≤ level →
      Calls (Expression level) node more result rest →
      Operand (Expression level) (tokens ++ more) result rest
  | _, _, .number text => fun _ _ _ _ _ calls => .mk (.number text _) calls
  | _, _, .string value => fun _ _ _ _ _ calls => .mk (.string value _) calls
  | _, _, .character value => fun _ _ _ _ _ calls => .mk (.character value _) calls
  | _, _, .identifier name => fun _ _ _ _ _ calls => .mk (.identifier name _) calls
  | _, _, .yes => fun _ _ _ _ _ calls => .mk (.yes _) calls
  | _, _, .no => fun _ _ _ _ _ calls => .mk (.no _) calls
  | _, _, .group whole => by
      intro level more rest result enough calls
      simp only [List.length_cons, List.length_append] at enough
      have stops := stops_mark true ')' (more ++ rest) (by decide)
      exact .mk (.group (sentence_accepted whole level _ (by omega) stops)) calls
  | _, _, @Closed.block inside pieces each apart => by
      intro level more rest result enough calls
      simp only [List.length_cons, List.length_append] at enough
      have listed := enclosed_accepted '\x7b' '\x7d' ';' level pieces inside (more ++ rest) (by decide)
        (by decide) (by decide) each (fun piece member behind stops => by
          have shorter := length_of_separated _ _ _ apart piece.1 (List.mem_map_of_mem member)
          exact sentence_accepted (each piece member) level behind (by omega) stops) apart
      exact .mk (.block listed) calls
  | _, _, @Closed.call _ inside _ pieces first each apart => by
      intro level more rest result enough calls
      simp only [List.length_cons, List.length_append] at enough
      have listed := enclosed_accepted '(' ')' ',' level pieces inside (more ++ rest) (by decide)
        (by decide) (by decide) each (fun piece member behind stops => by
          have shorter := length_of_separated _ _ _ apart piece.1 (List.mem_map_of_mem member)
          exact sentence_accepted (each piece member) level behind (by omega) stops) apart
      rw [List.append_assoc]
      exact closed_accepted first level _ rest result (by omega) (.further listed calls)
theorem chain_accepted : ∀ {dangling : Bool} {front : List TokenKind} {first : Node}
    {links : List Link}, Chain dangling front first links →
    ∀ (need : Nat) (rest : List TokenKind),
      front.length + (Link.spelled links).length ≤ need + links.length → Stops dangling rest →
      (∀ level, need ≤ level →
        Operand (Expression level) front first (Link.spelled links ++ rest)) ∧
        Link.Readable need rest links
  | _, front, first, _, .closed last => by
      intro need rest enough stops
      refine ⟨fun level more => ?_, trivial⟩
      simp only [Link.spelled_nil, List.length_nil] at enough
      have operand := closed_accepted last level [] rest first (by omega) (.done stops.call)
      rwa [List.append_nil] at operand
  | _, _, _, _, @Chain.function _ inside tokens names _ apart whole => by
      intro need rest enough stops
      refine ⟨fun level more => ?_, trivial⟩
      simp only [Link.spelled_nil, List.length_nil, List.length_cons, List.length_append] at enough
      have listed := parameters_accepted names inside (tokens ++ rest) apart
      have body := sentence_accepted whole level rest (by omega) stops
      have primary := Primary.function listed body
      simp only [List.cons_append, List.append_assoc, List.nil_append] at primary
      exact alone_accepted level _ rest _ primary stops.call
  | _, _, _, _, @Chain.ifThen a b _ _ first opens second => by
      intro need rest enough stops
      refine ⟨fun level more => ?_, trivial⟩
      simp only [Link.spelled_nil, List.length_nil, List.length_cons, List.length_append] at enough
      have opensBehind : opensWith '\x7b' (b ++ rest) = true := opens_with_append opens
      have condition := sentence_accepted first level (b ++ rest) (by omega)
        (stops_opened true '\x7b' _ (by decide) opensBehind)
      have branch := sentence_accepted second level rest (by omega) stops
      have primary := Primary.ifThen condition opensBehind branch (stops.other rfl)
      exact alone_accepted level _ rest _ primary stops.call
  | dangling, _, _, _, @Chain.ifElse _ a b c _ _ _ first opens second third => by
      intro need rest enough stops
      refine ⟨fun level more => ?_, trivial⟩
      simp only [Link.spelled_nil, List.length_nil, List.length_cons, List.length_append] at enough
      have opensBehind : opensWith '\x7b' (b ++ .keyword .elseWord :: (c ++ rest)) = true :=
        opens_with_append opens
      have condition := sentence_accepted first level _ (by omega)
        (stops_opened true '\x7b' _ (by decide) opensBehind)
      have branch := sentence_accepted second level _ (by omega) (stops_else (c ++ rest))
      have other := sentence_accepted third level rest (by omega) stops
      have primary := Primary.ifElse condition opensBehind branch other
      exact alone_accepted level _ rest _ primary stops.call
  | _, front, first, _, @Chain.link _ _ tokens _ next links op closed later => by
      intro need rest enough stops
      simp only [Link.spelled_cons, List.length_cons, List.length_append] at enough
      have shorter := Link.length_le_spelled links
      have tail := chain_accepted later need rest (by omega) stops
      refine ⟨fun level more => ?_, tail⟩
      have operand := closed_accepted closed level []
        (Link.spelled (⟨op, tokens, next⟩ :: links) ++ rest) first (by omega)
        (.done (by rw [Link.spelled_cons]; rfl))
      rwa [List.append_nil] at operand
theorem sentence_accepted : ∀ {dangling : Bool} {tokens : List TokenKind} {node : Node},
    Sentence dangling tokens node → ∀ (level : Nat) (rest : List TokenKind), tokens.length < level →
      Stops dangling rest → Expression level tokens node rest
  | _, _, _, @Sentence.mk _ front first links chain => by
      intro level rest enough stops
      simp only [List.length_append] at enough
      have shorter := Link.length_le_spelled links
      have shallow := Link.depth_le_length links
      -- Each link has a token more than its operand, which leaves a level for the right operands.
      have parts := chain_accepted chain (front.length + (Link.spelled links).length - links.length)
        rest (by omega) stops
      obtain ⟨level, rfl⟩ : ∃ more, level = more + 1 := ⟨level - 1, by omega⟩
      have operand := parts.1 level (by omega)
      have climbed := climb_all _ rest stops.operator links parts.2 (level + 1) first (by omega)
      exact (expression_succ _ _ _ _).mpr ⟨front, _, first, rfl, operand, climbed⟩
end

end ScriptReader.Greedy
