import ScriptReader.Proofs.Phrase.Accepts

set_option autoImplicit false

namespace ScriptReader.Greedy

open Rule Phrase

def Sentences (phrase : Phrase Node) : Prop :=
  ∀ tokens node rest, phrase tokens node rest →
    Sentence (!opensElse rest) tokens node ∧ Stops (!opensElse rest) rest

def Operands (phrase : Phrase Node) : Prop :=
  ∀ tokens node rest, phrase tokens node rest → opensWith '(' rest = false ∧
    (Closed tokens node ∨
      Chain (!opensElse rest) tokens node [] ∧ operatorAbove 0 rest = none)

-- Only the last link may hold an operand that is not closed, and then no operator follows it.
def Linked (rest : List TokenKind) : List Link → Prop
  | [] => True
  | link :: links =>
      Closed link.tokens link.node ∧ Linked rest links ∨
        links = [] ∧ Chain (!opensElse rest) link.tokens link.node [] ∧ operatorAbove 0 rest = none

def Climbs (floor : Nat) (left : Node) (phrase : Phrase Node) : Prop :=
  ∀ tokens node rest, phrase tokens node rest → opensWith '(' (tokens ++ rest) = false →
    ∃ links, tokens = Link.spelled links ∧ node = Link.reference left links ∧
      (∀ link ∈ links, floor < link.op.precedence) ∧ operatorAbove floor rest = none ∧
      opensWith '(' rest = false ∧ Linked rest links

theorem spelled_stopped (floor : Nat) (links : List Link) (rest : List TokenKind)
    (below : operatorAbove floor (Link.spelled links ++ rest) = none) :
    ∀ first ∈ links.head?, first.op.precedence ≤ floor := by
  cases links with
  | nil => simp
  | cons link links =>
      intro first same
      cases same
      rw [Link.spelled_cons, List.cons_append] at below
      apply Nat.le_of_not_lt
      intro above
      rw [operator_above_here floor _ link.op above] at below
      cases below

theorem spelled_stopped_nil (links : List Link) (rest : List TokenKind)
    (below : operatorAbove 0 (Link.spelled links ++ rest) = none) : links = [] := by
  cases links with
  | nil => rfl
  | cons link links =>
      have stopped := spelled_stopped 0 _ rest below link rfl
      have := link.op.precedence_pos
      omega

theorem linked_append (a b : List Link) (rest : List TokenKind)
    (first : Linked (Link.spelled b ++ rest) a) (second : Linked rest b) : Linked rest (a ++ b) := by
  induction a with
  | nil => exact second
  | cons link a ih =>
      rcases first with ⟨closed, later⟩ | ⟨rfl, last, stopped⟩
      · exact .inl ⟨closed, ih later⟩
      · obtain rfl := spelled_stopped_nil b rest stopped
        exact .inr ⟨rfl, last, stopped⟩

theorem chain_of_linked (rest : List TokenKind) (links : List Link) (linked : Linked rest links)
    (front : List TokenKind) (first : Node) (closed : Closed front first) :
    Chain (!opensElse rest) front first links := by
  induction links generalizing front first with
  | nil => exact .closed closed
  | cons link links ih =>
      rcases linked with ⟨next, later⟩ | ⟨rfl, last, _⟩
      · exact .link link.op closed (ih later _ _ next)
      · exact .link link.op closed last

section Levels

variable {inner : Phrase Node}

theorem enclosed_separated {opening closing separator : Char} (sentences : Sentences inner)
    {tokens rest : List TokenKind} {nodes : List Node}
    (enclosed : Enclosed opening closing separator inner tokens nodes rest) :
    ∃ (inside : List TokenKind) (pieces : List (List TokenKind × Node)),
      tokens = .punctuation opening :: (inside ++ [.punctuation closing]) ∧
        nodes = pieces.map Prod.snd ∧ Separated separator (pieces.map Prod.fst) inside ∧
          ∀ piece ∈ pieces, Sentence true piece.1 piece.2 := by
  obtain ⟨listed⟩ := enclosed
  obtain ⟨pieces, same, apart, each⟩ := separated_of_listed listed
    fun tokens node rest read => sentence_loosen (sentences tokens node rest read).1
  exact ⟨_, pieces, rfl, same, apart, each⟩

theorem parameters_separated {tokens rest : List TokenKind} {names : List String}
    (enclosed : Enclosed '(' ')' ',' Parameter tokens names rest) :
    ∃ inside, tokens = .punctuation '(' :: (inside ++ [.punctuation ')']) ∧
      Separated ',' (names.map fun name => [.identifier name]) inside := by
  obtain ⟨listed⟩ := enclosed
  obtain ⟨pieces, rfl, apart, each⟩ := separated_of_listed listed
    fun tokens name _ read => show tokens = [.identifier name] by cases read; rfl
  refine ⟨_, rfl, ?_⟩
  rw [List.map_congr_left each] at apart
  rwa [List.map_map]

theorem opens_with_front {dangling : Bool} {c : Char} {tokens rest : List TokenKind} {node : Node}
    (sentence : Sentence dangling tokens node) (opens : opensWith c (tokens ++ rest) = true) :
    opensWith c tokens = true := by
  obtain ⟨kind, behind, rfl, _⟩ := sentence_begins sentence
  cases kind <;> exact opens

theorem primary_greedy (sentences : Sentences inner) {tokens rest : List TokenKind} {node : Node}
    (primary : Primary inner tokens node rest) :
    Closed tokens node ∨
      Chain (!opensElse rest) tokens node [] ∧ Stops (!opensElse rest) rest := by
  cases primary with
  | number text => exact .inl (.number text)
  | string value => exact .inl (.string value)
  | character value => exact .inl (.character value)
  | identifier name => exact .inl (.identifier name)
  | yes => exact .inl .yes
  | no => exact .inl .no
  | group read => exact .inl (.group (sentences _ _ _ read).1)
  | block listed =>
      obtain ⟨inside, pieces, rfl, rfl, apart, each⟩ := enclosed_separated sentences listed
      exact .inl (.block each apart)
  | function listed read =>
      obtain ⟨inside, rfl, apart⟩ := parameters_separated listed
      obtain ⟨body, stops⟩ := sentences _ _ _ read
      refine .inr ⟨?_, stops⟩
      simpa using Chain.function apart body
  | ifThen first opens second alone =>
      obtain ⟨branch, stops⟩ := sentences _ _ _ second
      have condition := sentence_loosen (sentences _ _ _ first).1
      refine .inr ⟨?_, stops⟩
      rw [alone] at branch ⊢
      exact .ifThen condition (opens_with_front branch opens) branch
  | ifElse first opens second third =>
      obtain ⟨other, stops⟩ := sentences _ _ _ third
      have condition := sentence_loosen (sentences _ _ _ first).1
      have branch := (sentences _ _ _ second).1
      exact .inr ⟨.ifElse condition (opens_with_front branch opens) branch other, stops⟩

theorem calls_greedy (sentences : Sentences inner) {callee node : Node}
    {tokens rest : List TokenKind} (calls : Calls inner callee tokens node rest)
    (front : List TokenKind) (closed : Closed front callee) :
    Closed (front ++ tokens) node ∧ opensWith '(' rest = false := by
  induction calls generalizing front with
  | done apart => exact ⟨by rwa [List.append_nil], apart⟩
  | further listed later ih =>
      obtain ⟨inside, pieces, rfl, rfl, apart, each⟩ := enclosed_separated sentences listed
      have whole := ih _ (.call closed each apart)
      simpa using whole

theorem operand_greedy (sentences : Sentences inner) : Operands (Operand inner) := by
  rintro _ node rest ⟨primary, calls⟩
  rcases primary_greedy sentences primary with closed | ⟨chain, stops⟩
  · have whole := calls_greedy sentences calls _ closed
    exact ⟨whole.2, .inl whole.1⟩
  · cases calls with
    | done apart =>
        rw [List.append_nil]
        exact ⟨apart, .inr ⟨chain, stops.operator⟩⟩
    | further listed later =>
        obtain ⟨_⟩ := listed
        have called := stops.call
        simp [opensWith] at called

theorem climbing_greedy {operand : Phrase Node} {rise : Nat → Node → Phrase Node}
    (operands : Operands operand) (rises : ∀ floor left, Climbs floor left (rise floor left))
    (floor : Nat) (left : Node) : Climbs floor left (Climbing operand rise floor left) := by
  intro tokens node rest climbing
  induction climbing with
  | done below =>
      intro apart
      exact ⟨[], rfl, by rw [Link.reference_nil], by simp, below, apart, trivial⟩
  | @further left next right node a b c rest op above read risen later ih =>
      intro _
      obtain ⟨apart, shape⟩ := operands _ _ _ read
      obtain ⟨inner, rfl, rfl, tighter, stopped, apart, linked⟩ := rises _ _ _ _ _ risen apart
      obtain ⟨outer, rfl, rfl, further, below, apart, linked'⟩ := ih apart
      have stops := spelled_stopped _ outer rest stopped
      refine ⟨⟨op, a, next⟩ :: (inner ++ outer), ?_, ?_, ?_, below, apart, ?_⟩
      · rw [Link.spelled_cons, Link.spelled_append]
      · exact (Link.reference_step left ⟨op, a, next⟩ inner outer tighter stops).symm
      · intro link inside
        rcases List.mem_cons.mp inside with rfl | inside
        · exact above
        · rcases List.mem_append.mp inside with inside | inside
          · have kept := Link.above_of_tighter floor op above link (by simpa [Link.above] using tighter link inside)
            simpa [Link.above] using kept
          · exact further link inside
      · rcases shape with closed | ⟨chain, none⟩
        · exact .inl ⟨closed, linked_append inner outer rest linked linked'⟩
        · -- Behind an operand that is not closed there is no operator, so the chain ends.
          obtain rfl := spelled_stopped_nil inner _ none
          obtain rfl := spelled_stopped_nil outer _ none
          exact .inr ⟨rfl, chain, none⟩

end Levels

theorem nothing_greedy (floor : Nat) (left : Node) : Climbs floor left Nothing :=
  fun _ _ _ read => read.elim

theorem level_greedy (level : Nat) :
    Sentences (Expression level) ∧ ∀ floor left, Climbs floor left (Climb level floor left) := by
  induction level with
  | zero =>
      refine ⟨?_, fun floor left => ?_⟩
      · rw [expression_zero]
        exact fun _ _ _ read => read.elim
      · rw [climb_zero]
        exact climbing_greedy (fun _ _ _ read => read.elim) nothing_greedy floor left
  | succ level ih =>
      have operands := operand_greedy ih.1
      have climbs : ∀ floor left, Climbs floor left (Climb (level + 1) floor left) := by
        intro floor left
        rw [Phrase.climb_succ]
        exact climbing_greedy operands ih.2 floor left
      refine ⟨fun tokens node rest read => ?_, climbs⟩
      obtain ⟨a, b, first, rfl, opened, climbed⟩ := (expression_succ _ _ _ _).mp read
      obtain ⟨apart, shape⟩ := operands _ _ _ opened
      obtain ⟨links, rfl, rfl, _, below, apart, linked⟩ := climbs _ _ _ _ _ climbed apart
      have stops : Stops (!opensElse rest) rest := ⟨apart, below, by simp⟩
      rcases shape with closed | ⟨chain, none⟩
      · exact ⟨.mk (chain_of_linked rest links linked a first closed), stops⟩
      · obtain rfl := spelled_stopped_nil links rest none
        exact ⟨.mk chain, stops⟩

theorem expression_sentence {level : Nat} {tokens rest : List TokenKind} {node : Node}
    (read : Expression level tokens node rest) :
    Sentence (!opensElse rest) tokens node ∧ Stops (!opensElse rest) rest :=
  (level_greedy level).1 tokens node rest read

end ScriptReader.Greedy
