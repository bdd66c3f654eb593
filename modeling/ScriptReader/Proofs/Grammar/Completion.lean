import ScriptReader.Proofs.Demand.Program
import ScriptReader.Proofs.Grammar.Derivation
import ScriptReader.Proofs.Grammar.Viable

/-!
What a rule wants behind its last token can be written there: each rule closes what it has opened, and
the rules around it close the rest.
-/

set_option autoImplicit false

namespace ScriptReader.Rule

open Phrase
open Reader (Entered callRound call_entered operationRound operation_entered)

variable {α β : Type}

theorem named_pieces (pieces : List (List TokenKind))
    (each : ∀ piece ∈ pieces, ∃ name, piece = [.identifier name]) :
    ∃ names : List String, pieces = names.map fun name => [.identifier name] := by
  induction pieces with
  | nil => exact ⟨[], rfl⟩
  | cons piece pieces ih =>
      obtain ⟨⟨name, rfl⟩, later⟩ := List.forall_mem_cons.mp each
      obtain ⟨names, rfl⟩ := ih later
      exact ⟨name :: names, rfl⟩

theorem parameter_viable :
    Completable (fun tokens => ∃ name, tokens = [.identifier name]) parameter := by
  intro tokens
  refine ⟨fun name rest read => ?_, fun what stopped => ?_⟩
  · obtain ⟨taken, rfl, ⟨name, _⟩⟩ := parameter_reads.takes tokens name rest read
    exact ⟨_, rfl, name, rfl⟩
  · unfold parameter at stopped
    split at stopped
    · cases stopped
    · cases stopped
      exact ⟨[.identifier "x"], by unfold Lexable; decide +kernel, "x", rfl⟩

section Operands

structure Closes (inner : Inner) : Prop where
  completable : ∀ looked, Completable (Derives .expression) (inner looked)
  shortens : ∀ looked, Shortens (inner looked)

variable {inner : Inner}

theorem expression_filled : ∃ more, Lexable more ∧ Derives .expression more :=
  ⟨[.keyword .trueWord], lexable_single rfl, .operand (.primary .yes)⟩

theorem inner_list_viable (closes : Closes inner) (opening closing separator : Char)
    (opens : isPunctuation opening = true) (ends : isPunctuation closing = true)
    (different : separator ≠ closing) :
    Completable (Bracketed opening closing separator (Derives .expression))
      (enclosed opening closing separator (inner true)) :=
  enclosed_viable opening closing opens ends different (closes.shortens true) (closes.completable true)

theorem group_viable (closes : Closes inner) : Completable (Derives .primary) (group inner) := by
  intro tokens
  have grouped := fun (_ : Unit) rest (_ : mark '(' tokens = .ok ((), rest)) =>
    viable_closing ')' rfl (closes.completable false rest)
  obtain ⟨more, lexable, filler⟩ := expression_filled
  refine viable_bind (mark_viable '(' rfl tokens) grouped
    ⟨_, lexable_append.mpr ⟨lexable, lexable_mark ')' rfl⟩, more, filler, rfl⟩ ?_
  rintro _ _ rfl ⟨inside, whole, rfl⟩
  exact .group whole

theorem block_viable (closes : Closes inner) : Completable (Derives .primary) (block inner) := by
  intro tokens
  refine viable_mono (viable_return (inner_list_viable closes '\x7b' '\x7d' ';' rfl rfl (by decide)
    tokens) _) ?_
  rintro _ ⟨inside, ⟨pieces, each, apart⟩, rfl⟩
  exact .block pieces each apart

def Alternative (tokens : List TokenKind) : Prop :=
  tokens = [] ∨ ∃ other, Derives .expression other ∧ tokens = .keyword .elseWord :: other

theorem alternative_viable (closes : Closes inner) : Completable Alternative (alternative inner) := by
  intro tokens
  unfold alternative
  split
  · rename_i rest
    exact viable_cons (viable_return (closes.completable false rest) some)
      fun other whole => .inr ⟨other, whole, rfl⟩
  · exact viable_ok tokens none (.inl rfl)

-- The branch of a conditional opens with a brace, and so does every beginning of it.
theorem viable_opened {tokens : List TokenKind} {outcome : Except Stop (α × List TokenKind)}
    (viable : Viable (Derives .expression) tokens outcome) (opens : opensWith '\x7b' tokens = true) :
    Viable (fun branch => Derives .expression branch ∧ opensWith '\x7b' branch = true) tokens
      outcome := by
  refine ⟨fun value rest read => ?_, fun what stopped => ?_⟩
  · obtain ⟨taken, rfl, whole⟩ := viable.takes value rest read
    obtain ⟨_, sentence⟩ : ∃ node, Greedy.Sentence true taken node := Greedy.covers_of_derives whole
    exact ⟨taken, rfl, whole, Greedy.opens_with_front sentence opens⟩
  · obtain ⟨more, lexable, whole⟩ := viable.completes what stopped
    exact ⟨more, lexable, whole, Greedy.opens_with_append opens⟩

def Branches (tokens : List TokenKind) : Prop :=
  ∃ branch behind, (Derives .expression branch ∧ opensWith '\x7b' branch = true) ∧
    Alternative behind ∧ tokens = branch ++ behind

theorem branches_filled : Branches [.punctuation '\x7b', .punctuation '\x7d'] :=
  ⟨_, [], ⟨.operand (.primary (.block [] (by simp) ((separated_nil _ _).mpr rfl))), rfl⟩, .inl rfl, rfl⟩

theorem conditional_derives {condition behind : List TokenKind}
    (first : Derives .expression condition) (branches : Branches behind) :
    Derives .primary (.keyword .ifWord :: (condition ++ behind)) := by
  obtain ⟨branch, _, ⟨second, opens⟩, rfl | ⟨other, third, rfl⟩, rfl⟩ := branches
  · rw [List.append_nil]
    exact .ifThen first opens second
  · exact .ifElse first opens second third

theorem conditional_viable (closes : Closes inner) :
    Completable (fun tokens => Derives .primary (.keyword .ifWord :: tokens)) (conditional inner) := by
  intro tokens
  have filled : ∃ more, Lexable more ∧ Branches more :=
    ⟨_, lexable_cons.mpr ⟨rfl, lexable_mark '\x7d' rfl⟩, branches_filled⟩
  refine viable_bind (closes.completable false tokens) (fun condition rest _ => ?_) filled
    fun _ _ => conditional_derives
  dsimp only
  split
  · rename_i opens
    have branched := viable_opened (closes.completable true rest) opens
    refine viable_bind branched (fun branch rest _ => ?_) ⟨[], lexable_nil, .inl rfl⟩
      fun branch behind known other => ⟨branch, behind, known, other, rfl⟩
    refine viable_bind (alternative_viable closes rest) (fun other rest _ => ?_)
      ⟨[], lexable_nil, rfl⟩ ?_
    · cases other with
      | none => exact viable_ok rest (Node.ifThen condition branch) rfl
      | some other => exact viable_ok rest (Node.ifElse condition branch other) rfl
    · rintro behind _ known rfl
      rwa [List.append_nil]
  · exact viable_missing rest .branch filled

theorem function_viable (closes : Closes inner) :
    Completable (fun tokens => Derives .primary (.keyword .defWord :: tokens)) (function inner) := by
  intro tokens
  have parameters : Completable (Bracketed '(' ')' ',' fun tokens => ∃ name, tokens = [.identifier name])
      (enclosed '(' ')' ',' parameter) :=
    enclosed_viable '(' ')' rfl rfl (by decide) parameter_shortens parameter_viable
  refine viable_bind (parameters tokens) (fun names rest _ =>
    viable_return (closes.completable false rest) (Node.function names)) expression_filled ?_
  rintro _ body ⟨inside, ⟨pieces, each, apart⟩, rfl⟩ whole
  obtain ⟨names, rfl⟩ := named_pieces pieces each
  have derived := Derives.function names apart whole
  simpa using derived

theorem primary_viable (closes : Closes inner) : Completable (Derives .primary) (primary inner) := by
  intro tokens
  have filled : ∃ more, Lexable more ∧ Derives .primary more :=
    ⟨[.keyword .trueWord], lexable_single rfl, .yes⟩
  cases tokens with
  | nil => exact viable_missing [] .expression filled
  | cons kind tokens =>
      have never : Viable (Derives .primary) (kind :: tokens)
          (.error ⟨.missing .expression, kind :: tokens⟩ : Except Stop (Node × List TokenKind)) :=
        ⟨fun _ _ read => (by cases read), fun _ stopped => (by cases stopped)⟩
      have single : ∀ node : Node, Derives .primary [kind] →
          Viable (Derives .primary) (kind :: tokens) (.ok (node, tokens)) := by
        intro node whole
        have ended : Viable (· = []) tokens (.ok (node, tokens)) := viable_ok tokens node rfl
        refine viable_cons ended ?_
        rintro _ rfl
        exact whole
      cases kind with
      | number text => exact single _ (.number text)
      | string value => exact single _ (.string value)
      | character value => exact single _ (.character value)
      | identifier name => exact single _ (.identifier name)
      | operator symbol => exact never
      | keyword word =>
          cases word with
          | trueWord => exact single _ .yes
          | falseWord => exact single _ .no
          | ifWord => exact viable_cons (conditional_viable closes tokens) fun _ whole => whole
          | defWord => exact viable_cons (function_viable closes tokens) fun _ whole => whole
          | _ => exact never
      | punctuation c =>
          simp only [primary]
          split
          · exact group_viable closes _
          · split
            · exact block_viable closes _
            · exact never

def Called (tokens : List TokenKind) : Prop :=
  ∀ front, Derives .operand front → Derives .operand (front ++ tokens)

theorem called_append (a b : List TokenKind) (first : Called a) (second : Called b) :
    Called (a ++ b) :=
  fun front operand => List.append_assoc front a b ▸ second _ (first front operand)

theorem called_nil : Called [] := fun front operand => (List.append_nil front).symm ▸ operand

theorem operand_over_viable (closes : Closes inner) :
    Completable (Derives .operand) (operandOver inner) := by
  intro tokens
  have progress := further_call_progress inner closes.shortens
  have calls : ∀ callee, Completable Called (callRound inner () callee) := by
    intro callee tokens
    refine viable_mono (viable_return (inner_list_viable closes '(' ')' ',' rfl rfl (by decide) tokens)
      (Node.call callee)) ?_
    rintro _ ⟨inside, ⟨pieces, each, apart⟩, rfl⟩ front operand
    exact .call pieces operand each apart
  refine viable_bind (primary_viable closes tokens) (fun node rest _ =>
    repeatedly_viable (call_entered inner) progress called_nil called_append
      (fun _ callee tokens _ => calls callee tokens) node rest)
    ⟨[], lexable_nil, called_nil⟩ fun a b only called => called a (.primary only)

end Operands

def Continued (tokens : List TokenKind) : Prop :=
  ∀ front, Derives .expression front → Derives .expression (front ++ tokens)

theorem continued_append (a b : List TokenKind) (first : Continued a) (second : Continued b) :
    Continued (a ++ b) :=
  fun front whole => List.append_assoc front a b ▸ second _ (first front whole)

theorem continued_nil : Continued [] := fun front whole => (List.append_nil front).symm ▸ whole

theorem continued_operation (op : Operator) {operand behind : List TokenKind}
    (right : Derives .operand operand) (later : Continued behind) :
    Continued (.operator op.symbol :: (operand ++ behind)) := by
  intro front whole
  have further := later _ (.operation op whole right)
  simpa using further

theorem too_deep_viable {holds : List TokenKind → Prop} (looked : Bool) :
    Completable holds (tooDeep looked : Rule α) :=
  fun _ => ⟨fun _ _ read => (by cases read), fun _ stopped => (by cases stopped)⟩

section Operations

variable {operand : Rule Node} {rise : Nat → Node → Rule Node}

theorem right_side_viable (operands : Completable (Derives .operand) operand)
    (rises : ∀ floor left, Completable Continued (rise floor left)) (op : Operator) (left : Node)
    (tokens : List TokenKind) : Viable (fun taken => Continued (.operator op.symbol :: taken)) tokens
      (operand tokens >>= fun (next, rest) => rise op.rightFloor next rest >>= fun (right, rest) =>
        .ok (Node.operation op left right, rest)) :=
  viable_bind (operands tokens) (fun next rest _ => viable_return (rises _ next rest) _)
    ⟨[], lexable_nil, continued_nil⟩ fun _ _ => continued_operation op

theorem climb_over_viable (shortens : Shortens operand)
    (keeps : ∀ floor left, Keeps (rise floor left))
    (operands : Completable (Derives .operand) operand)
    (rises : ∀ floor left, Completable Continued (rise floor left)) (floor : Nat) (left : Node) :
    Completable Continued (climbOver operand rise floor left) := by
  have progress := further_operation_progress operand rise floor shortens keeps
  refine repeatedly_viable (operation_entered operand rise floor) progress continued_nil
    continued_append ?_ left
  intro op left tokens enters
  cases tokens with
  | nil => cases enters
  | cons kind rest =>
      have above := Reader.operator_above_eq floor (kind :: rest)
      rw [enters] at above
      obtain ⟨same, _⟩ := operator_above_some floor (kind :: rest) rest op above
      cases same
      exact viable_cons (right_side_viable operands rises op left rest) fun _ known => known

end Operations

theorem level_viable (level : Nat) :
    (∀ looked, Completable (Derives .expression) (expression level looked)) ∧
      ∀ floor left, Completable Continued (climb level floor left) := by
  induction level with
  | zero =>
      refine ⟨fun looked tokens => ?_, fun floor left => ?_⟩
      · exact too_deep_viable looked tokens
      · exact climb_over_viable (too_deep_shortens false)
          (fun _ _ => keeps_of_shortens (too_deep_shortens true)) (too_deep_viable false)
          (fun _ _ => too_deep_viable true) floor left
  | succ level ih =>
      have operands := operand_over_viable ⟨ih.1, expression_shortens level⟩
      have climbs : ∀ floor left, Completable Continued
          (climbOver (operandOver (expression level)) (climb level) floor left) :=
        climb_over_viable (operand_over_shortens _ (expression_shortens level)) (climb_keeps level)
          operands ih.2
      refine ⟨fun _ tokens => ?_, climbs⟩
      exact viable_bind (operands tokens) (fun left rest _ => climbs 0 left rest)
        ⟨[], lexable_nil, continued_nil⟩ fun _ _ only later => later _ (.operand only)

theorem program_viable (level : Nat) : Completable (Derives .program) (program level) := by
  intro tokens
  have listed : Completable (Listing (Derives .expression) ';') (program level) :=
    elements_viable (expression_shortens level true) ((level_viable level).1 true) fun _ => rfl
  refine viable_mono (listed tokens) ?_
  rintro tokens ⟨pieces, each, apart⟩
  exact .program pieces each apart

theorem program_completes (level : Nat) (tokens : List TokenKind)
    (quiet : Reader.Quiet (· = true) (program level tokens)) :
    ∃ more, Lexable more ∧ Derives .program (tokens ++ more) := by
  have viable := program_viable level tokens
  rcases quiet with ⟨_, statements, read⟩ | ⟨what, stopped⟩
  · obtain ⟨taken, rfl, whole⟩ := viable.takes statements [] read
    refine ⟨[], lexable_nil, ?_⟩
    rwa [List.append_nil, List.append_nil]
  · exact viable.completes what stopped

end ScriptReader.Rule
