import ScriptReader.Program.Parse
import ScriptReader.Proofs.Demand.Rules

set_option autoImplicit false

namespace ScriptReader.Reader

open Parts (operatorAbove)
open TokenStream

variable {start stream : TokenStream} {limit : Nat} {looked : Bool}

section Operations

variable {floor : Nat}

theorem operator_above_eq (floor : Nat) (tokens : List TokenKind) :
    Rule.operatorAbove floor tokens =
      (operatorAbove floor tokens.head?).map fun op => (op, tokens.tail) := by
  cases tokens with
  | nil => rfl
  | cons kind tokens =>
      cases kind with
      | operator symbol =>
          simp only [Rule.operatorAbove, operatorAbove, List.head?_cons, List.tail_cons]
          cases Operator.ofSymbol? symbol with
          | none => rfl
          | some op => by_cases above : floor < op.precedence <;> simp [above, Option.filter]
      | _ => rfl

def operationRound (operand : Rule Node) (rise : Nat → Node → Rule Node) :
    Operator → Node → Rule Node := fun op left tokens => do
  let (next, tokens) ← operand tokens.tail
  let (right, tokens) ← rise op.rightFloor next tokens
  return (.operation op left right, tokens)

theorem operation_entered (operand : Rule Node) (rise : Nat → Node → Rule Node) (floor : Nat) :
    Entered (operatorAbove floor) (operationRound operand rise)
      (Rule.furtherOperation operand rise floor) := by
  refine ⟨fun left tokens leaves => ?_, fun op left tokens enters => ?_⟩
  · rw [Rule.furtherOperation, operator_above_eq, leaves]
    rfl
  · rw [Rule.furtherOperation, operator_above_eq, enters, operationRound]
    simp only [Option.map_some, bind, Except.bind]
    cases operand tokens.tail with
    | error stop => rfl
    | ok item =>
        dsimp only
        cases rise op.rightFloor item.1 item.2 <;> rfl

-- No level is left for what binds tighter only where none is left for the operand.
theorem climb_over_answers {operand : Rule Node} {rise : Nat → Node → Rule Node}
    {operandReader : Reader Node} {riseReader : Nat → Node → Reader Node}
    (shortens : Rule.Shortens operand) (keeps : ∀ floor left, Rule.Keeps (rise floor left))
    (operands : Follows start limit (· = true) false operand operandReader)
    (rises : ∀ tokens item, operand tokens = .ok item → ∀ floor left,
      rise floor left [] = .ok (left, []) ∧
        Follows start limit (· = true) true (rise floor left) (riseReader floor left))
    (floor : Nat) (left : Node) :
    Follows start limit (· = true) looked (Rule.climbOver operand rise floor left)
      (parts.climbOver operandReader riseReader floor left) := by
  intro tokens stream reached
  have progress := Rule.further_operation_progress operand rise floor shortens keeps
  refine loop_answers (operation_entered operand rise floor) progress ?_ left reached
  intro op left tokens stream enters seen
  cases tokens with
  | nil => cases enters
  | cons kind tokens =>
      refine answers_take _ seen fun _ _ taken => ?_
      refine answers_bind (operands taken) (fun next rest _ behind read reached known => ?_)
        fun _ next read => ?_
      · subst known
        refine answers_bind ((rises _ _ read _ next).2 reached) (fun right rest _ _ _ reached _ => ?_)
          fun _ _ _ => quiet_ok _ trivial
        exact answers_pure reached trivial
      · dsimp only
        rw [(rises _ _ read _ next).1]
        exact quiet_ok _ trivial

end Operations

theorem climb_nothing (level floor : Nat) (left : Node) :
    Rule.climb level floor left [] = .ok (left, []) := by
  cases level <;> rfl

theorem expression_replays (level : Nat) {reader : Reader Node}
    (follows : ∀ looked, Follows start limit (· = true) looked (Rule.expression level looked) reader) :
    Replays start limit (Rule.expression level) reader := by
  refine ⟨follows, Rule.expression_shortens level, fun tokens item read => ?_⟩
  cases level with
  | zero => cases read
  | succ level => exact ⟨.expression, rfl⟩

theorem level_answers (level : Nat) :
    (∀ looked, Follows start limit (· = true) looked (Rule.expression level looked)
      (parts.expression limit level)) ∧
      ∀ looked floor left, Follows start limit (· = true) looked (Rule.climb level floor left)
        (parts.climb limit level floor left) := by
  induction level with
  | zero =>
      refine ⟨fun looked tokens stream reached => answers_too_deep reached, fun looked floor left => ?_⟩
      exact climb_over_answers (Rule.too_deep_shortens false)
        (fun _ _ => Rule.keeps_of_shortens (Rule.too_deep_shortens true))
        (fun tokens stream reached => answers_too_deep reached) (fun tokens item read => by cases read)
        floor left
  | succ level ih =>
      have replays := expression_replays level ih.1
      have operands : ∀ looked, Follows start limit (· = true) looked
          (Rule.operandOver (Rule.expression level))
          (parts.operandOver (parts.expression limit level)) :=
        fun _ => operand_over_answers replays
      have shortens := Rule.operand_over_shortens _ replays.shortens
      have climbs : ∀ looked floor left, Follows start limit (· = true) looked
          (Rule.climbOver (Rule.operandOver (Rule.expression level)) (Rule.climb level) floor left)
          (parts.climbOver (parts.operandOver (parts.expression limit level)) (parts.climb limit level)
            floor left) := by
        intro looked floor left
        apply climb_over_answers shortens (Rule.climb_keeps level) (operands false)
        exact fun _ _ _ floor left => ⟨climb_nothing level floor left, ih.2 true floor left⟩
      refine ⟨fun looked tokens stream reached => ?_, climbs⟩
      refine answers_bind (operands looked reached) (fun left rest _ behind _ reached _ => ?_)
        fun _ left _ => ?_
      · exact climbs _ 0 left reached
      · exact quiet_ok left rfl

theorem program_answers (limit : Nat) (start : TokenStream) :
    Answers start limit (· = true)
      (Rule.program limit start.upcoming >>= fun (statements, rest) => .ok (.block statements, rest))
      (program limit start) := by
  have replays : Replays start limit (Rule.expression limit) (parts.expression limit limit) :=
    expression_replays limit (level_answers limit).1
  have listed : Follows start limit (· = true) false (Rule.program limit)
      (parts.program limit) :=
    items_answers is_empty_head (replays.shortens true) (follows_any (replays.follows true)) replays.empty
  refine answers_bind (listed (reached_start start)) (fun statements rest _ _ _ reached known => ?_)
    fun _ statements _ => quiet_ok _ rfl
  exact answers_pure reached known

theorem parse_program_ok {statements : List Node}
    (read : Rule.program limit stream.upcoming = .ok (statements, [])) :
    stream.parseProgram limit =
      match (before stream []).peek with
      | (.error error, stream) => (.error (.lexical error), stream)
      | (.ok _, stream) => (.ok (.block statements), stream) := by
  simp only [parseProgram, attempt, read]
  rfl

theorem parse_program_stop {stop : Stop} (stopped : Rule.program limit stream.upcoming = .error stop) :
    stream.parseProgram limit =
      (.error (conclude stream limit stop).1, (conclude stream limit stop).2) := by
  obtain ⟨obstacle, unread⟩ := stop
  simp only [parseProgram, attempt, stopped]
  cases obstacle with
  | tooDeep looked => rfl
  | missing what =>
      rw [conclude, before]
      dsimp only
      split <;> simp only [*]

theorem program_eq (limit : Nat) (stream : TokenStream) :
    program limit stream = stream.parseProgram limit := by
  have answers := program_answers limit stream
  generalize program limit stream = answer at answers ⊢
  cases read : Rule.program limit stream.upcoming with
  | ok item =>
      obtain ⟨statements, rest⟩ := item
      have ended := Rule.program_reads_all limit stream.upcoming rest statements read
      subst ended
      rw [read] at answers
      rw [parse_program_ok read]
      generalize peeked : (before stream []).peek = shown
      cases answers with
      | ok reached known =>
          subst known
          obtain ⟨found, present⟩ := reached.shown rfl
          rw [reached.same, if_pos rfl]
          rw [peeked] at present ⊢
          obtain ⟨result, behind⟩ := shown
          cases present
          rfl
      | lexical unclosed flawed =>
          rw [peeked] at flawed ⊢
          obtain ⟨result, behind⟩ := shown
          cases flawed
          rfl
  | error stop =>
      rw [read] at answers
      rw [parse_program_stop read]
      cases answers with
      | missing concluded => rw [concluded]
      | tooDeep reached => rw [conclude, reached.same]

end ScriptReader.Reader
