import ScriptReader.Proofs.Demand.Measure
import ScriptReader.Proofs.Demand.Program

set_option autoImplicit false

namespace ScriptReader

namespace Reader

def operand (limit : Nat) : (level : Nat) → Reader Node
  | 0 => tooDeep limit
  | level + 1 => parts.operandOver (parts.expression limit level)

def rise (limit : Nat) : (level floor : Nat) → Node → Reader Node
  | 0, _, _ => tooDeep limit
  | level + 1, floor, left => parts.climb limit level floor left

theorem expression_level (limit level : Nat) :
    parts.expression limit level = operand limit level >>= parts.climb limit level 0 := by
  cases level with
  | zero => rfl
  | succ level =>
      simp only [Parts.expression, operand]
      congr 1

theorem climb_level (limit level floor : Nat) (left : Node) :
    parts.climb limit level floor left =
      parts.climbOver (operand limit level) (rise limit level) floor left := by
  cases level with
  | zero =>
      simp only [Parts.climb]
      rfl
  | succ level =>
      simp only [Parts.climb]
      rfl

end Reader

namespace Descent

open Parts (goesOn opensCall)

variable {α : Type} {bound depth gain lead fuel limit : Nat}

theorem meets_ahead {next : Option TokenKind → Descent α} {following : Option TokenKind → Reader α}
    (small : lead ≤ 1) (nexts : ∀ found, Meets bound depth gain lead (next found) (following found)) :
    Meets bound depth gain lead (parts.ahead >>= next) (Reader.ahead >>= following) :=
  meets_keeping (fun _ _ _ => Reader.ahead_keeps) small nexts

theorem meets_take (what : Expectation) : Meets bound depth 1 1 (parts.take what) (.take what) :=
  meets_lift (fun _ _ _ => Reader.take_gains) (Nat.le_refl 1)

theorem meets_refuse (what : Expectation) (token : Token) :
    Meets bound depth 0 0 (parts.refuse what token : Descent α) (.refuse what token) :=
  meets_lift (fun _ _ _ => nofun) (Nat.zero_le 1)

theorem meets_demand {c : Char} {what : Expectation} {next : Unit → Descent α}
    {following : Unit → Reader α} (small : lead ≤ 1)
    (nexts : ∀ value, Meets bound depth gain lead (next value) (following value)) :
    Meets bound depth gain lead (parts.demand c what >>= next)
      (Reader.parts.demand c what >>= following) :=
  meets_keeping (fun _ _ _ => Reader.demand_keeps) small nexts

theorem meets_mark (c : Char) : Meets bound depth 1 1 (parts.mark c) (Reader.parts.mark c) :=
  meets_demand (Nat.le_refl 1) fun _ => meets_bind (meets_take _) fun _ => meets_pure ()

theorem meets_literal : Meets bound depth 1 1 parts.literal Reader.parts.literal := by
  refine meets_bind (meets_take .expression) fun token => ?_
  cases token.kind with
  | operator _ | punctuation _ => exact meets_refuse .expression token
  | keyword word =>
      cases word with
      | trueWord | falseWord => exact meets_pure _
      | _ => exact meets_refuse .expression token
  | _ => exact meets_pure _

theorem meets_parameter : Meets bound depth 1 1 parts.parameter Reader.parts.parameter := by
  refine meets_bind (meets_take .parameter) fun token => ?_
  cases token.kind with
  | identifier name => exact meets_pure name
  | _ => exact meets_refuse .parameter token

section Lists

variable {element : Descent α} {reader : Reader α} (elements : Meets bound depth 1 0 element reader)
  (separator : Char) (ends : Option TokenKind → Bool)

include elements

theorem further_item_meets (found : List α) :
    Meets bound depth 1 0 (parts.furtherItem element separator ends found)
      (Reader.parts.furtherItem reader separator ends found) := by
  refine meets_bind (meets_loose (meets_mark separator)) fun _ => ?_
  refine meets_ahead (Nat.zero_le 1) fun next => meets_if (meets_pure found) ?_
  exact meets_bind (meets_further elements (Nat.sub_le _ _)) fun _ => meets_pure _

theorem list_round_meets (found : List α) :
    Meets bound depth 1 0 (parts.listRound element separator ends found)
      (Reader.parts.listRound reader separator ends found) := by
  refine meets_if (meets_bind elements fun _ => meets_pure _) ?_
  refine meets_bind (meets_loose (meets_mark separator)) fun _ => ?_
  refine meets_ahead (Nat.zero_le 1) fun next => meets_if (meets_pure none) ?_
  exact meets_bind (meets_further elements (Nat.sub_le _ _)) fun _ => meets_pure _

theorem items_meets (enough : bound ≤ fuel) :
    Meets bound depth 0 0 (items element separator ends fuel)
      (Reader.parts.items reader separator ends) := by
  rw [Reader.items_eq]
  have gains := fun found => meets_gains (further_item_meets elements separator ends found)
  refine meets_bind (meets_loop enough (fun found _ within => Reader.listed_once gains found within)
    (fun _ => list_round_meets elements separator ends) []) fun _ => meets_pure _

theorem enclosed_meets (opening closing : Char) (enough : bound ≤ fuel) :
    Meets (bound + 1) depth 1 1 (enclosed element separator opening closing fuel)
      (Reader.parts.enclosed reader separator opening closing) := by
  refine meets_bind (meets_mark opening) fun _ => ?_
  refine meets_bind (items_meets elements separator _ enough) fun found => ?_
  exact meets_bind (meets_further (meets_mark closing) (Nat.le_refl _)) fun _ => meets_pure found

end Lists

section Operands

variable {inner : Descent Node} {reader : Reader Node} (inners : Meets bound depth 1 0 inner reader)

include inners

theorem group_meets : Meets (bound + 1) depth 1 1 (parts.group inner) (Reader.parts.group reader) := by
  refine meets_bind (meets_mark '(') fun _ => ?_
  refine meets_bind (meets_further inners (Nat.le_refl _)) fun node => ?_
  exact meets_bind (meets_further (meets_mark ')') (Nat.le_refl _)) fun _ => meets_pure node

theorem block_meets (enough : bound ≤ fuel) :
    Meets (bound + 1) depth 1 1 (block inner fuel) (Reader.parts.block reader) :=
  meets_routine (meets_bind (enclosed_meets inners _ _ _ enough) fun _ => meets_pure _) (Nat.le_refl 1)

theorem alternative_meets :
    Meets bound depth 0 0 (parts.alternative inner) (Reader.parts.alternative reader) := by
  refine meets_ahead (Nat.zero_le 1) fun next => meets_if ?_ (meets_pure none)
  refine meets_bind (meets_further (meets_take .expression) (Nat.le_refl _)) fun _ => ?_
  exact meets_bind (meets_further inners (Nat.le_refl _)) fun _ => meets_pure _

theorem conditional_meets : Meets (bound + 1) depth 1 1 (conditional inner)
    (do let _ ← Reader.take .expression; Reader.parts.conditional reader) := by
  refine meets_routine (meets_bind (meets_take .expression) fun _ => ?_) (Nat.le_refl 1)
  refine meets_bind (meets_further inners (Nat.le_refl _)) fun condition => ?_
  refine meets_demand (Nat.zero_le 1) fun _ => ?_
  refine meets_bind (meets_further inners (Nat.le_refl _)) fun branch => ?_
  refine meets_bind (alternative_meets inners) fun other => ?_
  cases other <;> exact meets_pure _

theorem function_meets (enough : bound ≤ fuel) : Meets (bound + 1) depth 1 1 (function inner fuel)
    (do let _ ← Reader.take .expression; Reader.parts.function reader) := by
  refine meets_routine (meets_bind (meets_take .expression) fun _ => ?_) (Nat.le_refl 1)
  refine meets_bind (meets_further (enclosed_meets (meets_loose meets_parameter) _ _ _ enough)
    (Nat.le_succ _)) fun _ => ?_
  exact meets_bind (meets_further inners (Nat.le_refl _)) fun _ => meets_pure _

theorem primary_meets (enough : bound ≤ fuel) :
    Meets (bound + 1) depth 1 1 (primary inner fuel) (Reader.parts.primary reader) := by
  refine meets_ahead (Nat.le_refl 1) fun next => ?_
  cases next with
  | none => exact meets_literal
  | some kind =>
      cases kind with
      | punctuation c =>
          exact meets_if (group_meets inners) (meets_if (block_meets inners enough) meets_literal)
      | keyword word =>
          cases word with
          | ifWord => exact conditional_meets inners
          | defWord => exact function_meets inners enough
          | _ => exact meets_literal
      | _ => exact meets_literal

theorem call_meets (enough : bound ≤ fuel) (callee : Node) :
    Meets (bound + 1) depth 1 1 (call inner fuel callee)
      (Reader.parts.furtherCall reader callee) :=
  meets_routine (meets_bind (enclosed_meets inners _ _ _ enough) fun _ => meets_pure _) (Nat.le_refl 1)

theorem calls_meets (enough : bound + 1 ≤ fuel) (node : Node) :
    Meets (bound + 1) depth 0 0 (calls inner fuel node)
      (Reader.parts.loop opensCall (fun _ => Reader.parts.furtherCall reader) node) := by
  have call := fun callee => call_meets inners (Nat.le_of_succ_le enough) callee
  have gains := fun (_ : Unit) callee => meets_gains (call callee)
  refine meets_loop enough (fun node _ within => Reader.loop_unrolled gains node within)
    (fun _ callee => ?_) node
  exact meets_bind (meets_loose (call callee)) fun _ => meets_pure _

end Operands

section Levels

variable {inner : Descent Node}

theorem operand_meets (enough : bound + 1 ≤ fuel)
    (inners : Meets bound (depth + 1) 1 0 inner
      (Reader.parts.expression limit (limit - (depth + 1)))) :
    Meets (bound + 1) depth 1 0 (operand limit inner fuel) (.operand limit (limit - depth)) := by
  refine meets_routine ?_ (Nat.le_refl 1)
  rcases room : limit - depth with _ | level
  · exact meets_too_deep (Nat.le_of_sub_eq_zero room)
  · rw [show limit - (depth + 1) = level by omega] at inners
    refine meets_nested (Nat.lt_of_sub_eq_succ room) ?_
    refine meets_bind (primary_meets inners (Nat.le_of_succ_le enough)) fun node => ?_
    exact meets_further (calls_meets inners enough node) (Nat.sub_le _ _)

theorem climb_over_meets {operand : Descent Node} {rise : Nat → Node → Descent Node}
    {reader : Reader Node} {riser : Nat → Node → Reader Node} (enough : bound ≤ fuel)
    (operands : Meets bound depth 1 0 operand reader)
    (rises : ∀ floor left, Meets (bound - 1) depth 0 0 (rise floor left) (riser floor left))
    (floor : Nat) (left : Node) :
    Meets bound depth 0 0 (climbOver operand rise fuel floor left)
      (Reader.parts.climbOver reader riser floor left) := by
  have operation : ∀ op left, Meets bound depth 1 0 (parts.furtherOperation operand rise op left)
      (Reader.parts.furtherOperation reader riser op left) := by
    intro op left
    refine meets_bind (meets_loose (meets_take .expression)) fun _ => ?_
    refine meets_bind (meets_further operands (Nat.sub_le _ _)) fun next => ?_
    exact meets_bind (rises _ next) fun _ => meets_pure _
  have gains := fun op left => meets_gains (operation op left)
  refine meets_loop enough (fun left _ within => Reader.loop_unrolled gains left within)
    (fun op left => ?_) left
  exact meets_bind (operation op left) fun _ => meets_pure _

-- By induction on the fuel. The levels left to a reader are those between the counter and the limit.
theorem level_meets (again : Bool) (limit fuel depth : Nat) :
    Meets fuel depth 1 0 (expression again limit fuel)
        (Reader.parts.expression limit (limit - depth)) ∧
      ∀ floor left, Meets fuel depth 0 0 (climb again limit fuel floor left)
        (Reader.parts.climb limit (limit - depth) floor left) := by
  induction fuel generalizing depth with
  | zero =>
      exact ⟨fun _ _ few => absurd few (Nat.not_lt_zero _),
        fun _ _ _ _ few => absurd few (Nat.not_lt_zero _)⟩
  | succ fuel ih =>
      have operands : Meets (fuel + 1) depth 1 0
          (operand limit (expression again limit fuel) (fuel + 1)) (.operand limit (limit - depth)) :=
        operand_meets (Nat.le_refl _) (ih (depth + 1)).1
      have climbs : ∀ floor left, Meets (fuel + 1) depth 0 0 (climb again limit (fuel + 1) floor left)
          (Reader.parts.climb limit (limit - depth) floor left) := by
        intro floor left
        rw [climb, Reader.climb_level]
        refine climb_over_meets (Nat.le_refl _) operands (fun floor left => ?_) floor left
        rcases room : limit - depth with _ | level
        · exact meets_further (meets_too_deep (Nat.le_of_sub_eq_zero room)) (Nat.sub_le _ _)
        · have deeper := (ih (depth + 1)).2 floor left
          rw [show limit - (depth + 1) = level by omega] at deeper
          exact meets_nested (Nat.lt_of_sub_eq_succ room) deeper
      refine ⟨?_, climbs⟩
      rw [expression_eq, Reader.expression_level]
      refine meets_routine (fun visit level within => ?_) (Nat.le_refl 0)
      refine accords_bind (operands visit level within) fun left after read same fewer => ?_
      rw [bind_of_ok (recalled_of_closed (operand_closed read))]
      exact climbs 0 left after (same.trans level) (by omega)

theorem statement_round_meets {statement : Descent Node} {reader : Reader Node}
    (statements : Meets bound depth 1 0 statement reader) (found : List Node) :
    Meets bound depth 1 0 (parts.statementRound statement found)
      (Reader.parts.statementRound reader found) := by
  have ends : Meets (bound - 1) depth 0 0 parts.statementEnd Reader.parts.statementEnd :=
    meets_ahead (Nat.zero_le 1) fun next =>
      meets_if (meets_further (meets_mark ';') (Nat.le_refl _)) (meets_pure ())
  exact meets_bind statements fun _ => meets_bind ends fun _ => meets_pure _

theorem program_meets (again : Bool) (limit fuel : Nat) :
    Meets fuel 0 0 0 (program again limit fuel) (.program limit) := by
  have statements : Meets fuel 0 1 0 (expression again limit fuel)
      (Reader.parts.expression limit limit) :=
    (level_meets again limit fuel 0).1
  have gains := fun found => meets_gains (further_item_meets statements ';' Option.isNone found)
  have found : Meets fuel 0 0 0 (loop .statements (goesOn Option.isNone)
      (fun _ => parts.statementRound (expression again limit fuel)) fuel [])
      (.stated (Reader.parts.expression limit limit) []) :=
    meets_loop (Nat.le_refl fuel)
      (fun found _ within => Reader.stated_once gains (meets_gains statements) found within)
      (fun _ => statement_round_meets statements) []
  rw [Reader.program, Parts.program, Reader.items_eq, Reader.bind_assoc]
  exact meets_bind found fun _ => meets_pure _

end Levels

end Descent

end ScriptReader
