import ScriptReader.Proofs.Chain.Reference
import ScriptReader.Proofs.Phrase.Basic

set_option autoImplicit false

namespace ScriptReader

namespace Node

-- The most steps into a right operand on a path from the root.
mutual
def rightDepth : Node → Nat
  | .number _ | .string _ | .character _ | .bool _ | .identifier _ => 0
  | .operation _ left right => max left.rightDepth (right.rightDepth + 1)
  | .call callee arguments => max callee.rightDepth (rightDepths arguments)
  | .function _ body => body.rightDepth
  | .ifThen condition branch => max condition.rightDepth branch.rightDepth
  | .ifElse condition branch alternative =>
      max condition.rightDepth (max branch.rightDepth alternative.rightDepth)
  | .block statements => rightDepths statements
def rightDepths : List Node → Nat
  | [] => 0
  | node :: nodes => max node.rightDepth (rightDepths nodes)
end

end Node

namespace Phrase

open Rule

def Within (bound : Nat) (phrase : Phrase Node) : Prop :=
  ∀ tokens node rest, phrase tokens node rest → node.rightDepth ≤ bound

section Levels

variable {inner : Phrase Node} {bound : Nat}

theorem further_within {separator : Char} {ends : List TokenKind → Bool} (within : Within bound inner)
    {tokens rest : List TokenKind} {nodes : List Node}
    (further : Further inner separator ends tokens nodes rest) : Node.rightDepths nodes ≤ bound := by
  induction further with
  | done _ => exact Nat.zero_le _
  | trailing _ => exact Nat.zero_le _
  | next _ read _ ih => exact Nat.max_le.mpr ⟨within _ _ _ read, ih⟩

theorem enclosed_within {opening closing separator : Char} (within : Within bound inner)
    {tokens rest : List TokenKind} {nodes : List Node}
    (enclosed : Enclosed opening closing separator inner tokens nodes rest) :
    Node.rightDepths nodes ≤ bound := by
  obtain ⟨listed⟩ := enclosed
  cases listed with
  | none _ => exact Nat.zero_le _
  | some _ read later => exact Nat.max_le.mpr ⟨within _ _ _ read, further_within within later⟩

theorem primary_within (within : Within bound inner) : Within bound (Primary inner) := by
  intro tokens node rest primary
  cases primary with
  | number | string | character | identifier | yes | no => exact Nat.zero_le _
  | group read => exact within _ _ _ read
  | block listed => exact enclosed_within within listed
  | function listed read =>
      have body := within _ _ _ read
      exact body
  | ifThen first opens second alone =>
      exact Nat.max_le.mpr ⟨within _ _ _ first, within _ _ _ second⟩
  | ifElse first opens second third =>
      exact Nat.max_le.mpr
        ⟨within _ _ _ first, Nat.max_le.mpr ⟨within _ _ _ second, within _ _ _ third⟩⟩

theorem operand_within (within : Within bound inner) : Within bound (Operand inner) := by
  rintro _ node rest ⟨primary, calls⟩
  have begun := primary_within within _ _ _ primary
  clear primary
  induction calls with
  | done _ => exact begun
  | further listed later ih => exact ih (Nat.max_le.mpr ⟨begun, enclosed_within within listed⟩)

theorem climbing_within {operand : Phrase Node} {rise : Nat → Node → Phrase Node}
    (operands : Within bound operand)
    (rises : ∀ floor left, left.rightDepth ≤ bound → Within bound (rise floor left)) (floor : Nat)
    (left : Node) (shallow : left.rightDepth ≤ bound + 1) :
    Within (bound + 1) (Climbing operand rise floor left) := by
  intro tokens node rest climbing
  induction climbing with
  | done _ => exact shallow
  | further op above read risen later ih =>
      have right := rises _ _ (operands _ _ _ read) _ _ _ risen
      exact ih (Nat.max_le.mpr ⟨shallow, Nat.succ_le_succ right⟩)

end Levels

theorem climb_zero_within (floor : Nat) (left : Node) (shallow : left.rightDepth ≤ 0) :
    Within 0 (Climb 0 floor left) := by
  intro tokens node rest climbing
  rw [climb_zero] at climbing
  cases climbing with
  | done _ => exact shallow
  | further op above read risen later => exact read.elim

theorem level_within (level : Nat) :
    Within level (Expression level) ∧
      ∀ floor left, left.rightDepth ≤ level → Within level (Climb level floor left) := by
  induction level with
  | zero =>
      rw [expression_zero]
      exact ⟨fun _ _ _ read => read.elim, climb_zero_within⟩
  | succ level ih =>
      have operands := operand_within ih.1
      have climbs : ∀ floor left, left.rightDepth ≤ level + 1 →
          Within (level + 1) (Climb (level + 1) floor left) := by
        intro floor left shallow
        rw [climb_succ]
        exact climbing_within operands ih.2 floor left shallow
      refine ⟨fun tokens node rest read => ?_, climbs⟩
      obtain ⟨a, b, first, rfl, opened, climbed⟩ := (expression_succ _ _ _ _).mp read
      exact climbs 0 first (Nat.le_succ_of_le (operands _ _ _ opened)) _ _ _ climbed

theorem expression_nesting {level : Nat} {tokens rest : List TokenKind} {node : Node}
    (read : Expression level tokens node rest) : node.rightDepth ≤ level :=
  (level_within level).1 _ _ _ read

end Phrase

namespace Link

theorem reference_nesting (left : Node) (links : List Link) (flat : left.rightDepth = 0)
    (each : ∀ link ∈ links, link.node.rightDepth = 0) :
    (reference left links).rightDepth = depth links := by
  induction links using splits_induction generalizing left with
  | nil => simp [flat]
  | split before link after splits ihBefore ihAfter =>
      have front := ihBefore left flat fun other inside => each other (by simp [inside])
      have back := ihAfter link.node (each link (by simp)) fun other inside =>
        each other (by simp [inside])
      rw [reference_split left splits, depth_split splits, Node.rightDepth, front, back]

-- The binding powers, without that of the assignments.
def powers : List Nat := [2, 3, 7, 10, 20]

def tighterPowers (floor : Nat) : Nat := powers.countP (floor < ·)

theorem mem_powers (op : Operator) (binary : op.isAssignment = false) : op.precedence ∈ powers := by
  cases op <;> first | decide | cases binary

theorem tighter_powers_of_lt (floor power : Nat) (known : power ∈ powers) (above : floor < power) :
    tighterPowers power < tighterPowers floor := by
  have fewer : ∀ others : List Nat, others.countP (power < ·) ≤ others.countP (floor < ·) :=
    fun others => List.countP_mono_left fun other _ tighter => by
      simp only [decide_eq_true_eq] at tighter ⊢
      omega
  obtain ⟨front, back, same⟩ := List.append_of_mem known
  have first := fewer front
  have last := fewer back
  simp only [tighterPowers, same, List.countP_append, List.countP_cons, Nat.lt_irrefl, above,
    decide_true, decide_false, if_true, Bool.false_eq_true, if_false]
  omega

theorem depth_of_binary (links : List Link) (floor : Nat)
    (binary : ∀ link ∈ links, link.op.isAssignment = false)
    (above : ∀ link ∈ links, floor < link.op.precedence) : depth links ≤ tighterPowers floor := by
  induction links using splits_induction generalizing floor with
  | nil => simp
  | split before link after splits ihBefore ihAfter =>
      have front := ihBefore floor (fun other inside => binary other (by simp [inside]))
        fun other inside => above other (by simp [inside])
      have weakest := (splits.weakest (binary link (by simp))).2
      have back := ihAfter link.op.precedence (fun other inside => binary other (by simp [inside])) weakest
      have next := tighter_powers_of_lt floor link.op.precedence
        (mem_powers link.op (binary link (by simp))) (above link (by simp))
      rw [depth_split splits]
      omega

end Link

end ScriptReader
