import ScriptReader.Proofs.Demand.Unrolled

set_option autoImplicit false

namespace ScriptReader.Descent

open Parts (opensCall operatorAbove)

variable {σ τ : Type} {visit after : Visit} {stream behind : TokenStream}
  {found : Option TokenKind} {kept : Option TokenKind → Prop}

def Shown (found : Option TokenKind) (stream : TokenStream) : Prop :=
  Reader.ahead stream = (.ok found, stream)

def Closed (kept : Option TokenKind → Prop) (stream : TokenStream) : Prop :=
  ∃ found, Shown found stream ∧ kept found

-- At a flaw of the text nothing is shown.
def Closes (kept : Option TokenKind → Prop) (stream : TokenStream) : Prop :=
  ∀ found behind, Reader.ahead stream = (.ok found, behind) → kept found

theorem closes_of_closed (closed : Closed kept stream) : Closes kept stream := by
  obtain ⟨found, shown, holds⟩ := closed
  intro other behind read
  cases shown.symm.trans read
  exact holds

theorem closed_weaken {looser : Option TokenKind → Prop} (closed : Closed kept stream)
    (weaker : ∀ found, kept found → looser found) : Closed looser stream := by
  obtain ⟨found, shown, holds⟩ := closed
  exact ⟨found, shown, weaker found holds⟩

theorem ahead_ok (read : parts.ahead visit = some (.ok found, after)) :
    Reader.ahead visit.stream = (.ok found, after.stream) := by
  simp only [parts, Parts.map, lift, Option.some.injEq, Prod.mk.injEq] at read
  obtain ⟨same, rfl⟩ := read
  exact Prod.ext same rfl

theorem ahead_of_shown (shown : Shown found visit.stream) :
    parts.ahead visit = some (.ok found, visit) := by
  have read : Reader.parts.ahead visit.stream = (.ok found, visit.stream) := shown
  simp only [parts, Parts.map, lift, read]

section Loops

variable {name : Loop} {enters : Option TokenKind → Option τ} {body : τ → σ → Descent σ} {fuel : Nat}
  {value result : σ}

-- A loop that is not broken off ends with a token that does not enter it. What each round leaves in front
-- of the next test is said of this token too.
theorem loop_closed
    (bodies : ∀ found value visit next after, body found value visit = some (.ok next, after) →
      Closes kept after.stream)
    (starts : Closes kept visit.stream)
    (read : loop name enters (fun found value => do return some (← body found value)) fuel value visit =
      some (.ok result, after)) :
    Closed (fun found => kept found ∧ enters found = none) after.stream := by
  induction fuel generalizing value visit with
  | zero => cases read
  | succ fuel ih =>
      obtain ⟨found, seen, looked, read⟩ := bind_ok read
      have shown := ahead_ok looked
      cases enter : enters found with
      | none =>
          rw [enter] at read
          cases read
          exact ⟨found, Reader.ahead_again shown, starts found _ shown, enter⟩
      | some entered =>
          rw [enter] at read
          obtain ⟨next, later, took, read⟩ := bind_ok read
          obtain ⟨last, took, same⟩ := stamped_ok took
          obtain ⟨item, _, ran, returned⟩ := bind_ok took
          cases returned
          exact ih (same ▸ bodies entered value seen item last ran) read

theorem loop_of_shown {body : τ → σ → Descent (Option σ)} (shown : Shown found visit.stream)
    (leaves : enters found = none) :
    loop name enters body (fuel + 1) value visit = some (.ok value, visit) := by
  rw [loop, bind_of_ok (ahead_of_shown shown), leaves]
  rfl

end Loops

def Uncalled (found : Option TokenKind) : Prop := opensCall found = none

def Final (found : Option TokenKind) : Prop := Uncalled found ∧ operatorAbove 0 found = none

theorem operator_above_floor (floor : Nat) (leaves : operatorAbove 0 found = none) :
    operatorAbove floor found = none := by
  rcases found with _ | kind
  · rfl
  · cases kind with
    | operator symbol =>
        simp only [operatorAbove, Option.filter_eq_none_iff, decide_eq_true_eq] at leaves ⊢
        exact fun op same above => leaves op same (Nat.zero_lt_of_lt above)
    | _ => rfl

section Operands

variable {inner : Descent Node} {limit fuel : Nat} {node : Node}

theorem calls_closed {callee : Node} (read : calls inner fuel callee visit = some (.ok node, after)) :
    Closed Uncalled after.stream := by
  have ended : Closed (fun found => True ∧ opensCall found = none) after.stream :=
    loop_closed (fun _ _ _ _ _ _ _ _ _ => trivial) (fun _ _ _ => trivial) read
  exact closed_weaken ended fun _ both => both.2

theorem calls_of_closed (closed : Closed Uncalled visit.stream) :
    calls inner (fuel + 1) node visit = some (.ok node, visit) := by
  obtain ⟨found, shown, leaves⟩ := closed
  exact loop_of_shown shown leaves

theorem operand_closed (read : operand limit inner fuel visit = some (.ok node, after)) :
    Closed Uncalled after.stream := by
  obtain ⟨outer, read, same⟩ := routine_ok read
  obtain ⟨last, read, level⟩ := nested_ok read
  obtain ⟨callee, middle, _, called⟩ := bind_ok read
  rw [same, level]
  exact calls_closed called

end Operands

section Levels

variable {operand : Descent Node} {rise : Nat → Node → Descent Node} {fuel floor limit : Nat}
  {again : Bool} {left node : Node}

theorem climb_over_closed
    (operands : ∀ visit node after, operand visit = some (.ok node, after) →
      Closed Uncalled after.stream)
    (rises : ∀ floor left visit node after, Closed Uncalled visit.stream →
      rise floor left visit = some (.ok node, after) → Closed Uncalled after.stream)
    (starts : Closed Uncalled visit.stream)
    (read : climbOver operand rise fuel floor left visit = some (.ok node, after)) :
    Closed (fun found => Uncalled found ∧ operatorAbove floor found = none) after.stream := by
  refine loop_closed (fun op left visit next after took => ?_) (closes_of_closed starts) read
  obtain ⟨_, seen, _, took⟩ := bind_ok took
  obtain ⟨right, middle, ran, took⟩ := bind_ok took
  obtain ⟨risen, last, rose, returned⟩ := bind_ok took
  cases returned
  exact closes_of_closed (rises _ _ _ _ _ (operands _ _ _ ran) rose)

theorem climb_closed (starts : Closed Uncalled visit.stream)
    (read : climb again limit fuel floor left visit = some (.ok node, after)) :
    Closed (fun found => Uncalled found ∧ operatorAbove floor found = none) after.stream := by
  induction fuel generalizing visit after floor left node with
  | zero => cases read
  | succ fuel ih =>
      rw [climb] at read
      refine climb_over_closed (fun _ _ _ => operand_closed)
        (fun floor left visit node after before rose => ?_) starts read
      obtain ⟨last, rose, level⟩ := nested_ok rose
      rw [level]
      refine closed_weaken (ih ?_ rose) fun _ both => both.1
      exact before

theorem climb_of_closed (closed : Closed Final visit.stream) :
    climb again limit (fuel + 1) floor node visit = some (.ok node, visit) := by
  obtain ⟨found, shown, _, leaves⟩ := closed
  rw [climb]
  exact loop_of_shown shown (operator_above_floor floor leaves)

theorem recalled_of_closed {inner : Descent Node} (closed : Closed Uncalled visit.stream) :
    recalled again inner (fuel + 1) node visit = some (.ok node, visit) := by
  rw [recalled]
  cases again with
  | true => exact calls_of_closed closed
  | false => rfl

theorem expression_eq (again : Bool) (limit fuel : Nat) :
    expression again limit (fuel + 1) = routine .expression (do
      let left ← Descent.operand limit (expression again limit fuel) (fuel + 1)
      let left ← recalled again (expression again limit fuel) (fuel + 1) left
      climb again limit (fuel + 1) 0 left) := by
  simp only [expression, climb]

theorem expression_closed (read : expression again limit fuel visit = some (.ok node, after)) :
    Closed Final after.stream := by
  cases fuel with
  | zero =>
      rw [expression] at read
      cases read
  | succ fuel =>
      rw [expression_eq] at read
      obtain ⟨last, read, same⟩ := routine_ok read
      obtain ⟨left, middle, opened, read⟩ := bind_ok read
      have closed := operand_closed opened
      rw [bind_of_ok (recalled_of_closed closed)] at read
      rw [same]
      exact climb_closed closed read

end Levels

section Open

variable {inner : Descent Node} {fuel : Nat} {node : Node}
  (inners : ∀ visit node after, inner visit = some (.ok node, after) → Closed kept after.stream)

include inners

theorem alternative_closed {other : Option Node} (before : Closed kept visit.stream)
    (read : parts.alternative inner visit = some (.ok other, after)) :
    Closed (fun found => kept found ∧ (other = none → found ≠ some (.keyword .elseWord)))
      after.stream := by
  obtain ⟨found, seen, looked, read⟩ := bind_ok read
  have shown := ahead_ok looked
  by_cases further : found = some (.keyword .elseWord)
  · rw [if_pos further] at read
    obtain ⟨_, _, _, read⟩ := bind_ok read
    obtain ⟨branch, last, ran, returned⟩ := bind_ok read
    cases returned
    exact closed_weaken (inners _ _ _ ran) fun _ holds => ⟨holds, nofun⟩
  · rw [if_neg further] at read
    cases read
    exact ⟨found, Reader.ahead_again shown, closes_of_closed before found _ shown, fun _ => further⟩

theorem conditional_closed (read : conditional inner visit = some (.ok node, after)) :
    ((∃ condition branch, node = .ifThen condition branch) ∧
        Closed (fun found => kept found ∧ found ≠ some (.keyword .elseWord)) after.stream) ∨
      (∃ condition branch other, node = .ifElse condition branch other) ∧ Closed kept after.stream := by
  obtain ⟨last, read, same⟩ := routine_ok read
  obtain ⟨_, _, _, read⟩ := bind_ok read
  obtain ⟨condition, _, _, read⟩ := bind_ok read
  obtain ⟨_, _, _, read⟩ := bind_ok read
  obtain ⟨branch, middle, ran, read⟩ := bind_ok read
  obtain ⟨other, final, alternated, returned⟩ := bind_ok read
  have closed := alternative_closed inners (inners _ _ _ ran) alternated
  rw [same]
  cases other with
  | none =>
      cases returned
      exact .inl ⟨⟨condition, branch, rfl⟩, closed_weaken closed fun _ both => ⟨both.1, both.2 rfl⟩⟩
  | some other =>
      cases returned
      exact .inr ⟨⟨condition, branch, other, rfl⟩, closed_weaken closed fun _ both => both.1⟩

theorem function_closed (read : function inner fuel visit = some (.ok node, after)) :
    (∃ parameters body, node = .function parameters body) ∧ Closed kept after.stream := by
  obtain ⟨last, read, same⟩ := routine_ok read
  obtain ⟨_, _, _, read⟩ := bind_ok read
  obtain ⟨parameters, _, _, read⟩ := bind_ok read
  obtain ⟨body, _, ran, returned⟩ := bind_ok read
  cases returned
  rw [same]
  exact ⟨⟨parameters, body, rfl⟩, inners _ _ _ ran⟩

end Open

end ScriptReader.Descent
