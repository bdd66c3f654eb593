import ScriptReader.Proofs.Chain.Reference
import ScriptReader.Proofs.Phrase.Rules

set_option autoImplicit false

namespace ScriptReader

open Rule Phrase

namespace Link

def spelled (links : List Link) : List TokenKind :=
  links.flatMap fun link => .operator link.op.symbol :: link.tokens

@[simp] theorem spelled_nil : spelled [] = [] := rfl

@[simp] theorem spelled_cons (link : Link) (links : List Link) :
    spelled (link :: links) = .operator link.op.symbol :: (link.tokens ++ spelled links) := by
  simp [spelled]

@[simp] theorem spelled_append (a b : List Link) : spelled (a ++ b) = spelled a ++ spelled b := by
  simp [spelled]

theorem length_le_spelled (links : List Link) : links.length ≤ (spelled links).length := by
  induction links with
  | nil => exact Nat.le_refl _
  | cons link links ih =>
      simp only [spelled_cons, List.length_cons, List.length_append]
      omega

def above (floor : Nat) (link : Link) : Bool := decide (floor < link.op.precedence)

theorem above_of_tighter (floor : Nat) (op : Operator) (enough : floor < op.precedence) (link : Link)
    (tighter : above op.rightFloor link = true) : above floor link = true := by
  simp only [above, decide_eq_true_eq] at tighter ⊢
  cases assigns : op.isAssignment with
  | true =>
      rw [op.precedence_of_assignment assigns] at enough
      have := link.op.precedence_pos
      omega
  | false =>
      rw [op.right_floor_of_binary assigns] at tighter
      omega

theorem above_of_take {floor : Nat} {link : Link} (links : List Link) (taken : above floor link = true) :
    ∀ further ∈ links.takeWhile (above link.op.rightFloor), above floor further = true :=
  fun further inside => above_of_tighter floor link.op (by simpa [above] using taken) further
    (List.all_eq_true.mp List.all_takeWhile further inside)

-- The links above an operator's own floor are its right operand, those behind go on from there.
theorem take_above_cons (floor : Nat) (link : Link) (links : List Link)
    (taken : above floor link = true) :
    (link :: links).takeWhile (above floor) =
      link :: (links.takeWhile (above link.op.rightFloor) ++
        (links.dropWhile (above link.op.rightFloor)).takeWhile (above floor)) := by
  have parts := List.takeWhile_append_dropWhile (p := above link.op.rightFloor) (l := links)
  rw [List.takeWhile_cons, if_pos taken, ← List.takeWhile_append_of_pos (above_of_take links taken), parts]

theorem drop_above_cons (floor : Nat) (link : Link) (links : List Link)
    (taken : above floor link = true) :
    (link :: links).dropWhile (above floor) =
      (links.dropWhile (above link.op.rightFloor)).dropWhile (above floor) := by
  have parts := List.takeWhile_append_dropWhile (p := above link.op.rightFloor) (l := links)
  rw [List.dropWhile_cons, if_pos taken]
  exact (congrArg (List.dropWhile _) parts).symm.trans
    (List.dropWhile_append_of_pos (above_of_take links taken))

theorem tighter_take_above (floor : Nat) (links : List Link) :
    ∀ link ∈ links.takeWhile (above floor), floor < link.op.precedence := by
  intro link inside
  simpa [above] using List.all_eq_true.mp List.all_takeWhile link inside

theorem stops_drop_above (floor : Nat) (p : Link → Bool) (links : List Link) :
    ∀ next ∈ ((links.dropWhile (above floor)).takeWhile p).head?, next.op.precedence ≤ floor := by
  intro next inside
  have stopped := List.head?_dropWhile_not (above floor) links
  cases rest : links.dropWhile (above floor) with
  | nil => simp [rest] at inside
  | cons first rest' =>
      rw [rest] at inside stopped
      cases holds : p first with
      | false => simp [holds] at inside
      | true =>
          have same : first = next := by simpa [holds] using inside
          simpa [above, ← same] using stopped

def Readable (need : Nat) (rest : List TokenKind) : List Link → Prop
  | [] => True
  | link :: links =>
      (∀ level, need ≤ level →
        Operand (Expression level) link.tokens link.node (spelled links ++ rest)) ∧
        Readable need rest links

theorem readable_suffix (need : Nat) (rest : List TokenKind) (a b : List Link)
    (readable : Readable need rest (a ++ b)) : Readable need rest b := by
  induction a with
  | nil => exact readable
  | cons link a ih => exact ih readable.2

end Link

open Link

theorem operator_above_of_zero (floor : Nat) (rest : List TokenKind)
    (stopped : operatorAbove 0 rest = none) : operatorAbove floor rest = none := by
  cases found : operatorAbove floor rest with
  | none => rfl
  | some pair =>
      obtain ⟨op, later⟩ := pair
      obtain ⟨rfl, _⟩ := operator_above_some _ _ _ _ found
      rw [operator_above_here 0 later op op.precedence_pos] at stopped
      cases stopped

theorem operator_above_below (floor : Nat) (op : Operator) (tokens : List TokenKind)
    (below : op.precedence ≤ floor) : operatorAbove floor (.operator op.symbol :: tokens) = none := by
  simp [operatorAbove, Nat.not_lt.mpr below]

theorem climb_stops (level floor : Nat) (left : Node) (rest : List TokenKind)
    (below : operatorAbove floor rest = none) : Climb level floor left [] left rest := by
  cases level with
  | zero => rw [climb_zero]; exact .done below
  | succ level => rw [Phrase.climb_succ]; exact .done below

theorem spelled_take_drop (p : Link → Bool) (links : List Link) (rest : List TokenKind) :
    spelled (links.takeWhile p) ++ (spelled (links.dropWhile p) ++ rest) = spelled links ++ rest := by
  rw [← List.append_assoc, ← spelled_append, List.takeWhile_append_dropWhile]

-- One round of the loop: the right operand takes the inner links, the loop goes on with the outer ones.
theorem climb_link (level floor : Nat) (left : Node) (link : Link) (inner outer : List Link)
    (rest : List TokenKind) (taken : floor < link.op.precedence)
    (tighter : ∀ further ∈ inner, link.op.rightFloor < further.op.precedence)
    (stops : ∀ next ∈ outer.head?, next.op.precedence ≤ link.op.rightFloor)
    (operand : Operand (Expression level) link.tokens link.node
      (spelled inner ++ (spelled outer ++ rest)))
    (risen : Climb level link.op.rightFloor link.node (spelled inner) (reference link.node inner)
      (spelled outer ++ rest))
    (later : Climb (level + 1) floor (.operation link.op left (reference link.node inner))
      (spelled outer) (reference (.operation link.op left (reference link.node inner)) outer) rest) :
    Climb (level + 1) floor left (spelled (link :: (inner ++ outer)))
      (reference left (link :: (inner ++ outer))) rest := by
  rw [reference_step left link inner outer tighter stops, spelled_cons, spelled_append]
  rw [Phrase.climb_succ] at later ⊢
  exact .further link.op taken operand risen later

theorem climb_chain (need : Nat) (rest : List TokenKind) (stopped : operatorAbove 0 rest = none)
    (links : List Link) (readable : Readable need rest links) (level floor : Nat) (left : Node)
    (enough : depth (links.takeWhile (above floor)) + need ≤ level) :
    Climb level floor left (spelled (links.takeWhile (above floor)))
      (reference left (links.takeWhile (above floor)))
      (spelled (links.dropWhile (above floor)) ++ rest) := by
  match links with
  | [] =>
      simp only [List.takeWhile_nil, List.dropWhile_nil, spelled_nil, reference_nil]
      exact climb_stops _ _ _ _ (operator_above_of_zero floor rest stopped)
  | link :: more =>
      cases taken : above floor link with
      | false =>
          have below : operatorAbove floor (spelled (link :: more) ++ rest) = none := by
            rw [spelled_cons]
            exact operator_above_below floor link.op _ (by simpa [above] using taken)
          simp only [List.takeWhile_cons, List.dropWhile_cons, taken, Bool.false_eq_true,
            if_false, spelled_nil, reference_nil]
          exact climb_stops _ _ _ _ below
      | true =>
          have parts := List.takeWhile_append_dropWhile (p := above link.op.rightFloor) (l := more)
          have tighter := tighter_take_above link.op.rightFloor more
          have stops := stops_drop_above link.op.rightFloor (above floor) more
          have afterOperand := spelled_take_drop (above link.op.rightFloor) more rest
          have fewer := congrArg List.length parts
          have outerReadable := readable_suffix need rest _ _ (parts.symm ▸ readable.2)
          have deeper := enough
          rw [take_above_cons floor link more taken, depth_step link _ _ tighter stops] at deeper
          rw [take_above_cons floor link more taken, drop_above_cons floor link more taken]
          generalize innerEq : more.takeWhile (above link.op.rightFloor) = inner at *
          generalize outerEq : more.dropWhile (above link.op.rightFloor) = outer at *
          have afterRight := spelled_take_drop (above floor) outer rest
          rw [List.length_append] at fewer
          have shorter : outer.length < (link :: more).length := Nat.lt_succ_of_le (by omega)
          obtain ⟨level, rfl⟩ : ∃ inside, level = inside + 1 := ⟨level - 1, by omega⟩
          have operand := readable.1 level (by omega)
          have risen := climb_chain need rest stopped more readable.2 level link.op.rightFloor link.node
            (by rw [innerEq]; omega)
          have later := climb_chain need rest stopped outer outerReadable (level + 1) floor
            (.operation link.op left (reference link.node inner)) (by omega)
          rw [← afterOperand, ← afterRight] at operand
          rw [innerEq, outerEq, ← afterRight] at risen
          have above : floor < link.op.precedence := by simpa [above] using taken
          exact climb_link level floor left link inner _ _ above tighter stops operand risen later
termination_by links.length
decreasing_by
  · exact Nat.lt_succ_self _
  · exact shorter

theorem climb_all (need : Nat) (rest : List TokenKind) (stopped : operatorAbove 0 rest = none)
    (links : List Link) (readable : Readable need rest links) (level : Nat) (left : Node)
    (enough : depth links + need ≤ level) :
    Climb level 0 left (spelled links) (reference left links) rest := by
  have all : ∀ link ∈ links, above 0 link = true := fun link _ => by
    simp [above, link.op.precedence_pos]
  have taken : links.takeWhile (above 0) = links := by
    rw [← List.append_nil links, List.takeWhile_append_of_pos all]
    simp
  have dropped : links.dropWhile (above 0) = [] := by
    rw [← List.append_nil links, List.dropWhile_append_of_pos all]
    simp
  have climbed := climb_chain need rest stopped links readable level 0 left (by rw [taken]; exact enough)
  rwa [taken, dropped] at climbed

end ScriptReader
