import ScriptReader.Grammar.Expression

/-!
The tree of an operator chain by splitting: at the first assignment, else at the last operator among
those that bind weakest. `reference_step` builds the same tree from the left.
-/

set_option autoImplicit false

namespace ScriptReader

structure Link where
  op : Operator
  tokens : List TokenKind
  node : Node

namespace Operator

theorem precedence_of_assignment (op : Operator) (assigns : op.isAssignment = true) :
    op.precedence = 1 := by
  cases op <;> first | rfl | cases assigns

theorem right_floor_of_assignment (op : Operator) (assigns : op.isAssignment = true) :
    op.rightFloor = 0 := by
  cases op <;> first | rfl | cases assigns

theorem right_floor_of_binary (op : Operator) (binary : op.isAssignment = false) :
    op.rightFloor = op.precedence := by
  cases op <;> first | rfl | cases binary

theorem binary_of_tighter (op other : Operator) (tighter : op.precedence < other.precedence) :
    other.isAssignment = false := by
  have positive := op.precedence_pos
  cases assigns : other.isAssignment with
  | false => rfl
  | true =>
      have weakest := other.precedence_of_assignment assigns
      omega

end Operator

namespace Link

def firstAssignment : List Link → Option (List Link × Link × List Link)
  | [] => none
  | link :: links =>
      if link.op.isAssignment then some ([], link, links)
      else (firstAssignment links).map fun (before, found, after) => (link :: before, found, after)

def lastWeakest : List Link → Option (List Link × Link × List Link)
  | [] => none
  | link :: links =>
      match lastWeakest links with
      | none => some ([], link, links)
      | some (before, found, after) =>
          if found.op.precedence ≤ link.op.precedence then some (link :: before, found, after)
          else some ([], link, links)

def split (links : List Link) : Option (List Link × Link × List Link) :=
  firstAssignment links <|> lastWeakest links

theorem first_assignment_eq_none (links : List Link) :
    firstAssignment links = none ↔ ∀ link ∈ links, link.op.isAssignment = false := by
  induction links with
  | nil => simp [firstAssignment]
  | cons link links ih =>
      cases assigns : link.op.isAssignment <;> simp [firstAssignment, assigns, ih]

theorem first_assignment_append (before after : List Link) (link : Link)
    (earlier : ∀ other ∈ before, other.op.isAssignment = false)
    (assigns : link.op.isAssignment = true) :
    firstAssignment (before ++ link :: after) = some (before, link, after) := by
  induction before with
  | nil => simp [firstAssignment, assigns]
  | cons other before ih =>
      have skipped := ih fun further inside => earlier further (by simp [inside])
      simp [firstAssignment, earlier other (by simp), skipped]

theorem first_assignment_eq_some (links before after : List Link) (link : Link)
    (found : firstAssignment links = some (before, link, after)) :
    links = before ++ link :: after ∧ link.op.isAssignment = true ∧
      ∀ other ∈ before, other.op.isAssignment = false := by
  induction links generalizing before with
  | nil => cases found
  | cons other links ih =>
      simp only [firstAssignment] at found
      split at found
      · rename_i assigns
        cases found
        exact ⟨rfl, assigns, by simp⟩
      · rename_i binary
        obtain ⟨⟨before, link, after⟩, further, same⟩ := Option.map_eq_some_iff.mp found
        cases same
        obtain ⟨rfl, assigns, earlier⟩ := ih before further
        refine ⟨rfl, assigns, fun each inside => ?_⟩
        rcases List.mem_cons.mp inside with rfl | later
        · simpa using binary
        · exact earlier each later

theorem last_weakest_eq_none (links : List Link) : lastWeakest links = none ↔ links = [] := by
  cases links with
  | nil => simp [lastWeakest]
  | cons link links =>
      simp only [lastWeakest, reduceCtorEq, iff_false]
      split
      · simp
      · split <;> simp

theorem last_weakest_eq_some (links before after : List Link) (link : Link)
    (found : lastWeakest links = some (before, link, after)) :
    links = before ++ link :: after ∧
      (∀ other ∈ before, link.op.precedence ≤ other.op.precedence) ∧
      ∀ other ∈ after, link.op.precedence < other.op.precedence := by
  induction links generalizing before link after with
  | nil => cases found
  | cons other links ih =>
      simp only [lastWeakest] at found
      split at found
      · rename_i none
        cases found
        have empty := (last_weakest_eq_none _).mp none
        simp [empty]
      · rename_i before' link' after' further
        obtain ⟨rfl, earlier, later⟩ := ih before' after' link' further
        split at found
        · rename_i weaker
          cases found
          refine ⟨rfl, fun each inside => ?_, later⟩
          rcases List.mem_cons.mp inside with rfl | inside
          · exact weaker
          · exact earlier each inside
        · rename_i tighter
          cases found
          refine ⟨rfl, by simp, fun each inside => ?_⟩
          rcases List.mem_append.mp inside with front | back
          · exact Nat.lt_of_lt_of_le (by omega) (earlier each front)
          · rcases List.mem_cons.mp back with rfl | back
            · omega
            · have := later each back
              omega

theorem last_weakest_append (before after : List Link) (link : Link)
    (earlier : ∀ other ∈ before, link.op.precedence ≤ other.op.precedence)
    (later : ∀ other ∈ after, link.op.precedence < other.op.precedence) :
    lastWeakest (before ++ link :: after) = some (before, link, after) := by
  induction before with
  | nil =>
      simp only [List.nil_append, lastWeakest]
      split
      · rfl
      · rename_i front found back further
        obtain ⟨rfl, _, _⟩ := last_weakest_eq_some _ _ _ _ further
        have := later found (by simp)
        rw [if_neg (by omega)]
  | cons other before ih =>
      have further := ih fun each inside => earlier each (by simp [inside])
      simp [lastWeakest, further, earlier other (by simp)]

structure Splits (before : List Link) (link : Link) (after : List Link) : Prop where
  earlier : ∀ other ∈ before, other.op.isAssignment = false
  weakest : link.op.isAssignment = false →
    (∀ other ∈ before, link.op.precedence ≤ other.op.precedence) ∧
      ∀ other ∈ after, link.op.precedence < other.op.precedence

theorem split_of_splits {before after : List Link} {link : Link} (splits : Splits before link after) :
    split (before ++ link :: after) = some (before, link, after) := by
  cases assigns : link.op.isAssignment with
  | true => simp [split, first_assignment_append before after link splits.earlier assigns]
  | false =>
      obtain ⟨front, back⟩ := splits.weakest assigns
      have absent : firstAssignment (before ++ link :: after) = none := by
        refine (first_assignment_eq_none _).mpr fun each inside => ?_
        rcases List.mem_append.mp inside with inside | inside
        · exact splits.earlier each inside
        · rcases List.mem_cons.mp inside with rfl | inside
          · exact assigns
          · exact Operator.binary_of_tighter _ _ (back each inside)
      simp [split, absent, last_weakest_append before after link front back]

theorem split_eq_some (links before after : List Link) (link : Link)
    (found : split links = some (before, link, after)) :
    links = before ++ link :: after ∧ Splits before link after := by
  unfold split at found
  cases first : firstAssignment links with
  | some triple =>
      rw [first] at found
      cases found
      obtain ⟨same, assigns, earlier⟩ := first_assignment_eq_some _ _ _ _ first
      exact ⟨same, earlier, by simp [assigns]⟩
  | none =>
      rw [first] at found
      have binary := (first_assignment_eq_none links).mp first
      obtain ⟨rfl, front, back⟩ := last_weakest_eq_some _ _ _ _ found
      exact ⟨rfl, fun each inside => binary each (by simp [inside]), fun _ => ⟨front, back⟩⟩

theorem split_eq_none (links : List Link) : split links = none ↔ links = [] := by
  cases first : firstAssignment links with
  | some triple =>
      obtain ⟨before, link, after⟩ := triple
      obtain ⟨rfl, _⟩ := first_assignment_eq_some _ _ _ _ first
      simp [split, first]
  | none => simp [split, first, last_weakest_eq_none]

theorem split_smaller (links before after : List Link) (link : Link)
    (found : split links = some (before, link, after)) :
    before.length < links.length ∧ after.length < links.length := by
  obtain ⟨rfl, _⟩ := split_eq_some _ _ _ _ found
  simp only [List.length_append, List.length_cons]
  omega

theorem splits_induction {motive : List Link → Prop} (nil : motive [])
    (split : ∀ before link after, Splits before link after → motive before → motive after →
      motive (before ++ link :: after)) (links : List Link) : motive links := by
  cases found : Link.split links with
  | none => exact (split_eq_none links).mp found ▸ nil
  | some triple =>
      obtain ⟨before, link, after⟩ := triple
      obtain ⟨shorter, shorterBehind⟩ := split_smaller _ _ _ _ found
      obtain ⟨rfl, splits⟩ := split_eq_some _ _ _ _ found
      exact split before link after splits (splits_induction nil split before)
        (splits_induction nil split after)
termination_by links.length

def reference (left : Node) (links : List Link) : Node :=
  match _found : split links with
  | none => left
  | some (before, link, after) =>
      .operation link.op (reference left before) (reference link.node after)
termination_by links.length
decreasing_by
  · exact (split_smaller _ _ _ _ _found).1
  · exact (split_smaller _ _ _ _ _found).2

-- The right operands that stand inside each other in the tree of a chain.
def depth (links : List Link) : Nat :=
  match _found : split links with
  | none => 0
  | some (before, _, after) => max (depth before) (depth after + 1)
termination_by links.length
decreasing_by
  · exact (split_smaller _ _ _ _ _found).1
  · exact (split_smaller _ _ _ _ _found).2

@[simp] theorem reference_nil (left : Node) : reference left [] = left := by
  simp [reference, split, firstAssignment, lastWeakest]

@[simp] theorem depth_nil : depth [] = 0 := by
  simp [depth, split, firstAssignment, lastWeakest]

theorem reference_split (left : Node) {before after : List Link} {link : Link}
    (splits : Splits before link after) :
    reference left (before ++ link :: after) =
      .operation link.op (reference left before) (reference link.node after) := by
  rw [reference]
  split
  · rename_i none
    rw [split_of_splits splits] at none
    cases none
  · rename_i found
    rw [split_of_splits splits] at found
    cases found
    rfl

theorem depth_split {before after : List Link} {link : Link} (splits : Splits before link after) :
    depth (before ++ link :: after) = max (depth before) (depth after + 1) := by
  rw [depth]
  split
  · rename_i none
    rw [split_of_splits splits] at none
    cases none
  · rename_i found
    rw [split_of_splits splits] at found
    cases found
    rfl

theorem depth_le_length (links : List Link) : depth links ≤ links.length := by
  induction links using splits_induction with
  | nil => simp
  | split before link after splits ihBefore ihAfter =>
      rw [depth_split splits]
      simp only [List.length_append, List.length_cons]
      omega

theorem splits_alone (link : Link) (inner : List Link)
    (tighter : ∀ further ∈ inner, link.op.rightFloor < further.op.precedence) :
    Splits [] link inner := by
  refine ⟨by simp, fun binary => ⟨by simp, ?_⟩⟩
  rwa [Operator.right_floor_of_binary _ binary] at tighter

-- Where the operators behind `inner` bind no tighter than `link`, they split the whole chain too.
theorem splits_extend (link root : Link) (inner before after : List Link)
    (tighter : ∀ further ∈ inner, link.op.rightFloor < further.op.precedence)
    (stops : ∀ next ∈ (before ++ root :: after).head?, next.op.precedence ≤ link.op.rightFloor)
    (splits : Splits before root after) : Splits (link :: (inner ++ before)) root after := by
  -- An assignment takes everything, so `link` is none.
  have binary : link.op.isAssignment = false := by
    cases assigns : link.op.isAssignment with
    | false => rfl
    | true =>
        rw [Operator.right_floor_of_assignment _ assigns] at stops
        cases before with
        | nil =>
            have := stops root rfl
            have := root.op.precedence_pos
            omega
        | cons first before =>
            have := stops first rfl
            have := first.op.precedence_pos
            omega
  rw [Operator.right_floor_of_binary _ binary] at tighter stops
  constructor
  · intro other inside
    rcases List.mem_cons.mp inside with rfl | inside
    · exact binary
    · rcases List.mem_append.mp inside with inside | inside
      · exact Operator.binary_of_tighter _ _ (tighter other inside)
      · exact splits.earlier other inside
  · intro weak
    obtain ⟨front, back⟩ := splits.weakest weak
    refine ⟨fun other inside => ?_, back⟩
    have least : root.op.precedence ≤ link.op.precedence := by
      cases before with
      | nil => exact stops root rfl
      | cons first before => exact Nat.le_trans (front first (by simp)) (stops first rfl)
    rcases List.mem_cons.mp inside with rfl | inside
    · exact least
    · rcases List.mem_append.mp inside with inside | inside
      · exact Nat.le_trans least (Nat.le_of_lt (tighter other inside))
      · exact front other inside

theorem stops_before (bound : Nat) (root : Link) (before after : List Link)
    (stops : ∀ next ∈ (before ++ root :: after).head?, next.op.precedence ≤ bound) :
    ∀ next ∈ before.head?, next.op.precedence ≤ bound := by
  cases before with
  | nil => simp
  | cons first before => exact stops

theorem reference_step (left : Node) (link : Link) (inner outer : List Link)
    (tighter : ∀ further ∈ inner, link.op.rightFloor < further.op.precedence)
    (stops : ∀ next ∈ outer.head?, next.op.precedence ≤ link.op.rightFloor) :
    reference left (link :: (inner ++ outer)) =
      reference (.operation link.op left (reference link.node inner)) outer := by
  induction outer using splits_induction with
  | nil =>
      rw [List.append_nil, reference_nil]
      exact (reference_split left (splits_alone link inner tighter)).trans (by rw [reference_nil])
  | split before root after splits ihBefore _ =>
      have extended := splits_extend link root inner before after tighter stops splits
      rw [reference_split _ splits, ← ihBefore (stops_before _ root before after stops),
        ← reference_split left extended]
      simp

theorem depth_step (link : Link) (inner outer : List Link)
    (tighter : ∀ further ∈ inner, link.op.rightFloor < further.op.precedence)
    (stops : ∀ next ∈ outer.head?, next.op.precedence ≤ link.op.rightFloor) :
    depth (link :: (inner ++ outer)) = max (depth inner + 1) (depth outer) := by
  induction outer using splits_induction with
  | nil =>
      have whole := depth_split (splits_alone link inner tighter)
      rw [List.append_nil, depth_nil]
      rw [depth_nil] at whole
      exact whole.trans (by omega)
  | split before root after splits ihBefore _ =>
      have extended := depth_split (splits_extend link root inner before after tighter stops splits)
      rw [ihBefore (stops_before _ root before after stops)] at extended
      rw [depth_split splits]
      simp only [List.cons_append, List.append_assoc] at extended
      omega

end Link

end ScriptReader
