import ScriptReader.Proofs.Demand.Program

/-!
A parser that counts how deep it is nested and compares the counter with the limit, where the readers
are given the levels that they have left.
-/

set_option autoImplicit false

namespace ScriptReader

structure Parser where
  stream : TokenStream
  depth : Nat

def Parser.ofStream (stream : TokenStream) : Parser := ⟨stream, 0⟩

def Counted (α : Type) := Parser → Except ParseError α × Parser

namespace Counted

variable {α β : Type}

instance : Monad Counted where
  pure value := fun parser => (.ok value, parser)
  bind first next := fun parser =>
    match first parser with
    | (.error error, parser) => (.error error, parser)
    | (.ok value, parser) => next value parser

def lift (reader : Reader α) : Counted α := fun parser =>
  ((reader parser.stream).1, { parser with stream := (reader parser.stream).2 })

def parts : Parts Counted := Reader.parts.map lift

-- One level deeper; the counter is taken back whatever comes out.
def nested (limit : Nat) (inner : Counted α) : Counted α := fun parser =>
  if limit ≤ parser.depth then
    (.error (.grammatical (.nestingTooDeep limit) parser.stream.position), parser)
  else
    let (result, parser) := inner { parser with depth := parser.depth + 1 }
    (result, { parser with depth := parser.depth - 1 })

section Levels

variable (limit : Nat)

-- The clock makes the recursion structural. It runs out where the counter has reached the limit, so
-- that what is nested there is never entered.
mutual
def expression : (clock : Nat) → Counted Node
  | 0 => nested limit (parts.tooDeep limit)
  | clock + 1 => do
      let left ← nested limit (parts.operandOver (expression clock))
      parts.climbOver (nested limit (parts.operandOver (expression clock)))
        (fun floor left => nested limit (climb clock floor left)) 0 left
def climb : (clock floor : Nat) → Node → Counted Node
  | 0, floor, left =>
      parts.climbOver (nested limit (parts.tooDeep limit))
        (fun _ _ => nested limit (parts.tooDeep limit)) floor left
  | clock + 1, floor, left =>
      parts.climbOver (nested limit (parts.operandOver (expression clock)))
        (fun floor left => nested limit (climb clock floor left)) floor left
end

def program : Counted Node := do
  let statements ← parts.items (expression limit limit) ';' Option.isNone
  return .block statements

end Levels

def Counts (depth : Nat) (counted : Counted α) (reader : Reader α) : Prop :=
  ∀ stream, counted ⟨stream, depth⟩ = ((reader stream).1, ⟨(reader stream).2, depth⟩)

variable {depth limit : Nat}

theorem counts_lift (reader : Reader α) : Counts depth (lift reader) reader := fun _ => rfl

theorem counts_pure (value : α) : Counts depth (pure value) (pure value) := fun _ => rfl

theorem counts_bind {first : Counted α} {firstReader : Reader α} {next : α → Counted β}
    {nextReader : α → Reader β} (firsts : Counts depth first firstReader)
    (nexts : ∀ value, Counts depth (next value) (nextReader value)) :
    Counts depth (first >>= next) (firstReader >>= nextReader) := by
  intro stream
  simp only [bind, firsts stream]
  generalize firstReader stream = answer
  obtain ⟨result, behind⟩ := answer
  cases result with
  | error error => rfl
  | ok value => exact nexts value behind

theorem counts_nested {inner : Counted α} {reader : Reader α} (room : depth < limit)
    (inners : Counts (depth + 1) inner reader) : Counts depth (nested limit inner) reader := by
  intro stream
  simp only [nested, if_neg (Nat.not_le.mpr room), inners stream, Nat.add_sub_cancel]

theorem counts_too_deep {inner : Counted α} (full : limit ≤ depth) :
    Counts depth (nested limit inner) (.tooDeep limit) := by
  intro stream
  simp only [nested, if_pos full, Reader.tooDeep]

theorem counter_kin (depth : Nat) : Kin parts Reader.parts (Counts depth) where
  pure := counts_pure
  bind := counts_bind
  ahead := counts_lift _
  take _ := counts_lift _
  demand _ _ := counts_lift _
  refuse _ _ := counts_lift _
  tooDeep _ := counts_lift _
  clock := counts_lift _

-- The levels left to a reader are those between the counter and the limit.
theorem level_counts (clock depth : Nat) (meets : depth + clock = limit) :
    Counts depth (expression limit clock) (Reader.parts.expression limit clock) ∧
      ∀ floor left, Counts depth (climb limit clock floor left)
        (Reader.parts.climb limit clock floor left) := by
  induction clock generalizing depth with
  | zero =>
      have full : limit ≤ depth := Nat.le_of_eq meets.symm
      refine ⟨counts_too_deep full, fun floor left => ?_⟩
      exact (counter_kin depth).climbOver (counts_too_deep full) (fun _ _ => counts_too_deep full)
        floor left
  | succ clock ih =>
      have room : depth < limit := by omega
      obtain ⟨inners, rises⟩ := ih (depth + 1) (by omega)
      have operands := counts_nested room ((counter_kin (depth + 1)).operandOver inners)
      have climbs := (counter_kin depth).climbOver operands fun floor left =>
        counts_nested room (rises floor left)
      exact ⟨counts_bind operands (climbs 0), climbs⟩

theorem program_counts (limit : Nat) : Counts 0 (program limit) (.program limit) :=
  counts_bind ((counter_kin 0).items (level_counts limit 0 (Nat.zero_add limit)).1 _ _) fun _ =>
    counts_pure _

end Counted

def Parser.parseProgram (limit : Nat) (parser : Parser) : Except ParseError Node × Parser :=
  Counted.program limit parser

theorem parser_eq (limit : Nat) (stream : TokenStream) :
    (Parser.ofStream stream).parseProgram limit =
      ((stream.parseProgram limit).1, .ofStream (stream.parseProgram limit).2) := by
  rw [← Reader.program_eq]
  exact Counted.program_counts limit stream

end ScriptReader
