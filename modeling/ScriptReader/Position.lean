set_option autoImplicit false

namespace ScriptReader

-- Lines count from 1, columns from 0, both in characters.
structure Position where
  line : Nat
  column : Nat
deriving DecidableEq, Repr

namespace Position

def start : Position := ⟨1, 0⟩

instance : Inhabited Position := ⟨start⟩

def advance (p : Position) (c : Char) : Position :=
  if c = '\n' then ⟨p.line + 1, 0⟩ else ⟨p.line, p.column + 1⟩

def advanceOver (p : Position) (text : List Char) : Position := text.foldl advance p

def order (p q : Position) : Ordering := (compare p.line q.line).then (compare p.column q.column)

instance : Ord Position := ⟨order⟩
instance : LT Position := ⟨fun p q => p.line < q.line ∨ p.line = q.line ∧ p.column < q.column⟩
instance : LE Position := ⟨fun p q => p < q ∨ p = q⟩

instance (p q : Position) : Decidable (p < q) :=
  inferInstanceAs (Decidable (p.line < q.line ∨ p.line = q.line ∧ p.column < q.column))
instance (p q : Position) : Decidable (p ≤ q) := inferInstanceAs (Decidable (p < q ∨ p = q))

def text (p : Position) : String := toString p.line ++ ":" ++ toString p.column

theorem lt_def (p q : Position) :
    p < q ↔ p.line < q.line ∨ p.line = q.line ∧ p.column < q.column := Iff.rfl

theorem lt_iff_order (p q : Position) : p < q ↔ p.order q = .lt := by
  simp only [lt_def, order, Ordering.then_eq_lt, Nat.compare_eq_lt, Nat.compare_eq_eq]

theorem lt_trans {p q r : Position} (pq : p < q) (qr : q < r) : p < r := by
  simp only [lt_def] at pq qr ⊢
  omega

theorem lt_irrefl (p : Position) : ¬ p < p := by
  simp only [lt_def]
  omega

theorem le_trans {p q r : Position} (pq : p ≤ q) (qr : q ≤ r) : p ≤ r := by
  rcases pq with pq | rfl
  · rcases qr with qr | rfl
    · exact .inl (lt_trans pq qr)
    · exact .inl pq
  · exact qr

theorem lt_of_le_of_lt {p q r : Position} (pq : p ≤ q) (qr : q < r) : p < r := by
  rcases pq with pq | rfl
  · exact lt_trans pq qr
  · exact qr

theorem lt_of_lt_of_le {p q r : Position} (pq : p < q) (qr : q ≤ r) : p < r := by
  rcases qr with qr | rfl
  · exact lt_trans pq qr
  · exact pq

theorem lt_advance (p : Position) (c : Char) : p < p.advance c := by
  rw [lt_def, advance]
  split
  · exact .inl (Nat.lt_succ_self _)
  · exact .inr ⟨rfl, Nat.lt_succ_self _⟩

@[simp] theorem advance_over_nil (p : Position) : p.advanceOver [] = p := rfl

@[simp] theorem advance_over_cons (p : Position) (c : Char) (text : List Char) :
    p.advanceOver (c :: text) = (p.advance c).advanceOver text := rfl

@[simp] theorem advance_over_append (p : Position) (a b : List Char) :
    p.advanceOver (a ++ b) = (p.advanceOver a).advanceOver b := by
  simp [advanceOver]

theorem le_advance_over (p : Position) (text : List Char) : p ≤ p.advanceOver text := by
  induction text generalizing p with
  | nil => exact .inr rfl
  | cons c text ih => exact le_trans (.inl (lt_advance p c)) (ih _)

theorem lt_advance_over (p : Position) (text : List Char) (filled : text ≠ []) :
    p < p.advanceOver text := by
  cases text with
  | nil => exact absurd rfl filled
  | cons c text =>
      rcases le_advance_over (p.advance c) text with further | same
      · exact lt_trans (lt_advance p c) further
      · rw [advance_over_cons, ← same]
        exact lt_advance p c

end Position

end ScriptReader
