set_option autoImplicit false

namespace ScriptReader

-- The state after one more character, or `none` where the machine leaves that character unread.
abbrev Machine (σ : Type) := σ → Char → Option σ

namespace Machine

variable {σ : Type}

def after (step : Machine σ) : σ → List Char → Option σ
  | state, [] => some state
  | state, c :: text => (step state c).bind fun next => after step next text

def Halts (step : Machine σ) (state : σ) : List Char → Prop
  | [] => True
  | c :: _ => step state c = none

def scan (step : Machine σ) (passed : List Char) : σ → List Char → List Char × List Char
  | _, [] => (passed.reverse, [])
  | state, c :: text =>
      match step state c with
      | some next => scan step (c :: passed) next text
      | none => (passed.reverse, c :: text)

def longest (step : Machine σ) (state : σ) (text : List Char) : List Char × List Char :=
  scan step [] state text

def all (p : Char → Bool) : Machine Unit := fun _ c => if p c then some () else none

theorem scan_eq (step : Machine σ) (passed : List Char) (state : σ) (text : List Char) :
    scan step passed state text =
      (passed.reverse ++ (longest step state text).1, (longest step state text).2) := by
  induction text generalizing passed state with
  | nil => simp [longest, scan]
  | cons c text ih =>
      simp only [longest, scan]
      cases step state c with
      | none => simp
      | some next =>
          dsimp only
          rw [ih, ih [c]]
          simp

theorem longest_cons_halt (step : Machine σ) (state : σ) (c : Char) (text : List Char)
    (halt : step state c = none) : longest step state (c :: text) = ([], c :: text) := by
  simp [longest, scan, halt]

theorem longest_cons_step (step : Machine σ) (state next : σ) (c : Char) (text : List Char)
    (moves : step state c = some next) :
    longest step state (c :: text) =
      (c :: (longest step next text).1, (longest step next text).2) := by
  simp only [longest, scan, moves]
  exact scan_eq step [c] next text

theorem longest_append (step : Machine σ) (state : σ) (text : List Char) :
    (longest step state text).1 ++ (longest step state text).2 = text := by
  induction text generalizing state with
  | nil => rfl
  | cons c text ih =>
      cases moves : step state c with
      | none => rw [longest_cons_halt step state c text moves]; rfl
      | some next => rw [longest_cons_step step state next c text moves]; simp [ih]

theorem after_longest (step : Machine σ) (state : σ) (text : List Char) :
    ∃ last, after step state (longest step state text).1 = some last ∧
      Halts step last (longest step state text).2 := by
  induction text generalizing state with
  | nil => exact ⟨state, rfl, trivial⟩
  | cons c text ih =>
      cases moves : step state c with
      | none =>
          rw [longest_cons_halt step state c text moves]
          exact ⟨state, rfl, moves⟩
      | some next =>
          rw [longest_cons_step step state next c text moves]
          obtain ⟨last, reads, halts⟩ := ih next
          exact ⟨last, by simp [after, moves, reads], halts⟩

theorem longest_of_after (step : Machine σ) (state last : σ) (a b : List Char)
    (reads : after step state a = some last) (halts : Halts step last b) :
    longest step state (a ++ b) = (a, b) := by
  induction a generalizing state with
  | nil =>
      cases Option.some.inj reads
      cases b with
      | nil => rfl
      | cons c b => exact longest_cons_halt step _ c b halts
  | cons c a ih =>
      cases moves : step state c with
      | none => simp [after, moves] at reads
      | some next =>
          simp only [after, moves, Option.bind_some] at reads
          rw [List.cons_append, longest_cons_step step state next c (a ++ b) moves, ih next reads]

theorem after_append (step : Machine σ) (state : σ) (a b : List Char) :
    after step state (a ++ b) = (after step state a).bind fun next => after step next b := by
  induction a generalizing state with
  | nil => rfl
  | cons c a ih =>
      simp only [List.cons_append, after]
      cases step state c with
      | none => rfl
      | some next => exact ih next

theorem after_all (p : Char → Bool) (text : List Char) :
    after (all p) () text = some () ↔ ∀ c ∈ text, p c = true := by
  induction text with
  | nil => simp [after]
  | cons c text ih =>
      by_cases holds : p c = true
      · simp [after, all, holds] at ih ⊢
        exact ih
      · simp [after, all, holds]

end Machine

end ScriptReader
