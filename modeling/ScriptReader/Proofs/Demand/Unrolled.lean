import ScriptReader.Proofs.Demand.Descent
import ScriptReader.Proofs.Demand.Reached

set_option autoImplicit false

namespace ScriptReader.Reader

open Parts (goesOn)
open TokenStream

variable {α β σ τ : Type} {stream behind : TokenStream}

theorem upcoming_taken {token : Token} (taken : stream.next = (.ok (some token), behind)) :
    stream.upcoming = token.kind :: behind.upcoming := by
  rw [upcoming_next, taken]

theorem take_gains {what : Expectation} {token : Token}
    (read : take what stream = (.ok token, behind)) :
    behind.upcoming.length + 1 ≤ stream.upcoming.length := by
  rw [take] at read
  rcases taken : stream.next with ⟨error | _ | found, after⟩ <;> rw [taken] at read <;> cases read
  rw [upcoming_taken taken]
  exact Nat.le_refl _

theorem ahead_keeps {found : Option TokenKind} (read : ahead stream = (.ok found, behind)) :
    behind.upcoming = stream.upcoming := by
  have again := peek_again stream
  rw [ahead] at read
  rcases shown : stream.peek with ⟨error | token, after⟩ <;> rw [shown] at read again <;> cases read
  rw [upcoming_next, (again token rfl).2, ← upcoming_next]

theorem ahead_again {found : Option TokenKind} (read : ahead stream = (.ok found, behind)) :
    ahead behind = (.ok found, behind) := by
  have again := peek_again stream
  rw [ahead] at read ⊢
  rcases shown : stream.peek with ⟨error | token, after⟩ <;> rw [shown] at read again <;> cases read
  rw [(again token rfl).1]

section Binds

variable {first : Reader α} {next other : α → Reader β}

theorem bind_congr
    (same : ∀ value behind, first stream = (.ok value, behind) →
      next value behind = other value behind) :
    (first >>= next) stream = (first >>= other) stream := by
  rcases read : first stream with ⟨error | value, behind⟩
  · rw [bind_error read, bind_error read]
  · rw [bind_ok read, bind_ok read]
    exact same value behind read

theorem bind_value {value : β} (read : (first >>= next) stream = (.ok value, behind)) :
    ∃ item middle, first stream = (.ok item, middle) ∧ next item middle = (.ok value, behind) := by
  rcases ran : first stream with ⟨error | item, middle⟩
  · rw [bind_error ran] at read
    cases read
  · rw [bind_ok ran] at read
    exact ⟨item, middle, rfl, read⟩

@[simp] theorem bind_assoc (first : Reader σ) (next : σ → Reader α) (last : α → Reader β) :
    (first >>= next >>= last) = first >>= fun value => next value >>= last := by
  funext stream
  rcases read : first stream with ⟨error | value, behind⟩
  · rw [bind_error (bind_error read next), bind_error read]
  · rw [bind_ok read]
    simp only [bind, read]

end Binds

def Gains (bound : Nat) (reader : Reader α) : Prop :=
  ∀ stream value behind, stream.upcoming.length < bound → reader stream = (.ok value, behind) →
    behind.upcoming.length < stream.upcoming.length

section Loops

variable {bound : Nat} {enters : Option TokenKind → Option τ}

def loopOnce (enters : Option TokenKind → Option τ) (round : τ → σ → Reader (Option σ))
    (later : σ → Reader σ) (value : σ) : Reader σ := do
  match enters (← ahead) with
  | none => return value
  | some found =>
      match ← round found value with
      | none => return value
      | some next => later next

variable {body : τ → σ → Reader σ}

theorem rounds_clock (gains : ∀ found value, Gains bound (body found value)) (clock other : Nat)
    (value : σ) (within : stream.upcoming.length < bound) (enough : stream.upcoming.length < clock)
    (enoughToo : stream.upcoming.length < other) :
    parts.rounds enters body clock value stream = parts.rounds enters body other value stream := by
  induction clock generalizing other value stream with
  | zero => cases enough
  | succ clock ih =>
      obtain _ | other := other
      · cases enoughToo
      refine bind_congr fun next seen looked => ?_
      have same := ahead_keeps looked
      cases enters next with
      | none => rfl
      | some found =>
          refine bind_congr fun next behind ran => ?_
          have fewer := gains found value seen next behind (same ▸ within) ran
          rw [same] at fewer
          exact ih other next (by omega) (by omega) (by omega)

theorem loop_unrolled (gains : ∀ found value, Gains bound (body found value)) (value : σ)
    (within : stream.upcoming.length < bound) :
    parts.loop enters body value stream =
      loopOnce enters (fun found value => do return some (← body found value)) (parts.loop enters body)
        value stream := by
  rw [loop_rounds]
  refine bind_congr fun next seen looked => ?_
  have same := ahead_keeps looked
  cases enters next with
  | none => rfl
  | some found =>
      dsimp only
      rw [bind_assoc]
      refine bind_congr fun next behind ran => ?_
      have fewer := gains found value seen next behind (same ▸ within) ran
      have length := upcoming_length stream
      have lengthToo := upcoming_length behind
      rw [same] at fewer
      exact rounds_clock gains _ _ next (by omega) (by omega) (by omega)

theorem loop_left (gains : ∀ found value, Gains bound (body found value)) (value : σ)
    (within : stream.upcoming.length < bound) {next : Option TokenKind}
    (shown : ahead stream = (.ok next, stream)) (leaves : enters next = none) :
    parts.loop enters body value stream = (.ok value, stream) := by
  rw [loop_unrolled gains value within, loopOnce, bind_ok shown, leaves]
  rfl

end Loops

section Lists

variable {bound : Nat} {element : Reader α} {separator : Char} {ends : Option TokenKind → Bool}

def listed (element : Reader α) (separator : Char) (ends : Option TokenKind → Bool) :
    List α → Reader (List α)
  | [] => do
      if (goesOn ends (← ahead)).isNone then return []
      let first ← element
      parts.loop (goesOn ends) (fun _ => parts.furtherItem element separator ends) [first]
  | first :: found =>
      parts.loop (goesOn ends) (fun _ => parts.furtherItem element separator ends) (first :: found)

theorem items_eq : parts.items element separator ends =
    (do return (← listed element separator ends []).reverse) := by
  funext stream
  rw [listed, bind_assoc]
  refine bind_congr fun next seen _ => ?_
  by_cases ended : (goesOn ends next).isNone
  · rw [if_pos ended, if_pos ended]
    rfl
  · rw [if_neg ended, if_neg ended, bind_assoc]

theorem goes_on_of_ends {next : Option TokenKind} (ended : ends next) : goesOn ends next = none := by
  rw [goesOn, ended, Bool.or_true, if_pos rfl]

theorem missing_fails {what : Expectation} {value : α}
    (read : missing what stream = (.ok value, behind)) : False := by
  rw [missing] at read
  rcases shown : stream.peek with ⟨error | _ | token, after⟩ <;> rw [shown] at read <;> cases read

theorem demand_keeps {c : Char} {what : Expectation} {value : Unit}
    (read : parts.demand c what stream = (.ok value, behind)) : behind.upcoming = stream.upcoming := by
  obtain ⟨next, seen, looked, read⟩ := bind_value read
  by_cases marked : next = some (.punctuation c)
  · rw [if_pos marked] at read
    cases read
    exact ahead_keeps looked
  · rw [if_neg marked] at read
    exact (missing_fails read).elim

theorem mark_gains {c : Char} {value : Unit} (read : parts.mark c stream = (.ok value, behind)) :
    behind.upcoming.length + 1 ≤ stream.upcoming.length := by
  obtain ⟨_, _, demanded, read⟩ := bind_value read
  obtain ⟨token, after, taken, returned⟩ := bind_value read
  cases returned
  exact demand_keeps demanded ▸ take_gains taken

theorem listed_once
    (gains : ∀ found, Gains bound (parts.furtherItem element separator ends found)) (found : List α)
    (within : stream.upcoming.length < bound) :
    listed element separator ends found stream =
      loopOnce (goesOn ends) (fun _ => parts.listRound element separator ends)
        (listed element separator ends) found stream := by
  cases found with
  | nil =>
      refine bind_congr fun next seen _ => ?_
      cases goesOn ends next with
      | none => rfl
      | some _ =>
          rw [Option.isNone_some, if_neg Bool.false_ne_true]
          show _ = ((element >>= fun first => pure (some [first])) >>= _) seen
          rw [bind_assoc]
          rfl
  | cons first found =>
      rw [listed, loop_unrolled (fun _ => gains) _ within]
      refine bind_congr fun next seen looked => ?_
      have same := ahead_keeps looked
      cases goesOn ends next with
      | none => rfl
      | some _ =>
          simp only [Parts.listRound, Parts.furtherItem, bind_assoc, List.isEmpty_cons,
            Bool.false_eq_true, if_false]
          refine bind_congr fun _ behind marked => bind_congr fun further shown looked => ?_
          have fewer := mark_gains marked
          by_cases ended : ends further
          · rw [if_pos ended, if_pos ended]
            refine loop_left (fun _ => gains) _ ?_ (ahead_again looked) (goes_on_of_ends ended)
            rw [ahead_keeps looked]
            exact Nat.lt_trans fewer (same ▸ within)
          · rw [if_neg ended, if_neg ended, bind_assoc, bind_assoc]
            rfl

end Lists

section Programs

variable {bound : Nat} {statement : Reader Node}

def stated (statement : Reader Node) (found : List Node) : Reader (List Node) := do
  if (goesOn Option.isNone (← ahead)).isNone then return found
  let first ← statement
  parts.loop (goesOn Option.isNone) (fun _ => parts.furtherItem statement ';' Option.isNone)
    (first :: found)

theorem stated_once
    (gains : ∀ found, Gains bound (parts.furtherItem statement ';' Option.isNone found))
    (statements : Gains bound statement) (found : List Node) (within : stream.upcoming.length < bound) :
    stated statement found stream =
      loopOnce (goesOn Option.isNone) (fun _ => parts.statementRound statement) (stated statement) found
        stream := by
  refine bind_congr fun next seen looked => ?_
  have same := ahead_keeps looked
  cases goesOn Option.isNone next with
  | none => rfl
  | some _ =>
      simp only [Parts.statementRound, Parts.statementEnd, bind_assoc, Option.isNone_some,
        Bool.false_eq_true, if_false]
      refine bind_congr fun first behind read => ?_
      have fewer := statements seen first behind (same ▸ within) read
      rw [same] at fewer
      have within : behind.upcoming.length < bound := Nat.lt_trans fewer within
      rw [loop_unrolled (fun _ => gains) _ within]
      refine bind_congr fun further shown looked => ?_
      have again := ahead_again looked
      cases further with
      | none =>
          show _ = stated statement (first :: found) shown
          rw [stated, bind_ok again]
          rfl
      | some kind =>
          have enters : goesOn Option.isNone (some kind) = some () := rfl
          simp only [enters, Parts.furtherItem, bind_assoc, Option.isSome_some, if_true]
          refine bind_congr fun _ last marked => ?_
          have shorter := mark_gains marked
          rw [ahead_keeps looked] at shorter
          refine bind_congr fun next final looked => ?_
          cases next with
          | none =>
              refine loop_left (fun _ => gains) _ ?_ (ahead_again looked) rfl
              rw [ahead_keeps looked]
              omega
          | some next =>
              have goes : goesOn Option.isNone (some next) = some () := rfl
              simp only [goes, Option.isNone_some, Bool.false_eq_true, if_false, bind_assoc]
              rfl

end Programs

end ScriptReader.Reader
