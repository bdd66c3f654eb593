import ScriptReader.Proofs.Demand.Closing

/-!
The unread tokens measure a descent: with more fuel than there are tokens it gives the answer of its
reader, and takes a token in every routine and every round (`Accords`).
-/

set_option autoImplicit false

namespace ScriptReader

def Turn.Progresses : Turn → Prop
  | .enters _ => True
  | .returns _ before behind => behind < before
  | .round _ before behind => behind < before

def operandsEntered (course : List Turn) : Nat := course.count (.enters .operand)

@[simp] theorem operands_append (a b : List Turn) :
    operandsEntered (a ++ b) = operandsEntered a + operandsEntered b := List.count_append

namespace Descent

variable {α β σ τ : Type} {bound depth gain lead fewer less : Nat} {visit : Visit}

-- The answer of the descent is the reader's, and the counter stands again where it stood. For a value
-- at least `gain` tokens have been taken, and `lead` more than operands have been entered.
inductive Accords (gain lead : Nat) (visit : Visit) :
    Option (Except ParseError α × Visit) → Except ParseError α × TokenStream → Prop where
  | value {value : α} {stream : TokenStream} {further : List Turn}
      (progress : ∀ turn ∈ further, turn.Progresses)
      (gains : stream.upcoming.length + gain ≤ visit.remaining)
      (leads : operandsEntered further + stream.upcoming.length + lead ≤ visit.remaining) :
      Accords gain lead visit (some (.ok value, ⟨stream, visit.depth, further ++ visit.course⟩))
        (.ok value, stream)
  -- A flaw can be followed by more tokens than there were in front of it.
  | failed {error : ParseError} {stream : TokenStream} {further : List Turn}
      (progress : ∀ turn ∈ further, turn.Progresses)
      (leads : operandsEntered further + lead ≤ visit.remaining + 1) :
      Accords gain lead visit (some (.error error, ⟨stream, visit.depth, further ++ visit.course⟩))
        (.error error, stream)

section Accords

variable {run : Option (Except ParseError α × Visit)} {answer : Except ParseError α × TokenStream}
  {stream : TokenStream} {further : List Turn}

theorem accords_plain {value : α}
    (gains : stream.upcoming.length + gain ≤ visit.remaining) (leads : lead ≤ gain) :
    Accords gain lead visit (some (.ok value, { visit with stream := stream })) (.ok value, stream) := by
  have counted : operandsEntered [] + stream.upcoming.length + lead ≤ visit.remaining := by
    rw [operandsEntered, List.count_nil]
    omega
  have nothing : ∀ turn ∈ ([] : List Turn), turn.Progresses := nofun
  exact .value nothing gains counted

theorem accords_failed {error : ParseError} (small : lead ≤ 1) :
    Accords gain lead visit (some (.error error, { visit with stream := stream }) : Option (_ × Visit))
      ((.error error : Except ParseError α), stream) := by
  have counted : operandsEntered [] + lead ≤ visit.remaining + 1 := by
    rw [operandsEntered, List.count_nil]
    omega
  have nothing : ∀ turn ∈ ([] : List Turn), turn.Progresses := nofun
  exact .failed nothing counted

theorem progress_append {a b : List Turn} (first : ∀ turn ∈ a, turn.Progresses)
    (second : ∀ turn ∈ b, turn.Progresses) : ∀ turn ∈ a ++ b, turn.Progresses := by
  intro turn member
  exact (List.mem_append.mp member).elim (first turn) (second turn)

theorem accords_after (progress : ∀ turn ∈ further, turn.Progresses)
    (gains : stream.upcoming.length + gain ≤ visit.remaining)
    (leads : operandsEntered further + stream.upcoming.length + lead ≤ visit.remaining)
    (later : Accords 0 0 ⟨stream, visit.depth, further ++ visit.course⟩ run answer) :
    Accords gain lead visit run answer := by
  cases later with
  | value progressToo gainsToo leadsToo =>
      simp only [Visit.remaining] at gains leads gainsToo leadsToo
      rw [← List.append_assoc]
      refine .value (progress_append progressToo progress) ?_ ?_
      · rw [Visit.remaining]
        omega
      · rw [operands_append, Visit.remaining]
        omega
  | failed progressToo leadsToo =>
      simp only [Visit.remaining] at leads leadsToo
      rw [← List.append_assoc]
      refine .failed (progress_append progressToo progress) ?_
      rw [operands_append, Visit.remaining]
      omega

theorem accords_bind {first : Descent α} {reader : Reader α} {next : α → Descent β}
    {following : α → Reader β} (firsts : Accords gain lead visit (first visit) (reader visit.stream))
    (nexts : ∀ value after, first visit = some (.ok value, after) → after.depth = visit.depth →
      after.remaining + gain ≤ visit.remaining →
      Accords 0 0 after (next value after) (following value after.stream)) :
    Accords gain lead visit ((first >>= next) visit) ((reader >>= following) visit.stream) := by
  generalize ran : first visit = run, answered : reader visit.stream = answer at firsts
  cases firsts with
  | value progress gains leads =>
      rw [bind_of_ok ran, Reader.bind_ok answered]
      exact accords_after progress gains leads (nexts _ _ ran rfl gains)
  | failed progress leads =>
      rw [Reader.bind_error answered]
      simp only [bind, ran]
      exact .failed progress leads

theorem accords_weaken (accords : Accords gain lead visit run answer) (gains : fewer ≤ gain)
    (leads : less ≤ lead) : Accords fewer less visit run answer := by
  cases accords with
  | value progress _ _ => exact .value progress (by omega) (by omega)
  | failed progress _ => exact .failed progress (by omega)

theorem accords_told (accords : Accords gain lead visit run answer) :
    ∃ further, run = some (answer.1, ⟨answer.2, visit.depth, further ++ visit.course⟩) ∧
      (∀ turn ∈ further, turn.Progresses) ∧ operandsEntered further + lead ≤ visit.remaining + 1 ∧
      ∀ value, answer.1 = .ok value → answer.2.upcoming.length + gain ≤ visit.remaining := by
  cases accords with
  | value progress gains leads => exact ⟨_, rfl, progress, by omega, fun _ _ => gains⟩
  | failed progress leads => exact ⟨_, rfl, progress, leads, nofun⟩

theorem accords_stamped {inner : Descent α} {turns : Nat → Nat → α → List Turn}
    (inners : Accords gain lead visit (inner visit) answer)
    (progress : ∀ before behind value, behind + gain ≤ before →
      ∀ turn ∈ turns before behind value, turn.Progresses)
    (calm : ∀ before behind value, operandsEntered (turns before behind value) = 0) :
    Accords gain lead visit (stamped turns inner visit) answer := by
  rw [stamped]
  generalize inner visit = run at inners
  cases inners with
  | value progressToo gains leads =>
      dsimp only [Visit.told]
      rw [← List.append_assoc]
      refine .value (progress_append (progress _ _ _ gains) progressToo) gains ?_
      rw [operands_append, calm, Nat.zero_add]
      exact leads
  | failed progressToo leads => exact .failed progressToo leads

theorem accords_entered {name : Routine}
    (accords : Accords gain lead (visit.told [.enters name]) run answer)
    (counted : operandsEntered [.enters name] + less ≤ lead) : Accords gain less visit run answer := by
  have calm : ∀ turn ∈ [Turn.enters name], turn.Progresses := by
    intro turn member
    cases List.mem_singleton.mp member
    trivial
  cases accords with
  | value progress gains leads =>
      simp only [Visit.told]
      rw [← List.append_assoc]
      refine .value (progress_append progress calm) gains ?_
      rw [operands_append]
      exact Nat.le_trans (by omega) leads
  | failed progress leads =>
      simp only [Visit.told]
      rw [← List.append_assoc]
      refine .failed (progress_append progress calm) ?_
      rw [operands_append]
      exact Nat.le_trans (by omega) leads

end Accords

section Meets

variable {descent first yes no : Descent α} {reader other agreed refused : Reader α}
  {next : α → Descent β} {following : α → Reader β}

def Meets (bound depth gain lead : Nat) (descent : Descent α) (reader : Reader α) : Prop :=
  ∀ visit, visit.depth = depth → visit.remaining < bound →
    Accords gain lead visit (descent visit) (reader visit.stream)

theorem meets_weaken {tighter : Nat} (meets : Meets bound depth gain lead descent reader)
    (within : tighter ≤ bound) (gains : fewer ≤ gain) (leads : less ≤ lead) :
    Meets tighter depth fewer less descent reader :=
  fun visit level few => accords_weaken (meets visit level (Nat.lt_of_lt_of_le few within)) gains leads

-- An operand may be entered for the token that has been taken.
theorem meets_loose (meets : Meets bound depth gain 1 descent reader) :
    Meets bound depth gain 0 descent reader :=
  meets_weaken meets (Nat.le_refl _) (Nat.le_refl _) (Nat.zero_le 1)

theorem meets_further {tighter : Nat} (meets : Meets bound depth gain lead descent reader)
    (within : tighter ≤ bound) : Meets tighter depth 0 0 descent reader :=
  meets_weaken meets within (Nat.zero_le _) (Nat.zero_le _)

theorem meets_congr
    (same : ∀ stream, stream.upcoming.length < bound → other stream = reader stream)
    (meets : Meets bound depth gain lead descent reader) : Meets bound depth gain lead descent other :=
  fun visit level within => (same visit.stream within).symm ▸ meets visit level within

theorem meets_gains (meets : Meets bound depth (gain + 1) lead descent reader) :
    Reader.Gains bound reader := by
  intro stream value behind within read
  have accords := meets ⟨stream, depth, []⟩ rfl within
  generalize descent ⟨stream, depth, []⟩ = run at accords
  rw [read] at accords
  cases accords with
  | value _ gains _ => exact Nat.lt_of_lt_of_le (by omega) gains

theorem meets_pure (value : α) : Meets bound depth 0 0 (pure value) (pure value) :=
  fun _ _ _ => accords_plain (Nat.le_refl _) (Nat.le_refl _)

theorem meets_lift
    (gains : ∀ stream value behind, reader stream = (.ok value, behind) →
      behind.upcoming.length + gain ≤ stream.upcoming.length) (small : gain ≤ 1) :
    Meets bound depth gain gain (lift reader) reader := by
  intro visit _ _
  rw [lift]
  rcases read : reader visit.stream with ⟨error | value, stream⟩
  · exact accords_failed small
  · exact accords_plain (gains _ _ _ read) (Nat.le_refl _)

theorem meets_bind (firsts : Meets bound depth gain lead first reader)
    (nexts : ∀ value, Meets (bound - gain) depth 0 0 (next value) (following value)) :
    Meets bound depth gain lead (first >>= next) (reader >>= following) := by
  intro visit level within
  refine accords_bind (firsts visit level within) fun value after _ same fewer => ?_
  exact nexts value after (same.trans level) (by omega)

theorem meets_if {test : Prop} [Decidable test] (yeses : Meets bound depth gain lead yes agreed)
    (noes : Meets bound depth gain lead no refused) :
    Meets bound depth gain lead (if test then yes else no) (if test then agreed else refused) :=
  related_if yeses noes

theorem meets_keeping
    (keeps : ∀ stream value behind, reader stream = (.ok value, behind) →
      behind.upcoming = stream.upcoming)
    (small : lead ≤ 1) (nexts : ∀ value, Meets bound depth gain lead (next value) (following value)) :
    Meets bound depth gain lead (lift reader >>= next) (reader >>= following) := by
  intro visit level within
  rcases read : reader visit.stream with ⟨error | value, stream⟩
  · have ran : lift reader visit = some (.error error, { visit with stream := stream }) := by
      simp only [lift, read]
    rw [Reader.bind_error read]
    simp only [bind, ran]
    exact accords_failed small
  · have ran : lift reader visit = some (.ok value, { visit with stream := stream }) := by
      simp only [lift, read]
    have same : ({ visit with stream := stream } : Visit).remaining = visit.remaining :=
      congrArg List.length (keeps _ _ _ read)
    rw [bind_of_ok ran, Reader.bind_ok read]
    have accords := nexts value { visit with stream := stream } level (same ▸ within)
    generalize next value { visit with stream := stream } = run, following value stream = answer
      at accords
    cases accords with
    | value progress gains leads => exact .value progress (same ▸ gains) (same ▸ leads)
    | failed progress leads => exact .failed progress (same ▸ leads)

end Meets

theorem meets_routine {name : Routine} {inner : Descent α} {reader : Reader α}
    (inners : Meets bound depth 1 lead inner reader)
    (counted : operandsEntered [.enters name] + less ≤ lead) :
    Meets bound depth 1 less (routine name inner) reader := by
  intro visit level within
  have entered := inners (visit.told [.enters name]) level within
  refine accords_entered (accords_stamped entered ?_ fun _ _ _ => rfl) counted
  intro before behind _ fewer turn member
  cases List.mem_singleton.mp member
  exact fewer

theorem meets_round {name : Loop} {body : Descent (Option σ)} {reader : Reader (Option σ)}
    (bodies : Meets bound depth 1 lead body reader) :
    Meets bound depth 1 lead (round name body) reader := by
  intro visit level within
  refine accords_stamped (bodies visit level within) (fun before behind next fewer turn member => ?_)
    fun before behind next => ?_
  · cases next with
    | none => cases member
    | some _ =>
        cases List.mem_singleton.mp member
        exact fewer
  · cases next <;> rfl

section Nesting

variable {limit : Nat} {inner : Descent α} {reader : Reader α}

theorem meets_nested (room : depth < limit) (inners : Meets bound (depth + 1) gain lead inner reader) :
    Meets bound depth gain lead (nested limit inner) reader := by
  intro visit level within
  subst level
  have accords := inners { visit with depth := visit.depth + 1 } rfl within
  rw [nested, if_neg (Nat.not_le.mpr room)]
  dsimp only at accords
  generalize inner { visit with depth := visit.depth + 1 } = run, reader visit.stream = answer
    at accords
  cases accords with
  | value progress gains leads => exact .value progress gains leads
  | failed progress leads => exact .failed progress leads

theorem meets_too_deep (full : limit ≤ depth) :
    Meets bound depth 1 1 (nested limit inner) (.tooDeep limit) := by
  intro visit level within
  subst level
  rw [nested, if_pos full]
  exact accords_failed (Nat.le_refl 1)

end Nesting

section Loops

variable {name : Loop} {enters : Option TokenKind → Option τ}

-- By induction on the fuel: each round takes a token, so that the fuel lasts as the tokens do.
theorem meets_loop {body : τ → σ → Descent (Option σ)} {step : τ → σ → Reader (Option σ)}
    {target : σ → Reader σ} {fuel : Nat} (enough : bound ≤ fuel)
    (unrolled : ∀ value stream, stream.upcoming.length < bound →
      target value stream = Reader.loopOnce enters step target value stream)
    (bodies : ∀ found value, Meets bound depth 1 0 (body found value) (step found value)) (value : σ) :
    Meets bound depth 0 0 (loop name enters body fuel value) (target value) := by
  induction fuel generalizing bound value with
  | zero => exact fun _ _ few => absurd (Nat.lt_of_lt_of_le few enough) (Nat.not_lt_zero _)
  | succ fuel ih =>
      refine meets_congr (unrolled value) ?_
      refine meets_keeping (fun _ _ _ => Reader.ahead_keeps) (Nat.zero_le 1) fun next => ?_
      cases enters next with
      | none => exact meets_pure value
      | some found =>
          have first : Meets bound depth 1 0 (round name (body found value)) (step found value) :=
            meets_round (bodies found value)
          refine meets_further (meets_bind first fun next => ?_) (Nat.le_refl _)
          cases next with
          | none => exact meets_pure value
          | some next =>
              refine ih (by omega) (fun value stream within => unrolled value stream (by omega)) ?_ next
              exact fun found value =>
                meets_weaken (bodies found value) (Nat.sub_le _ _) (Nat.le_refl 1) (Nat.le_refl 0)

end Loops

end Descent

end ScriptReader
