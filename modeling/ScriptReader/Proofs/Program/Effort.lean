import ScriptReader.Proofs.Demand.Termination
import ScriptReader.Proofs.Program.Verdict

set_option autoImplicit false

namespace ScriptReader

open Descent

theorem program_told (again : Bool) (limit : Nat) {fuel : Nat} {source : String}
    (few : (yielded source).length < fuel) :
    ∃ course,
      Descent.program again limit fuel ⟨.ofString source, 0, []⟩ =
          some (parseWithin limit source,
            ⟨((TokenStream.ofString source).parseProgram limit).2, 0, course⟩) ∧
        (∀ turn ∈ course, turn.Progresses) ∧
        operandsEntered course ≤ (yielded source).length + 1 := by
  have count : (TokenStream.ofString source).upcoming.length = (yielded source).length := by
    rw [upcoming_yielded, List.length_map]
  have accords := program_meets again limit fuel ⟨.ofString source, 0, []⟩ rfl (count.trans_lt few)
  obtain ⟨course, ran, progress, entered, _⟩ := accords_told accords
  rw [Reader.program_eq, List.append_nil] at ran
  rw [Visit.remaining, count] at entered
  exact ⟨course, ran, progress, entered⟩

theorem parse_progresses (limit fuel : Nat) :
    (∀ visit : Visit, visit.remaining < fuel →
      (∃ result after, expression true limit fuel visit = some (result, after) ∧
        ∀ node, result = .ok node → after.remaining < visit.remaining) ∧
      ∀ floor left, ∃ result after, climb true limit fuel floor left visit = some (result, after)) ∧
    ∀ source, (yielded source).length < fuel →
      ∃ course,
        Descent.program true limit fuel ⟨.ofString source, 0, []⟩ =
            some (parseWithin limit source,
              ⟨((TokenStream.ofString source).parseProgram limit).2, 0, course⟩) ∧
          (∀ turn ∈ course, turn.Progresses) ∧
          operandsEntered course ≤ (yielded source).length + 1 := by
  refine ⟨fun visit few => ?_, fun source few => program_told true limit few⟩
  obtain ⟨expressions, climbs⟩ := level_meets true limit fuel visit.depth
  constructor
  · obtain ⟨_, ran, _, _, taken⟩ := accords_told (expressions visit rfl few)
    exact ⟨_, _, ran, fun node read => taken node read⟩
  · intro floor left
    obtain ⟨_, ran, _⟩ := accords_told (climbs floor left visit rfl few)
    exact ⟨_, _, ran⟩

theorem unclosed_call_progresses :
    let visit : Visit := ⟨.ofString "f(a, b", 0, []⟩
    visit.remaining < 6 ∧ (yielded "f(a, b").length < 6 ∧
      (∃ result after, expression true 1000 6 visit = some (result, after)) ∧
      ∃ course,
        Descent.program true 1000 6 visit =
            some (.error (.grammatical (.unexpectedEnd "')'") ⟨1, 6⟩),
              ⟨((TokenStream.ofString "f(a, b").parseProgram 1000).2, 0, course⟩) ∧
          (∀ turn ∈ course, turn.Progresses) ∧ operandsEntered course ≤ 6 := by
  intro visit
  have count : (yielded "f(a, b").length = 5 := by with_unfolding_all rfl
  have few : (yielded "f(a, b").length < 6 := count.trans_lt (Nat.lt_succ_self 5)
  have unread : visit.remaining < 6 := by
    rw [Visit.remaining, upcoming_yielded, List.length_map]
    exact few
  have failed : parseWithin 1000 "f(a, b" = .error (.grammatical (.unexpectedEnd "')'") ⟨1, 6⟩) := by
    with_unfolding_all rfl
  obtain ⟨levels, programs⟩ := parse_progresses 1000 6
  obtain ⟨⟨result, after, ended, _⟩, _⟩ := levels visit unread
  obtain ⟨course, ran, progress, entered⟩ := programs "f(a, b" few
  rw [failed] at ran
  rw [count] at entered
  exact ⟨unread, few, ⟨result, after, ended⟩, course, ran, progress, entered⟩

end ScriptReader
