import ScriptReader.Proofs.Demand.Program
import ScriptReader.Proofs.Token.Interleaved

set_option autoImplicit false

namespace ScriptReader

namespace TokenStream

theorem parse_program_peeks {plain stream : TokenStream} (peeks : Peeks plain stream) (limit : Nat) :
    stream.parseProgram limit = plain.parseProgram limit := by
  have ahead : Reader.ahead stream = Reader.ahead plain := by
    rw [Reader.ahead, Reader.ahead, peeks_peek peeks]
  rw [← Reader.program_eq, ← Reader.program_eq]
  simp only [Reader.program, Parts.program, Parts.items, Reader.parts, bind, ahead]

theorem parse_program_alike {a b : TokenStream} (alike : Alike a b) (limit : Nat) :
    (a.parseProgram limit).1 = (b.parseProgram limit).1 := by
  have coming : a.upcoming = b.upcoming := by rw [upcoming, upcoming, alike.cursor, alike.peeked]
  simp only [parseProgram, coming]
  have passed := alike_skip alike (attempt limit b.upcoming).taken
  obtain ⟨shown, behind⟩ := alike_peek passed
  generalize a.skip (attempt limit b.upcoming).taken = a at passed shown behind ⊢
  generalize b.skip (attempt limit b.upcoming).taken = b at passed shown behind ⊢
  split
  · rename_i looked _
    cases looked with
    | true => simp only [if_true, alike_position behind]
    | false => simp only [Bool.false_eq_true, if_false, alike_position passed]
  · generalize a.peek = first at shown behind ⊢
    generalize b.peek = second at shown behind ⊢
    obtain ⟨result, left⟩ := first
    obtain ⟨_, right⟩ := second
    cases shown
    rcases result with error | _ | token
    · rfl
    · simp only [alike_position behind]
    · rfl
  · generalize a.peek = first at shown ⊢
    generalize b.peek = second at shown ⊢
    obtain ⟨result, left⟩ := first
    obtain ⟨_, right⟩ := second
    cases shown
    cases result <;> rfl

end TokenStream

open TokenStream

open Call in
theorem calls_interleave (cursor : Cursor) (calls : List Call) (limit : Nat) :
    let start := ofCursor cursor
    let answers := (run start calls).1
    let stream := (run start calls).2
    let reported := reports calls answers
    -- Of the calls that read, every result is reported once and in order, and nothing else is lost.
    (calls.all reads = true →
        reported = (List.range reported.length).map start.results ∧
          (∀ count, stream.results count = start.results (reported.length + count)) ∧
          (stream.parseProgram limit).1 =
            ((ofCursor (start.skip reported.length).cursor).parseProgram limit).1) ∧
      -- A look ahead that succeeds shows the next result and changes nothing that follows.
      (stream.atEnd = (stream.peek.1.map Option.isNone, stream.peek.2) ∧
        ∀ found after, stream.peek = (.ok found, after) →
          stream.results 0 = .ok found ∧ after.parseProgram limit = stream.parseProgram limit ∧
            ∀ more, (run after more).1.filter Answer.unplaced =
              (run stream more).1.filter Answer.unplaced) ∧
      -- Before the first error an item is the next result, and draining hands over all results.
      ((∀ answer ∈ answers, answer.failed = false) →
        stream.item = (itemOf stream.next.1, stream.next.2) ∧
          ∀ tokens after, stream.tokenize = (.ok tokens, after) →
            after.cursor.rest = [] ∧ after.peeked = none ∧ stream.peeked.toList <+: tokens ∧
              ∀ count, stream.results count = .ok tokens[count]?) ∧
      -- Behind an error there are no more items, while the other calls and a parser do not notice the flag.
      ((∃ answer ∈ answers, answer.failed = true) →
        stream.item = (none, stream) ∧ stream.tokenize = (.ok [], stream) ∧
          (∀ more, readings more (run stream more).1 =
            (run { stream with failed := false } (more.filter reads)).1) ∧
          (stream.parseProgram limit).1 = ({ stream with failed := false }.parseProgram limit).1) := by
  intro start answers stream reported
  have flag : stream.failed = answers.any Answer.failed := run_failed start calls
  refine ⟨fun reading => ?_, ⟨at_end_eq stream, fun found after shown => ?_⟩, fun unfailed => ?_,
    fun failure => ?_⟩
  · obtain ⟨told, reached⟩ := run_reports .same calls reading
    refine ⟨told, fun count => ?_, ?_⟩
    · rw [peeks_results reached, results, results, skip_add]
    · have alike : Alike (start.skip reported.length) (ofCursor (start.skip reported.length).cursor) :=
        ⟨rfl, skip_peeked rfl reported.length⟩
      rw [parse_program_peeks reached]
      exact parse_program_alike alike limit
  · have peeks : Peeks stream after := .looked shown
    refine ⟨?_, parse_program_peeks peeks limit, run_peeks peeks⟩
    rw [results, skip, (next_of_peek stream).1, shown]
  · have clear : stream.failed = false := by
      rw [flag, List.any_eq_false]
      exact fun answer member => by rw [unfailed answer member]; exact Bool.false_ne_true
    refine ⟨item_of_unfailed clear, fun tokens after drained => ?_⟩
    obtain ⟨read, empty, held⟩ := drained_of_tokenize clear drained
    exact ⟨read, empty, held, results_of_tokenize clear (congrArg Prod.fst drained)⟩
  · have set : stream.failed = true := by
      rw [flag, List.any_eq_true]
      exact failure
    have alike : Alike stream { stream with failed := false } := ⟨rfl, rfl⟩
    exact ⟨item_of_failed set, tokenize_of_failed stream set,
      fun more => (run_alike alike set more).1, parse_program_alike alike limit⟩

theorem flaw_met_ahead :
    let calls := [Call.peek, .next, .atEnd]
    let start := TokenStream.ofCursor (.ofString "a $ b")
    let stream := (Call.run start calls).2
    calls.all Call.reads = true ∧ (∃ answer ∈ (Call.run start calls).1, answer.failed = true) ∧
      Call.reports calls (Call.run start calls).1 = [start.results 0, start.results 1] ∧
      stream.item = (none, stream) := by
  intro calls start stream
  have reading : calls.all Call.reads = true := rfl
  have failure : ∃ answer ∈ (Call.run start calls).1, answer.failed = true :=
    List.any_eq_true.mp (by with_unfolding_all rfl)
  have two : (Call.reports calls (Call.run start calls).1).length = 2 := by with_unfolding_all rfl
  obtain ⟨first, _, _, last⟩ := calls_interleave (.ofString "a $ b") calls 1
  have told := (first reading).1
  rw [show ofCursor (.ofString "a $ b") = start from rfl, two] at told
  exact ⟨reading, failure, told, (last failure).1⟩

end ScriptReader
