import ScriptReader.Proofs.Demand.Reached
import ScriptReader.Token.Call

set_option autoImplicit false

namespace ScriptReader

def Answer.failed : Answer → Bool
  | .token result => !result.isOk
  | .flag result => !result.isOk
  | .position _ => false
  | .item result => result.any fun result => !result.isOk
  | .tokens result => !result.isOk

-- Looking ahead moves the position on to the token that is shown, and changes no other answer.
def Answer.unplaced : Answer → Bool
  | .position _ => false
  | _ => true

namespace Call

-- The calls that go on behind an error.
def reads : Call → Bool
  | .peek | .next | .atEnd | .position => true
  | .item | .tokenize => false

-- What an answer tells for good: the result of `next`, and an error that a look ahead has met.
def report : Call → Answer → Option (Except LexicalError (Option Token))
  | .next, .token result => some result
  | .peek, .token (.error error) => some (.error error)
  | .atEnd, .flag (.error error) => some (.error error)
  | _, _ => none

def reports (calls : List Call) (answers : List Answer) : List (Except LexicalError (Option Token)) :=
  (calls.zip answers).filterMap fun (call, answer) => call.report answer

def readings (calls : List Call) (answers : List Answer) : List Answer :=
  ((calls.zip answers).filter fun (call, _) => call.reads).map Prod.snd

end Call

namespace TokenStream

-- What the stream hands over behind `count` more calls of `next`, errors and the end included.
def results (stream : TokenStream) (count : Nat) : Except LexicalError (Option Token) :=
  (stream.skip count).next.1

def itemOf : Except LexicalError (Option Token) → Option (Except LexicalError Token)
  | .ok found => found.map .ok
  | .error error => some (.error error)

theorem skip_add (stream : TokenStream) (a b : Nat) : stream.skip (a + b) = (stream.skip a).skip b := by
  induction a generalizing stream with
  | zero => rw [Nat.zero_add, skip]
  | succ a ih =>
      rw [Nat.succ_add]
      exact ih stream.next.2

inductive Front : TokenStream → Except LexicalError (Option Token) × TokenStream →
    Except LexicalError (Option Token) × TokenStream → Prop where
  | held (cursor : Cursor) (token : Token) (failed : Bool) :
      Front ⟨cursor, some token, failed⟩ (.ok (some token), ⟨cursor, none, failed⟩)
        (.ok (some token), ⟨cursor, some token, failed⟩)
  | found {cursor behind : Cursor} {token : Token} (failed : Bool)
      (read : cursor.token = (.ok (some token), behind)) :
      Front ⟨cursor, none, failed⟩ (.ok (some token), ⟨behind, none, failed⟩)
        (.ok (some token), ⟨behind, some token, failed⟩)
  | ended {cursor behind : Cursor} (failed : Bool) (read : cursor.token = (.ok none, behind)) :
      Front ⟨cursor, none, failed⟩ (.ok none, ⟨behind, none, failed⟩)
        (.ok none, ⟨behind, none, failed⟩)
  | flawed {cursor behind : Cursor} {error : LexicalError} (failed : Bool)
      (read : cursor.token = (.error error, behind)) :
      Front ⟨cursor, none, failed⟩ (.error error, ⟨behind, none, true⟩)
        (.error error, ⟨behind, none, true⟩)

theorem front (stream : TokenStream) : Front stream stream.next stream.peek := by
  obtain ⟨cursor, peeked, failed⟩ := stream
  cases peeked with
  | some token => exact .held cursor token failed
  | none =>
      simp only [next, peek]
      cases read : cursor.token with
      | mk result behind =>
          rcases result with error | _ | token
          · exact .flawed failed read
          · exact .ended failed read
          · exact .found failed read

theorem next_of_peek (stream : TokenStream) :
    stream.next.1 = stream.peek.1 ∧ ∀ error, stream.peek.1 = .error error → stream.next = stream.peek := by
  have front := front stream
  generalize stream.next = taken, stream.peek = shown at front ⊢
  cases front with
  | held | found => exact ⟨rfl, nofun⟩
  | ended | flawed => exact ⟨rfl, fun _ _ => rfl⟩

theorem next_peeked (stream : TokenStream) : stream.next.2.peeked = none := by
  have front := front stream
  generalize stream.next = taken, stream.peek = shown at front ⊢
  cases front <;> rfl

theorem skip_peeked {stream : TokenStream} (nothing : stream.peeked = none) (count : Nat) :
    (stream.skip count).peeked = none := by
  induction count generalizing stream with
  | zero => exact nothing
  | succ count ih => exact ih (next_peeked stream)

theorem at_end_eq (stream : TokenStream) :
    stream.atEnd = (stream.peek.1.map Option.isNone, stream.peek.2) := by
  rw [atEnd]
  generalize stream.peek = answer
  obtain ⟨result, behind⟩ := answer
  cases result <;> rfl

theorem next_failed (stream : TokenStream) :
    stream.next.2.failed = (stream.failed || !stream.next.1.isOk) := by
  have front := front stream
  generalize stream.next = taken, stream.peek = shown at front ⊢
  cases front <;> simp [Except.isOk, Except.toBool]

theorem peek_failed (stream : TokenStream) :
    stream.peek.2.failed = (stream.failed || !stream.peek.1.isOk) := by
  have front := front stream
  generalize stream.next = taken, stream.peek = shown at front ⊢
  cases front <;> simp [Except.isOk, Except.toBool]

section Items

variable {stream : TokenStream}

theorem item_of_failed (failed : stream.failed = true) : stream.item = (none, stream) := by
  simp [item, failed]

theorem item_of_unfailed (unfailed : stream.failed = false) :
    stream.item = (itemOf stream.next.1, stream.next.2) := by
  rw [item, unfailed]
  generalize stream.next = answer
  obtain ⟨result, behind⟩ := answer
  cases result <;> rfl

theorem item_failed (stream : TokenStream) :
    stream.item.2.failed = (stream.failed || stream.item.1.any fun result => !result.isOk) := by
  cases failed : stream.failed with
  | true => rw [item_of_failed failed, failed, Bool.true_or]
  | false =>
      have flag := next_failed stream
      rw [failed] at flag
      rw [item_of_unfailed failed, flag]
      generalize stream.next.1 = result
      rcases result with error | _ | token <;> rfl

theorem tokenize_failed (stream : TokenStream) :
    stream.tokenize.2.failed = (stream.failed || !stream.tokenize.1.isOk) := by
  cases failed : stream.failed with
  | true => rw [tokenize_of_failed stream failed, failed, Bool.true_or]
  | false =>
      simp only [tokenize, failed]
      cases ending : (transcript stream.cursor.rest).ending <;> simp [Except.isOk, Except.toBool]

theorem drained_of_tokenize {tokens : List Token} {after : TokenStream} (unfailed : stream.failed = false)
    (drained : stream.tokenize = (.ok tokens, after)) :
    after.cursor.rest = [] ∧ after.peeked = none ∧ stream.peeked.toList <+: tokens := by
  simp only [tokenize, unfailed] at drained
  cases ending : (transcript stream.cursor.rest).ending with
  | complete =>
      rw [ending] at drained
      cases drained
      exact ⟨rfl, rfl, List.prefix_append _ _⟩
  | flawed flaw passed rest =>
      rw [ending] at drained
      cases drained

theorem next_at_end (ended : stream.next.1 = .ok none) : stream.next.2.next.1 = .ok none := by
  have front := front stream
  generalize stream.next = taken, stream.peek = shown at front ended ⊢
  cases front with
  | held | found | flawed => cases ended
  | ended _ read => simp only [next, token_at_end _ _ read]

theorem results_at_end (ended : stream.next.1 = .ok none) (count : Nat) :
    stream.results count = .ok none := by
  induction count generalizing stream with
  | zero => exact ended
  | succ count ih => exact ih (next_at_end ended)

theorem results_of_tokenize {tokens : List Token} (unfailed : stream.failed = false)
    (drained : stream.tokenize.1 = .ok tokens) (count : Nat) :
    stream.results count = .ok tokens[count]? := by
  induction tokens generalizing stream count with
  | nil =>
      refine results_at_end ?_ count
      rw [tokenize_item, item_of_unfailed unfailed] at drained
      generalize stream.next = answer at drained ⊢
      obtain ⟨result, behind⟩ := answer
      rcases result with error | _ | token
      · cases drained
      · rfl
      · simp only [itemOf, Option.map_some] at drained
        generalize behind.tokenize.1 = further at drained
        cases further <;> cases drained
  | cons token tokens ih =>
      have flag := next_failed stream
      rw [tokenize_item, item_of_unfailed unfailed] at drained
      cases taken : stream.next with
      | mk result behind =>
          rw [taken] at drained flag
          rcases result with error | _ | first
          · cases drained
          · cases drained
          · simp only [itemOf, Option.map_some] at drained
            cases later : behind.tokenize.1 with
            | error error => rw [later] at drained; cases drained
            | ok further =>
                rw [later] at drained
                cases drained
                cases count with
                | zero => rw [results, skip, taken]; rfl
                | succ count =>
                    have clear : behind.failed = false := by
                      rw [flag, unfailed]
                      rfl
                    have same := ih clear later count
                    rw [results, skip, taken]
                    exact same

end Items

-- The stream itself, or the stream behind a look ahead that succeeds.
inductive Peeks (stream : TokenStream) : TokenStream → Prop where
  | same : Peeks stream stream
  | looked {found : Option Token} {after : TokenStream} (shown : stream.peek = (.ok found, after)) :
      Peeks stream after

section Peeks

variable {plain stream : TokenStream}

theorem peeks_peek (peeks : Peeks plain stream) : stream.peek = plain.peek := by
  cases peeks with
  | same => rfl
  | looked shown =>
      have again := (peek_again plain _ (congrArg Prod.fst shown)).1
      rw [shown] at again ⊢
      exact again

theorem peeks_next (peeks : Peeks plain stream) : stream.next = plain.next := by
  cases peeks with
  | same => rfl
  | looked shown =>
      have again := (peek_again plain _ (congrArg Prod.fst shown)).2
      rw [shown] at again
      exact again

theorem peeks_failed (peeks : Peeks plain stream) : stream.failed = plain.failed := by
  cases peeks with
  | same => rfl
  | looked shown =>
      have flag := peek_failed plain
      rw [shown] at flag
      simpa [Except.isOk, Except.toBool] using flag

theorem peeks_results (peeks : Peeks plain stream) (count : Nat) :
    stream.results count = plain.results count := by
  cases count with
  | zero => rw [results, results, skip, skip, peeks_next peeks]
  | succ count => rw [results, results, skip, skip, peeks_next peeks]

theorem peeks_item (peeks : Peeks plain stream) :
    stream.item.1 = plain.item.1 ∧ Peeks plain.item.2 stream.item.2 := by
  have flag := peeks_failed peeks
  cases failed : plain.failed with
  | true =>
      rw [item_of_failed failed, item_of_failed (flag.trans failed)]
      exact ⟨rfl, peeks⟩
  | false =>
      rw [item_of_unfailed failed, item_of_unfailed (flag.trans failed), peeks_next peeks]
      exact ⟨rfl, .same⟩

theorem peeks_tokenize (peeks : Peeks plain stream) :
    stream.tokenize.1 = plain.tokenize.1 ∧ Peeks plain.tokenize.2 stream.tokenize.2 := by
  have flag := peeks_failed peeks
  cases failed : plain.failed with
  | true =>
      rw [tokenize_of_failed _ failed, tokenize_of_failed _ (flag.trans failed)]
      exact ⟨rfl, peeks⟩
  | false =>
      have same : stream.tokenize = plain.tokenize := by
        rw [tokenize_item stream, tokenize_item plain, item_of_unfailed failed,
          item_of_unfailed (flag.trans failed), peeks_next peeks]
      rw [same]
      exact ⟨rfl, .same⟩

end Peeks

structure Alike (a b : TokenStream) : Prop where
  cursor : a.cursor = b.cursor
  peeked : a.peeked = b.peeked

section Alike

variable {a b : TokenStream}

theorem alike_front (alike : Alike a b) :
    (a.next.1 = b.next.1 ∧ Alike a.next.2 b.next.2) ∧ a.peek.1 = b.peek.1 ∧ Alike a.peek.2 b.peek.2 := by
  obtain ⟨cursor, peeked, failed⟩ := a
  obtain ⟨_, _, other⟩ := b
  obtain ⟨rfl, rfl⟩ := alike
  cases peeked with
  | some held => exact ⟨⟨rfl, rfl, rfl⟩, rfl, rfl, rfl⟩
  | none =>
      simp only [next, peek]
      generalize cursor.token = answer
      obtain ⟨result, behind⟩ := answer
      cases result <;> exact ⟨⟨rfl, rfl, rfl⟩, rfl, rfl, rfl⟩

theorem alike_next (alike : Alike a b) : a.next.1 = b.next.1 ∧ Alike a.next.2 b.next.2 :=
  (alike_front alike).1

theorem alike_peek (alike : Alike a b) : a.peek.1 = b.peek.1 ∧ Alike a.peek.2 b.peek.2 :=
  (alike_front alike).2

theorem alike_position (alike : Alike a b) : a.position = b.position := by
  rw [position, position, alike.cursor, alike.peeked]

theorem alike_skip (alike : Alike a b) (count : Nat) : Alike (a.skip count) (b.skip count) := by
  induction count generalizing a b with
  | zero => exact alike
  | succ count ih => exact ih (alike_next alike).2

end Alike

end TokenStream

namespace Call

open TokenStream

theorem run_cons (stream : TokenStream) (call : Call) (calls : List Call) :
    run stream (call :: calls) =
      ((call.perform stream).1 :: (run (call.perform stream).2 calls).1,
        (run (call.perform stream).2 calls).2) := rfl

theorem perform_failed (stream : TokenStream) (call : Call) :
    (call.perform stream).2.failed = (stream.failed || (call.perform stream).1.failed) := by
  cases call with
  | peek => exact peek_failed stream
  | next => exact next_failed stream
  | position => exact (Bool.or_false _).symm
  | item => exact item_failed stream
  | tokenize => exact tokenize_failed stream
  | atEnd =>
      have flag := peek_failed stream
      simp only [perform, at_end_eq, Prod.map, id, Answer.failed]
      rw [flag]
      cases stream.peek.1 <;> rfl

theorem run_failed (stream : TokenStream) (calls : List Call) :
    (run stream calls).2.failed = (stream.failed || (run stream calls).1.any Answer.failed) := by
  induction calls generalizing stream with
  | nil => exact (Bool.or_false _).symm
  | cons call calls ih => rw [run_cons, ih, perform_failed, List.any_cons, Bool.or_assoc]

theorem perform_report {plain stream : TokenStream} (peeks : Peeks plain stream) (call : Call)
    (reads : call.reads = true) :
    match call.report (call.perform stream).1 with
    | some result => result = plain.next.1 ∧ (call.perform stream).2 = plain.next.2
    | none => Peeks plain (call.perform stream).2 := by
  have passed := next_of_peek plain
  cases call with
  | item => cases reads
  | tokenize => cases reads
  | position => exact peeks
  | next =>
      rw [perform, peeks_next peeks]
      exact ⟨rfl, rfl⟩
  | peek =>
      simp only [perform, peeks_peek peeks, Prod.map, id]
      cases shown : plain.peek with
      | mk result behind =>
          rw [shown] at passed
          cases result with
          | ok found => exact .looked shown
          | error error =>
              have same := passed.2 error rfl
              rw [same]
              exact ⟨rfl, rfl⟩
  | atEnd =>
      simp only [perform, at_end_eq, peeks_peek peeks, Prod.map, id]
      cases shown : plain.peek with
      | mk result behind =>
          rw [shown] at passed
          cases result with
          | ok found => exact .looked shown
          | error error =>
              have same := passed.2 error rfl
              rw [same]
              exact ⟨rfl, rfl⟩

theorem reports_cons (call : Call) (calls : List Call) (answer : Answer) (answers : List Answer) :
    reports (call :: calls) (answer :: answers) =
      (call.report answer).toList ++ reports calls answers := by
  simp only [reports, List.zip_cons_cons, List.filterMap_cons]
  cases call.report answer <;> rfl

theorem run_reports {plain stream : TokenStream} (peeks : Peeks plain stream) (calls : List Call)
    (reading : calls.all reads = true) :
    let reported := reports calls (run stream calls).1
    reported = (List.range reported.length).map plain.results ∧
      Peeks (plain.skip reported.length) (run stream calls).2 := by
  induction calls generalizing plain stream with
  | nil => exact ⟨rfl, peeks⟩
  | cons call calls ih =>
      obtain ⟨first, later⟩ := (Bool.and_eq_true _ _).mp (List.all_cons ▸ reading)
      have step := perform_report peeks call first
      simp only [run_cons, reports_cons]
      cases told : call.report (call.perform stream).1 with
      | none =>
          rw [told] at step
          exact ih step later
      | some result =>
          rw [told] at step
          obtain ⟨rfl, behind⟩ := step
          have stands : Peeks plain.next.2 (call.perform stream).2 := by
            rw [behind]
            exact .same
          obtain ⟨same, reached⟩ := ih stands later
          rw [Option.toList_some, List.singleton_append, List.length_cons]
          refine ⟨?_, reached⟩
          rw [List.range_succ_eq_map, List.map_cons, List.map_map]
          exact congrArg (plain.next.1 :: ·) same

theorem perform_peeks {plain stream : TokenStream} (peeks : Peeks plain stream) (call : Call) :
    ((call.perform stream).1.unplaced = false ∧ (call.perform plain).1.unplaced = false ∨
        (call.perform stream).1 = (call.perform plain).1) ∧
      Peeks (call.perform plain).2 (call.perform stream).2 := by
  cases call with
  | peek =>
      rw [perform, perform, peeks_peek peeks]
      exact ⟨.inr rfl, .same⟩
  | next =>
      rw [perform, perform, peeks_next peeks]
      exact ⟨.inr rfl, .same⟩
  | atEnd =>
      rw [perform, perform, at_end_eq, at_end_eq, peeks_peek peeks]
      exact ⟨.inr rfl, .same⟩
  | position => exact ⟨.inl ⟨rfl, rfl⟩, peeks⟩
  | item =>
      obtain ⟨same, behind⟩ := peeks_item peeks
      exact ⟨.inr (congrArg Answer.item same), behind⟩
  | tokenize =>
      obtain ⟨same, behind⟩ := peeks_tokenize peeks
      exact ⟨.inr (congrArg Answer.tokens same), behind⟩

theorem run_peeks {plain stream : TokenStream} (peeks : Peeks plain stream) (calls : List Call) :
    (run stream calls).1.filter Answer.unplaced = (run plain calls).1.filter Answer.unplaced := by
  induction calls generalizing plain stream with
  | nil => rfl
  | cons call calls ih =>
      obtain ⟨answers, behind⟩ := perform_peeks peeks call
      rw [run_cons, run_cons, List.filter_cons, List.filter_cons, ih behind]
      rcases answers with ⟨here, there⟩ | same
      · rw [here, there]
        rfl
      · rw [same]

theorem perform_alike {a b : TokenStream} (alike : Alike a b) (call : Call) (reads : call.reads = true) :
    (call.perform a).1 = (call.perform b).1 ∧ Alike (call.perform a).2 (call.perform b).2 := by
  cases call with
  | peek =>
      obtain ⟨same, behind⟩ := alike_peek alike
      exact ⟨congrArg Answer.token same, behind⟩
  | next =>
      obtain ⟨same, behind⟩ := alike_next alike
      exact ⟨congrArg Answer.token same, behind⟩
  | atEnd =>
      obtain ⟨same, behind⟩ := alike_peek alike
      rw [perform, perform, at_end_eq, at_end_eq, same]
      exact ⟨rfl, behind⟩
  | position => exact ⟨congrArg Answer.position (alike_position alike), alike⟩
  | item => cases reads
  | tokenize => cases reads

theorem run_alike {a b : TokenStream} (alike : Alike a b) (failed : a.failed = true) (calls : List Call) :
    readings calls (run a calls).1 = (run b (calls.filter reads)).1 ∧
      Alike (run a calls).2 (run b (calls.filter reads)).2 := by
  induction calls generalizing a b with
  | nil => exact ⟨rfl, alike⟩
  | cons call calls ih =>
      cases kind : call.reads with
      | true =>
          obtain ⟨same, behind⟩ := perform_alike alike call kind
          have flag := perform_failed a call
          rw [failed, Bool.true_or] at flag
          obtain ⟨answers, last⟩ := ih behind flag
          rw [List.filter_cons_of_pos kind, run_cons, run_cons]
          simp only [readings, List.zip_cons_cons, kind, List.filter_cons_of_pos, List.map_cons, same]
          exact ⟨congrArg ((call.perform b).1 :: ·) answers, last⟩
      | false =>
          have stays : (call.perform a).2 = a := by
            cases call with
            | item => exact congrArg Prod.snd (item_of_failed failed)
            | tokenize => exact congrArg Prod.snd (tokenize_of_failed a failed)
            | _ => cases kind
          obtain ⟨answers, last⟩ := ih alike failed
          rw [run_cons, stays]
          simp only [readings, List.zip_cons_cons, kind, List.filter_cons]
          exact ⟨answers, last⟩

end Call

end ScriptReader
