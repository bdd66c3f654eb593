import ScriptReader.Proofs.Token.Advance

set_option autoImplicit false

namespace ScriptReader

namespace Position

theorem order_of_gt {p q : Position} (less : q < p) : p.order q = .gt := by
  rw [lt_def] at less
  simp only [order, Ordering.then_eq_gt, Nat.compare_eq_gt, Nat.compare_eq_eq]
  omega

theorem order_self (p : Position) : p.order p = .eq := by
  simp [order]

def ofOffset (text : List Char) (offset : Nat) : Position := start.advanceOver (text.take offset)

theorem offset_lt {text : List Char} {i j : Nat} (less : i < j) (within : j ≤ text.length) :
    ofOffset text i < ofOffset text j := by
  have split : text.take j = text.take i ++ (text.take j).drop i := by
    rw [← Nat.min_eq_left (Nat.le_of_lt less), ← List.take_take, Nat.min_eq_left (Nat.le_of_lt less),
      List.take_append_drop]
  have filled : (text.take j).drop i ≠ [] := by
    rw [← List.length_pos_iff, List.length_drop, List.length_take_of_le within]
    exact Nat.sub_pos_of_lt less
  rw [ofOffset, ofOffset, split, advance_over_append]
  exact lt_advance_over _ _ filled

theorem order_of_offsets {text : List Char} {i j : Nat} (first : i ≤ text.length)
    (second : j ≤ text.length) : (ofOffset text i).order (ofOffset text j) = compare i j := by
  rcases Nat.lt_trichotomy i j with less | rfl | more
  · rw [Nat.compare_eq_lt.mpr less]
    exact (lt_iff_order _ _).mp (offset_lt less second)
  · rw [order_self, Nat.compare_eq_eq.mpr rfl]
  · rw [Nat.compare_eq_gt.mpr more]
    exact order_of_gt (offset_lt more first)

theorem offset_ne {text : List Char} {i j : Nat} (first : i ≤ text.length) (second : j ≤ text.length)
    (different : i ≠ j) : ofOffset text i ≠ ofOffset text j := by
  intro same
  have order := order_of_offsets first second
  rw [same, order_self] at order
  exact different (Nat.compare_eq_eq.mp order.symm)

end Position

namespace Cursor

-- The cursors that one cursor at the beginning of a text becomes by calls of `next` and by copies.
inductive Pool (text : List Char) : List Cursor → Prop where
  | opened : Pool text [ofText text]
  | next {front behind : List Cursor} {cursor : Cursor} (pool : Pool text (front ++ cursor :: behind)) :
      Pool text (front ++ cursor.next.2 :: behind)
  | copied {cursors : List Cursor} {cursor : Cursor} (pool : Pool text cursors)
      (member : cursor ∈ cursors) : Pool text (cursors ++ [cursor])

structure At (text : List Char) (offset : Nat) (cursor : Cursor) : Prop where
  within : offset ≤ text.length
  rest : cursor.rest = text.drop offset
  position : cursor.position = Position.ofOffset text offset

variable {text : List Char} {offset : Nat} {cursor : Cursor}

theorem at_next (here : At text offset cursor) : ∃ further, At text further cursor.next.2 := by
  obtain ⟨rest, position⟩ := cursor
  obtain ⟨within, rfl, rfl⟩ := here
  cases behind : text.drop offset with
  | nil => exact ⟨offset, within, behind.symm, rfl⟩
  | cons c rest =>
      have inside : offset < text.length := by
        rw [← Nat.not_le, ← List.drop_eq_nil_iff, behind]
        exact List.cons_ne_nil c rest
      rw [List.drop_eq_getElem_cons inside] at behind
      obtain ⟨rfl, rfl⟩ := List.cons.inj behind
      refine ⟨offset + 1, inside, rfl, ?_⟩
      show _ = Position.start.advanceOver (text.take (offset + 1))
      rw [List.take_succ_eq_append_getElem inside, Position.advance_over_append]
      rfl

theorem pool_at {cursors : List Cursor} (pool : Pool text cursors) :
    ∀ cursor ∈ cursors, ∃ offset, At text offset cursor := by
  induction pool with
  | opened =>
      intro cursor member
      obtain rfl := List.mem_singleton.mp member
      exact ⟨0, Nat.zero_le _, rfl, rfl⟩
  | @next front behind moved pool ih =>
      intro cursor member
      rcases List.mem_append.mp member with before | member
      · exact ih cursor (List.mem_append_left _ before)
      · rcases List.mem_cons.mp member with rfl | after
        · obtain ⟨offset, here⟩ := ih moved (by simp)
          exact at_next here
        · exact ih cursor (by simp [after])
  | copied pool member ih =>
      intro cursor other
      rcases List.mem_append.mp other with before | copy
      · exact ih cursor before
      · exact List.mem_singleton.mp copy ▸ ih _ member

end Cursor

-- Tokens one behind the other, the first at `p` or behind it and the end of the last before `q`.
inductive Ascends : Position → List Token → Position → Prop where
  | none {p q : Position} (further : p ≤ q) : Ascends p [] q
  | next {p q r : Position} {token : Token} {tokens : List Token} (before : p ≤ token.position)
      (past : token.position < q) (later : Ascends q tokens r) : Ascends p (token :: tokens) r

section Ascends

variable {p q r : Position} {tokens more : List Token}

theorem ascends_from (further : p ≤ q) (ascends : Ascends q tokens r) : Ascends p tokens r := by
  cases ascends with
  | none last => exact .none (Position.le_trans further last)
  | next before past later => exact .next (Position.le_trans further before) past later

theorem ascends_append (first : Ascends p tokens q) (second : Ascends q more r) :
    Ascends p (tokens ++ more) r := by
  induction first with
  | none further => exact ascends_from further second
  | next before past later ih => exact .next before past (ih second)

theorem le_of_ascends (ascends : Ascends p tokens q) : p ≤ q := by
  induction ascends with
  | none further => exact further
  | next before past later ih =>
      exact Position.le_trans before (Position.le_trans (.inl past) ih)

theorem lt_of_ascends (ascends : Ascends p tokens q) (filled : tokens ≠ []) : p < q := by
  cases ascends with
  | none further => exact absurd rfl filled
  | next before past later =>
      exact Position.lt_of_lt_of_le (Position.lt_of_le_of_lt before past) (le_of_ascends later)

theorem le_of_ascends_mem (ascends : Ascends p tokens q) (token : Token) (member : token ∈ tokens) :
    p ≤ token.position := by
  induction ascends with
  | none further => cases member
  | next before past later ih =>
      rcases List.mem_cons.mp member with rfl | inside
      · exact before
      · exact Position.le_trans before (Position.le_trans (.inl past) (ih inside))

theorem ascends_increasing (ascends : Ascends p tokens q) :
    tokens.Pairwise fun a b => a.position < b.position := by
  induction ascends with
  | none further => exact .nil
  | next before past later ih =>
      refine List.pairwise_cons.mpr ⟨fun token member => ?_, ih⟩
      exact Position.lt_of_lt_of_le past (le_of_ascends_mem later token member)

end Ascends

namespace Call

-- A look ahead hands nothing over.
def handed : Call → Answer → List Token
  | .next, .token (.ok (some token)) => [token]
  | .item, .item (some (.ok token)) => [token]
  | .tokenize, .tokens (.ok tokens) => tokens
  | _, _ => []

def allHanded (calls : List Call) (answers : List Answer) : List Token :=
  (calls.zip answers).flatMap fun (call, answer) => call.handed answer

end Call

namespace TokenStream

variable {stream : TokenStream}

theorem next_ascends (sound : Sound stream) :
    Ascends stream.position (Call.next.handed (.token stream.next.1)) stream.next.2.position := by
  have moves := next_moves sound
  have front := front stream
  generalize stream.next = taken, stream.peek = shown at front moves ⊢
  cases front with
  | held cursor token => exact .next (.inr rfl) (sound token rfl) (.none (.inr rfl))
  | found _ read =>
      obtain ⟨before, past, _⟩ := Cursor.token_found read
      exact .next before past (.none (.inr rfl))
  | ended | flawed => exact .none moves.position

theorem item_ascends (sound : Sound stream) :
    Ascends stream.position (Call.item.handed (.item stream.item.1)) stream.item.2.position := by
  cases failed : stream.failed with
  | true =>
      rw [item_of_failed failed]
      exact .none (.inr rfl)
  | false =>
      have ascends := next_ascends sound
      rw [item_of_unfailed failed]
      rcases taken : stream.next.1 with error | _ | token <;> rwa [taken] at ascends

theorem tokenize_ascends {stream : TokenStream} (sound : Sound stream) :
    Ascends stream.position (Call.tokenize.handed (.tokens stream.tokenize.1))
      stream.tokenize.2.position := by
  have first := item_ascends sound
  have behind := sound_lasting.item sound
  have fewer : ∀ token, stream.item.1 = some (.ok token) → stream.item.2.unread < stream.unread := by
    intro token taken
    cases failed : stream.failed with
    | true =>
        rw [item_of_failed failed] at taken
        cases taken
    | false =>
        rw [item_of_unfailed failed] at taken ⊢
        rcases same : stream.next.1 with error | _ | other <;> rw [same] at taken <;> cases taken
        exact (next_advances sound same).unread
  rw [tokenize_item]
  generalize stream.item = answer at first behind fewer
  obtain ⟨result, after⟩ := answer
  rcases result with _ | error | token
  · exact first
  · exact first
  · have shorter : after.unread < stream.unread := fewer token rfl
    have later := tokenize_ascends behind
    dsimp only at later ⊢
    cases read : after.tokenize.1 with
    | ok tokens =>
        rw [read] at later
        exact ascends_append first later
    | error error => exact .none (Position.le_trans (le_of_ascends first) (le_of_ascends later))
termination_by stream.unread
decreasing_by exact shorter

end TokenStream

namespace Call

open TokenStream

variable {stream : TokenStream}

theorem perform_ascends (sound : Sound stream) (call : Call) :
    Ascends stream.position (call.handed (call.perform stream).1) (call.perform stream).2.position := by
  cases call with
  | next => exact next_ascends sound
  | item => exact item_ascends sound
  | tokenize => exact tokenize_ascends sound
  | position => exact .none (.inr rfl)
  | peek => exact .none (peek_moves stream).position
  | atEnd =>
      rw [perform, at_end_eq]
      exact .none (peek_moves stream).position

theorem run_ascends (sound : Sound stream) (calls : List Call) :
    Ascends stream.position (allHanded calls (run stream calls).1) (run stream calls).2.position := by
  induction calls generalizing stream with
  | nil => exact .none (.inr rfl)
  | cons call calls ih =>
      have later := ih (perform_lasting sound_lasting sound call)
      exact ascends_append (perform_ascends sound call) later

end Call

theorem positions_ascend (text : List Char) :
    (∀ i j, i ≤ text.length → j ≤ text.length →
      (i ≠ j → Position.ofOffset text i ≠ Position.ofOffset text j) ∧
        (Position.ofOffset text i).order (Position.ofOffset text j) = compare i j) ∧
      ∀ cursors, Cursor.Pool text cursors → ∀ cursor ∈ cursors,
        (∃ offset, cursor.At text offset) ∧
          ∀ calls,
            let stream := (Call.run (.ofCursor cursor) calls).2
            (∀ token, stream.peeked = some token → stream.position = token.position) ∧
              (∀ call : Call,
                let (answer, after) := call.perform stream
                stream.position ≤ after.position ∧
                  (call.handed answer ≠ [] → stream.position < after.position)) ∧
              (Call.allHanded calls (Call.run (.ofCursor cursor) calls).1).Pairwise
                fun a b => a.position < b.position := by
  have fresh (cursor : Cursor) : TokenStream.Sound (.ofCursor cursor) := TokenStream.sound_of_nothing rfl
  refine ⟨fun i j first second => ?_, fun cursors pool cursor member => ?_⟩
  · exact ⟨Position.offset_ne first second, Position.order_of_offsets first second⟩
  · refine ⟨Cursor.pool_at pool cursor member, fun calls => ⟨fun token held => ?_, fun call => ?_, ?_⟩⟩
    · rw [TokenStream.position, held]
    · have ascends := Call.perform_ascends (Call.run_sound (fresh cursor) calls) call
      exact ⟨le_of_ascends ascends, lt_of_ascends ascends⟩
    · exact ascends_increasing (Call.run_ascends (fresh cursor) calls)

theorem position_behind_malformed_number :
    let text := "a\n1.2.3 b".toList
    let moved := (Cursor.ofText text).next.2.next.2
    let stream := (Call.run (.ofCursor moved) [.next, .peek]).2
    (Position.ofOffset text 1).order (Position.ofOffset text 2) = .lt ∧
      Cursor.Pool text [Cursor.ofText text, moved] ∧
      (∃ offset, moved.At text offset) ∧
      stream.cursor.position = ⟨2, 4⟩ ∧ stream.position = ⟨2, 3⟩ ∧
      stream.position < stream.next.2.position := by
  intro text moved stream
  have copied : Cursor.Pool text [Cursor.ofText text, Cursor.ofText text] :=
    .copied .opened (List.mem_singleton_self _)
  have pool : Cursor.Pool text [Cursor.ofText text, moved] :=
    @Cursor.Pool.next _ [_] [] _ (@Cursor.Pool.next _ [_] [] _ copied)
  obtain ⟨offsets, cursors⟩ := positions_ascend text
  have order := (offsets 1 2 (by decide) (by decide)).2
  obtain ⟨here, calls⟩ := cursors _ pool moved (by simp)
  obtain ⟨shown, ascends, _⟩ := calls [.next, .peek]
  have held : stream.peeked = some ⟨.punctuation '.', ⟨2, 3⟩⟩ := by with_unfolding_all rfl
  have handed : Call.next.handed (Call.next.perform stream).1 ≠ [] := by
    rw [show (Call.next.perform stream).1 = .token (.ok (some ⟨.punctuation '.', ⟨2, 3⟩⟩)) by
      with_unfolding_all rfl]
    exact List.cons_ne_nil _ _
  refine ⟨order, pool, here, by with_unfolding_all rfl, shown _ held, (ascends .next).2 handed⟩

end ScriptReader
