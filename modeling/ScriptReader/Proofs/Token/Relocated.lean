import ScriptReader.Proofs.Token.Interleaved
import ScriptReader.Proofs.Token.Joined

set_option autoImplicit false

namespace ScriptReader

namespace Position

-- Where a position of a text lies once the text begins at `base`: only what is on its first line stands
-- behind other characters of a line.
def within (base p : Position) : Position :=
  if p.line = 1 then ⟨base.line, base.column + p.column⟩ else ⟨base.line + p.line - 1, p.column⟩

def lower (lines : Nat) (p : Position) : Position := ⟨p.line + lines, p.column⟩

-- The move goes on with a character as positions do, on every line that a text has.
def Carries (move : Position → Position) : Prop :=
  ∀ p c, 0 < p.line → move (p.advance c) = (move p).advance c

theorem advance_over_line (p : Position) (text : List Char) :
    (p.advanceOver text).line = p.line + text.count '\n' := by
  induction text generalizing p with
  | nil => rfl
  | cons c text ih =>
      rw [advance_over_cons, ih]
      by_cases newline : c = '\n'
      · subst newline
        rw [List.count_cons_self]
        simp only [advance, if_pos]
        omega
      · rw [List.count_cons_of_ne newline]
        simp only [advance, if_neg newline]

theorem advance_over_grounded {p : Position} (grounded : 0 < p.line) (text : List Char) :
    0 < (p.advanceOver text).line := by
  rw [advance_over_line]
  omega

theorem carries_over {move : Position → Position} (carries : Carries move) {p : Position}
    (grounded : 0 < p.line) (text : List Char) :
    move (p.advanceOver text) = (move p).advanceOver text := by
  induction text generalizing p with
  | nil => rfl
  | cons c text ih =>
      have further : 0 < (p.advance c).line := advance_over_grounded grounded [c]
      simp [ih further, carries p c grounded]

theorem within_carries (base : Position) : Carries (within base) := by
  intro p c grounded
  by_cases newline : c = '\n'
  · have later : p.line + 1 ≠ 1 := by omega
    by_cases first : p.line = 1
    · simp [within, advance, newline, first]
    · have lines : base.line + (p.line + 1) - 1 = base.line + p.line - 1 + 1 := by omega
      simp only [within, advance, if_pos newline, if_neg later, if_neg first, lines]
  · by_cases first : p.line = 1
    · simp [within, advance, newline, first, Nat.add_assoc]
    · simp [within, advance, newline, first]

theorem within_start (base : Position) : within base start = base := rfl

theorem lower_carries (lines : Nat) : Carries (lower lines) := by
  intro p c grounded
  by_cases newline : c = '\n'
  · simp only [lower, advance, if_pos newline, Nat.add_right_comm]
  · simp only [lower, advance, if_neg newline]

theorem start_behind_newline (text : List Char) :
    start.advanceOver (text ++ ['\n']) = lower (text.count '\n' + 1) start := by
  have lines := advance_over_line start text
  rw [advance_over_append]
  simp only [advanceOver, List.foldl_cons, List.foldl_nil, advance, if_pos] at lines ⊢
  rw [lines, lower, Nat.add_assoc]
  rfl

end Position

section Relocation

variable (move : Position → Position)

def Token.relocate (token : Token) : Token := ⟨token.kind, move token.position⟩

def LexicalFault.relocate : LexicalFault → LexicalFault
  | .unterminatedLiteral terminator start => .unterminatedLiteral terminator (move start)
  | fault => fault

def LexicalError.relocate (error : LexicalError) : LexicalError :=
  ⟨error.fault.relocate move, move error.position⟩

def relocated {α : Type} (inside : α → α) : Except LexicalError α → Except LexicalError α
  | .ok value => .ok (inside value)
  | .error error => .error (error.relocate move)

def Answer.relocate : Answer → Answer
  | .token result => .token (relocated move (Option.map (Token.relocate move)) result)
  | .flag result => .flag (relocated move id result)
  | .position p => .position (move p)
  | .item result => .item (result.map (relocated move (Token.relocate move)))
  | .tokens result => .tokens (relocated move (List.map (Token.relocate move)) result)

def Cursor.relocate (cursor : Cursor) : Cursor := ⟨cursor.rest, move cursor.position⟩

def TokenStream.relocate (stream : TokenStream) : TokenStream :=
  ⟨stream.cursor.relocate move, stream.peeked.map (Token.relocate move), stream.failed⟩

end Relocation

variable {move : Position → Position}

theorem locate_relocates (move : Position → Position) (flaw : Flaw) (start stop : Position) :
    flaw.locate (move start) (move stop) = (flaw.locate start stop).relocate move := by
  cases flaw <;> rfl

theorem tokens_from_relocates (carries : Position.Carries move) {p : Position} (grounded : 0 < p.line)
    (lexemes : List Lexeme) :
    tokensFrom (move p) lexemes = (tokensFrom p lexemes).map (Token.relocate move) := by
  induction lexemes generalizing p with
  | nil => rfl
  | cons lexeme lexemes ih =>
      have further := Position.advance_over_grounded grounded lexeme.text
      rw [tokens_from_cons, tokens_from_cons, List.map_cons, ← Position.carries_over carries grounded,
        ih further, Lexeme.token, ← Position.carries_over carries grounded]
      rfl

theorem Cursor.token_relocates (carries : Position.Carries move) (cursor : Cursor)
    (grounded : 0 < cursor.position.line) :
    (cursor.relocate move).token =
      (relocated move (Option.map (Token.relocate move)) cursor.token.1,
        cursor.token.2.relocate move) := by
  have start := Position.carries_over carries grounded (read cursor.rest).gap
  have opened := Position.advance_over_grounded grounded (read cursor.rest).gap
  simp only [token, relocate, ← start]
  split
  · rfl
  · rename_i outcome spelling rest found
    rw [← Position.carries_over carries opened]
    cases outcome with
    | ok kind => rfl
    | error flaw =>
        dsimp only
        rw [locate_relocates move]
        rfl

theorem Cursor.token_grounded (cursor : Cursor) (grounded : 0 < cursor.position.line) :
    0 < cursor.token.2.position.line := by
  have opened := Position.advance_over_grounded grounded (read cursor.rest).gap
  simp only [token]
  split
  · exact opened
  · rename_i outcome spelling rest found
    have stopped := Position.advance_over_grounded opened spelling
    cases outcome <;> exact stopped

namespace TokenStream

variable {stream : TokenStream}

theorem next_relocates (carries : Position.Carries move) (grounded : 0 < stream.cursor.position.line) :
    (stream.relocate move).next =
        (relocated move (Option.map (Token.relocate move)) stream.next.1, stream.next.2.relocate move) ∧
      (stream.relocate move).peek =
        (relocated move (Option.map (Token.relocate move)) stream.peek.1, stream.peek.2.relocate move) := by
  obtain ⟨cursor, peeked, failed⟩ := stream
  cases peeked with
  | some held => exact ⟨rfl, rfl⟩
  | none =>
      have moved := Cursor.token_relocates carries cursor grounded
      simp only [next, peek, relocate, Option.map_none, moved]
      cases cursor.token with
      | mk result behind => cases result <;> exact ⟨rfl, rfl⟩

theorem next_grounded (grounded : 0 < stream.cursor.position.line) :
    0 < stream.next.2.cursor.position.line ∧ 0 < stream.peek.2.cursor.position.line := by
  obtain ⟨cursor, peeked, failed⟩ := stream
  cases peeked with
  | some held => exact ⟨grounded, grounded⟩
  | none =>
      have behind := Cursor.token_grounded cursor grounded
      simp only [next, peek]
      cases found : cursor.token with
      | mk result later =>
          rw [found] at behind
          cases result <;> exact ⟨behind, behind⟩

theorem at_end_relocates (carries : Position.Carries move) (grounded : 0 < stream.cursor.position.line) :
    (stream.relocate move).atEnd =
      (relocated move id stream.atEnd.1, stream.atEnd.2.relocate move) := by
  rw [at_end_eq, at_end_eq, (next_relocates carries grounded).2]
  rcases stream.peek.1 with error | _ | token <;> rfl

theorem item_relocates (carries : Position.Carries move) (grounded : 0 < stream.cursor.position.line) :
    (stream.relocate move).item =
        (stream.item.1.map (relocated move (Token.relocate move)), stream.item.2.relocate move) ∧
      0 < stream.item.2.cursor.position.line := by
  cases failed : stream.failed with
  | true =>
      have other : (stream.relocate move).failed = true := failed
      rw [item_of_failed failed, item_of_failed other]
      exact ⟨rfl, grounded⟩
  | false =>
      have other : (stream.relocate move).failed = false := failed
      rw [item_of_unfailed failed, item_of_unfailed other, (next_relocates carries grounded).1]
      refine ⟨?_, (next_grounded grounded).1⟩
      rcases stream.next.1 with error | _ | token <;> rfl

theorem tokenize_relocates (carries : Position.Carries move) (grounded : 0 < stream.cursor.position.line) :
    (stream.relocate move).tokenize =
        (relocated move (List.map (Token.relocate move)) stream.tokenize.1,
          stream.tokenize.2.relocate move) ∧
      0 < stream.tokenize.2.cursor.position.line := by
  obtain ⟨cursor, peeked, failed⟩ := stream
  cases failed with
  | true => exact ⟨rfl, grounded⟩
  | false =>
      replace grounded : 0 < cursor.position.line := grounded
      have tokens := tokens_from_relocates carries grounded (transcript cursor.rest).lexemes
      have behind := Position.advance_over_grounded grounded
        ((transcript cursor.rest).lexemes.flatMap Lexeme.text)
      have opened := Position.advance_over_grounded behind (transcript cursor.rest).gap
      simp only [tokensFrom] at tokens
      simp only [tokenize, relocate, Cursor.relocate, Bool.false_eq_true, if_false, place_end,
        ← Position.carries_over carries grounded, ← Position.carries_over carries behind, tokens]
      cases (transcript cursor.rest).ending with
      | complete =>
          refine ⟨?_, opened⟩
          cases peeked <;> simp [relocated]
      | flawed flaw passed rest =>
          refine ⟨?_, Position.advance_over_grounded opened passed⟩
          dsimp only
          rw [← Position.carries_over carries opened, locate_relocates move]
          rfl

theorem tokenize_of_next {a b : TokenStream} (unfailed : a.failed = false) (other : b.failed = false)
    (same : a.next = b.next) : a.tokenize = b.tokenize := by
  rw [tokenize_item a, tokenize_item b, item_of_unfailed unfailed, item_of_unfailed other, same]

end TokenStream

namespace Call

theorem perform_relocates (carries : Position.Carries move) {stream : TokenStream}
    (grounded : 0 < stream.cursor.position.line) (call : Call) :
    call.perform (stream.relocate move) =
        ((call.perform stream).1.relocate move, (call.perform stream).2.relocate move) ∧
      0 < (call.perform stream).2.cursor.position.line := by
  cases call with
  | peek =>
      simp only [perform, (TokenStream.next_relocates carries grounded).2]
      exact ⟨rfl, (TokenStream.next_grounded grounded).2⟩
  | next =>
      simp only [perform, (TokenStream.next_relocates carries grounded).1]
      exact ⟨rfl, (TokenStream.next_grounded grounded).1⟩
  | atEnd =>
      simp only [perform, TokenStream.at_end_relocates carries grounded]
      refine ⟨rfl, ?_⟩
      rw [TokenStream.at_end_eq]
      exact (TokenStream.next_grounded grounded).2
  | position =>
      refine ⟨?_, grounded⟩
      obtain ⟨cursor, peeked, failed⟩ := stream
      cases peeked <;> rfl
  | item =>
      obtain ⟨moved, further⟩ := TokenStream.item_relocates carries grounded
      simp only [perform, moved]
      exact ⟨rfl, further⟩
  | tokenize =>
      obtain ⟨moved, further⟩ := TokenStream.tokenize_relocates carries grounded
      simp only [perform, moved]
      exact ⟨rfl, further⟩

theorem run_relocates (carries : Position.Carries move) {stream : TokenStream}
    (grounded : 0 < stream.cursor.position.line) (calls : List Call) :
    (run (stream.relocate move) calls).1 = (run stream calls).1.map (Answer.relocate move) := by
  induction calls generalizing stream with
  | nil => rfl
  | cons call calls ih =>
      obtain ⟨moved, further⟩ := perform_relocates carries grounded call
      rw [run_cons, run_cons, moved, ih further]
      rfl

end Call

section Behind

variable {a b : List Char}

theorem read_behind_newline (final : FinalGap a) (b : List Char) :
    read (a ++ '\n' :: b) = ⟨a ++ '\n' :: (read b).gap, (read b).lexed⟩ := by
  have joined := read_through_gap (gap_newline final) b
  rwa [List.append_assoc, List.append_assoc] at joined

theorem next_behind_newline (final : FinalGap a) (b : List Char) (p : Position) :
    (TokenStream.openAt (a ++ '\n' :: b) p).next =
      (TokenStream.openAt b (p.advanceOver (a ++ ['\n']))).next := by
  simp only [TokenStream.next, TokenStream.openAt, TokenStream.ofCursor, Cursor.token,
    read_behind_newline final b]
  rw [List.append_cons a, Position.advance_over_append]

theorem tokenize_behind_newline {lexemes : List Lexeme} {last : List Char} (tiles : Tiles a lexemes last)
    (b : List Char) (p : Position) :
    (TokenStream.openAt (a ++ '\n' :: b) p).tokenize.1 =
      (TokenStream.openAt b (p.advanceOver (a ++ ['\n']))).tokenize.1.map (tokensFrom p lexemes ++ ·) := by
  induction tiles generalizing p with
  | done final =>
      rw [TokenStream.tokenize_of_next rfl rfl (next_behind_newline final b p)]
      cases (TokenStream.openAt b _).tokenize.1 <;> rfl
  | @next gap spelling rest last kind lexemes skips spells ends later ih =>
      have reading := (read_eq_iff _ _ _ _ _).mpr ⟨rfl, skips, spells, ends_before_line ends b⟩
      have taken := TokenStream.next_of_token (gap ++ (spelling ++ (rest ++ '\n' :: b))) spelling
        (rest ++ '\n' :: b) kind p (by rw [reading])
      rw [reading] at taken
      have whole : gap ++ (spelling ++ rest) ++ '\n' :: b = gap ++ (spelling ++ (rest ++ '\n' :: b)) := by
        simp
      rw [whole, TokenStream.tokenize_item, TokenStream.item_of_unfailed rfl, taken]
      simp only [TokenStream.itemOf, Option.map_some, ih, tokens_from_cons, Lexeme.text]
      simp only [List.append_assoc, Position.advance_over_append]
      cases (TokenStream.openAt b _).tokenize.1 <;> rfl

end Behind

theorem reading_relocates :
    (∀ (source : String) (count : Nat) (calls : List Call),
      let cursor := (Cursor.ofString source).skip count
      (Call.run (.ofCursor cursor) calls).1 =
        (Call.run (.ofString (String.ofList (source.toList.drop count))) calls).1.map
          (Answer.relocate (Position.within cursor.position))) ∧
      ∀ (a b : String) (tokens : List Token), tokenize a = .ok tokens →
        tokenize (a ++ "\n" ++ b) =
          match tokenize b with
          | .ok further =>
              .ok (tokens ++ further.map (Token.relocate (Position.lower (a.toList.count '\n' + 1))))
          | .error error => .error (error.relocate (Position.lower (a.toList.count '\n' + 1))) := by
  constructor
  · intro source count calls cursor
    have carries := Position.within_carries cursor.position
    have grounded : 0 < (TokenStream.ofString (String.ofList (source.toList.drop count))).cursor.position.line :=
      Nat.one_pos
    have same : TokenStream.ofCursor cursor =
        (TokenStream.ofString (String.ofList (source.toList.drop count))).relocate
          (Position.within cursor.position) := by
      have rest : cursor.rest = source.toList.drop count := by
        rw [show cursor = (Cursor.ofString source).skip count from rfl, Cursor.skip_eq]
        rfl
      simp only [TokenStream.ofCursor, TokenStream.ofString, TokenStream.relocate, Cursor.relocate,
        Cursor.ofString, Cursor.ofText, String.toList_ofList, ← rest, Position.within_start, Option.map_none]
    rw [same, Call.run_relocates carries grounded]
  · intro a b tokens lexed
    obtain ⟨complete, rfl⟩ := (tokenize_ok_iff a tokens).mp lexed
    have tiles := (transcript_complete_iff a.toList (transcript a.toList).lexemes
      (transcript a.toList).gap).mp (by rw [← complete])
    have joined := tokenize_behind_newline tiles b.toList .start
    have text : (a ++ "\n" ++ b).toList = a.toList ++ '\n' :: b.toList := by simp
    have below : TokenStream.openAt b.toList (Position.start.advanceOver (a.toList ++ ['\n'])) =
        (TokenStream.ofString b).relocate (Position.lower (a.toList.count '\n' + 1)) := by
      rw [Position.start_behind_newline]
      rfl
    have grounded : 0 < (TokenStream.ofString b).cursor.position.line := Nat.one_pos
    have moved := (TokenStream.tokenize_relocates (Position.lower_carries (a.toList.count '\n' + 1))
      grounded).1
    rw [below, moved, ← text, ← TokenStream.of_string_eq] at joined
    rw [tokenize, joined, tokenize]
    cases (TokenStream.ofString b).tokenize.1 <;> rfl

theorem literal_behind_comment :
    tokenize "f # '" = .ok [⟨.identifier "f", ⟨1, 0⟩⟩] ∧
      tokenize "y\n\"z" = .error ⟨.unterminatedLiteral '"' ⟨2, 0⟩, ⟨2, 2⟩⟩ ∧
      tokenize ("f # '" ++ "\n" ++ "y\n\"z") = .error ⟨.unterminatedLiteral '"' ⟨3, 0⟩, ⟨3, 2⟩⟩ := by
  have lexed : tokenize "f # '" = .ok [⟨.identifier "f", ⟨1, 0⟩⟩] := by with_unfolding_all rfl
  have flawed : tokenize "y\n\"z" = .error ⟨.unterminatedLiteral '"' ⟨2, 0⟩, ⟨2, 2⟩⟩ := by
    with_unfolding_all rfl
  have joined := reading_relocates.2 "f # '" "y\n\"z" _ lexed
  rw [flawed] at joined
  exact ⟨lexed, flawed, joined⟩

end ScriptReader
