import ScriptReader.Proofs.Demand.Program
import ScriptReader.Proofs.Grammar.Guard
import ScriptReader.Proofs.Phrase.Exact

set_option autoImplicit false

namespace ScriptReader.Phrase

open Rule
open Greedy (Stops)

variable {α : Type}

-- What stands behind a phrase looks alike if it begins alike or goes on with no expression.
def Alike (a b : List TokenKind) : Prop := a.head? = b.head? ∨ Stops true a ∧ Stops true b

def Unbound (phrase : Phrase α) : Prop :=
  ∀ taken value a b, phrase taken value a → Alike a b → phrase taken value b

theorem alike_cons (kind : TokenKind) (a b : List TokenKind) : Alike (kind :: a) (kind :: b) := .inl rfl

theorem alike_append {a b : List TokenKind} (front : List TokenKind) (alike : Alike a b) :
    Alike (front ++ a) (front ++ b) := by
  cases front with
  | nil => exact alike
  | cons kind front => exact alike_cons kind (front ++ a) (front ++ b)

theorem opens_with_alike {c : Char} {a b : List TokenKind} (same : a.head? = b.head?) :
    opensWith c a = opensWith c b := by
  rw [Reader.opens_with_head, Reader.opens_with_head, same]

theorem operator_above_alike (floor : Nat) {a b : List TokenKind} (alike : Alike a b)
    (below : operatorAbove floor a = none) : operatorAbove floor b = none := by
  rcases alike with same | ⟨_, stops⟩
  · rw [Reader.operator_above_eq, Option.map_eq_none_iff] at below ⊢
    rwa [← same]
  · exact operator_above_of_zero floor b stops.operator

theorem call_alike {a b : List TokenKind} (alike : Alike a b) (apart : opensWith '(' a = false) :
    opensWith '(' b = false := by
  rcases alike with same | ⟨_, stops⟩
  · rwa [← opens_with_alike same]
  · exact stops.call

theorem opens_else_head (tokens : List TokenKind) :
    opensElse tokens = (tokens.head? == some (.keyword .elseWord)) := by
  unfold opensElse
  split
  · rfl
  · rename_i other
    symm
    rw [beq_eq_false_iff_ne]
    intro same
    obtain ⟨rest, rfl⟩ := List.head?_eq_some_iff.mp same
    exact other rest rfl

theorem else_alike {a b : List TokenKind} (alike : Alike a b) (alone : opensElse a = false) :
    opensElse b = false := by
  rcases alike with same | ⟨_, stops⟩
  · rwa [opens_else_head, ← same, ← opens_else_head]
  · exact stops.other rfl

theorem no_more_alike {ends : List TokenKind → Bool} {a b : List TokenKind}
    (heads : ∀ a b : List TokenKind, a.head? = b.head? → ends a = ends b) (same : a.head? = b.head?) :
    noMore ends a = noMore ends b := by
  rw [noMore, noMore, heads a b same, Reader.is_empty_head, Reader.is_empty_head, same]

theorem head_append {a b : List TokenKind} (front : List TokenKind) (same : a.head? = b.head?) :
    (front ++ a).head? = (front ++ b).head? := by
  rw [List.head?_append, List.head?_append, same]

section Lists

variable {element : Phrase α} {separator : Char} {ends : List TokenKind → Bool}

theorem further_unbound (unbound : Unbound element)
    (heads : ∀ a b : List TokenKind, a.head? = b.head? → ends a = ends b) {taken a b : List TokenKind}
    {values : List α} (further : Further element separator ends taken values a)
    (same : a.head? = b.head?) : Further element separator ends taken values b := by
  induction further with
  | done ended => exact .done (no_more_alike heads same ▸ ended)
  | trailing ended => exact .trailing (heads _ _ same ▸ ended)
  | @next taken more rest value values unended read later ih =>
      have behind := head_append more same
      refine .next ?_ (unbound _ _ _ _ read (.inl behind)) (ih same)
      rw [← heads _ _ (head_append taken behind)]
      exact unended

theorem listed_unbound (unbound : Unbound element)
    (heads : ∀ a b : List TokenKind, a.head? = b.head? → ends a = ends b) {taken a b : List TokenKind}
    {values : List α} (listed : Listed element separator ends taken values a)
    (same : a.head? = b.head?) : Listed element separator ends taken values b := by
  cases listed with
  | none ended => exact .none (no_more_alike heads same ▸ ended)
  | @some taken more _ value _ unended read later =>
      have behind := head_append more same
      refine .some ?_ (unbound _ _ _ _ read (.inl behind)) (further_unbound unbound heads later same)
      rw [← no_more_alike heads (head_append taken behind)]
      exact unended

theorem enclosed_unbound {opening closing : Char} (unbound : Unbound element)
    {taken a b : List TokenKind} {values : List α}
    (enclosed : Enclosed opening closing separator element taken values a) :
    Enclosed opening closing separator element taken values b := by
  obtain ⟨listed⟩ := enclosed
  exact .mk (listed_unbound unbound (fun _ _ => opens_with_alike) listed rfl)

end Lists

theorem parameter_unbound : Unbound Parameter := by
  intro taken name a b read _
  cases read
  exact .mk name b

section Operands

variable {inner : Phrase Node}

theorem primary_unbound (unbound : Unbound inner)
    (filled : ∀ taken node rest, inner taken node rest → taken ≠ []) : Unbound (Primary inner) := by
  intro taken node a b primary alike
  cases primary with
  | number text => exact .number text b
  | string value => exact .string value b
  | character value => exact .character value b
  | identifier name => exact .identifier name b
  | yes => exact .yes b
  | no => exact .no b
  | group read => exact .group (unbound _ _ _ _ read (alike_cons _ _ _))
  | block listed => exact .block (enclosed_unbound unbound listed)
  | function listed read =>
      exact .function (enclosed_unbound parameter_unbound listed) (unbound _ _ _ _ read alike)
  | @ifThen first second _ _ _ condition opens branch alone =>
      have behind : (second ++ a).head? = (second ++ b).head? := by
        obtain ⟨kind, more, rfl⟩ := List.exists_cons_of_ne_nil (filled _ _ _ branch)
        rfl
      exact .ifThen (unbound _ _ _ _ condition (.inl behind)) (opens_with_alike behind ▸ opens)
        (unbound _ _ _ _ branch alike) (else_alike alike alone)
  | @ifElse first second third _ _ _ _ condition opens branch other =>
      have behind : (second ++ .keyword .elseWord :: (third ++ a)).head? =
          (second ++ .keyword .elseWord :: (third ++ b)).head? := head_append second rfl
      exact .ifElse (unbound _ _ _ _ condition (.inl behind)) (opens_with_alike behind ▸ opens)
        (unbound _ _ _ _ branch (alike_cons _ _ _)) (unbound _ _ _ _ other alike)

theorem calls_unbound (unbound : Unbound inner) {callee node : Node} {taken a b : List TokenKind}
    (calls : Calls inner callee taken node a) (alike : Alike a b) : Calls inner callee taken node b := by
  induction calls with
  | done apart => exact .done (call_alike alike apart)
  | further listed later ih => exact .further (enclosed_unbound unbound listed) (ih alike)

theorem operand_unbound (unbound : Unbound inner)
    (filled : ∀ taken node rest, inner taken node rest → taken ≠ []) : Unbound (Operand inner) := by
  rintro _ node a b ⟨primary, calls⟩ alike
  exact .mk (primary_unbound unbound filled _ _ _ _ primary (alike_append _ alike))
    (calls_unbound unbound calls alike)

end Operands

theorem climbing_unbound {operand : Phrase Node} {rise : Nat → Node → Phrase Node}
    (operands : Unbound operand) (rises : ∀ floor left, Unbound (rise floor left)) (floor : Nat)
    (left : Node) : Unbound (Climbing operand rise floor left) := by
  intro taken node a b climbing alike
  induction climbing with
  | done below => exact .done (operator_above_alike floor alike below)
  | further op above read risen later ih =>
      exact .further op above (operands _ _ _ _ read (alike_append _ (alike_append _ alike)))
        (rises _ _ _ _ _ _ risen (alike_append _ alike)) (ih alike)

theorem expression_filled {level : Nat} {taken rest : List TokenKind} {node : Node}
    (read : Expression level taken node rest) : taken ≠ [] := by
  obtain ⟨kind, more, rfl, _⟩ := Greedy.sentence_begins (Greedy.expression_sentence read).1
  exact List.cons_ne_nil kind more

theorem level_unbound (level : Nat) :
    Unbound (Expression level) ∧ ∀ floor left, Unbound (Climb level floor left) := by
  induction level with
  | zero =>
      refine ⟨?_, fun floor left => ?_⟩
      · rw [expression_zero]
        exact fun _ _ _ _ read => read.elim
      · rw [climb_zero]
        exact climbing_unbound (fun _ _ _ _ read => read.elim) (fun _ _ _ _ _ _ read => read.elim) floor left
  | succ level ih =>
      have operands := operand_unbound ih.1 fun _ _ _ => expression_filled
      have climbs : ∀ floor left, Unbound (Climb (level + 1) floor left) := by
        rw [Phrase.climb_succ]
        exact climbing_unbound operands ih.2
      refine ⟨fun taken node a b read alike => ?_, climbs⟩
      obtain ⟨front, behind, first, rfl, opened, climbed⟩ := (expression_succ _ _ _ _).mp read
      exact (expression_succ _ _ _ _).mpr ⟨front, behind, first, rfl,
        operands _ _ _ _ opened (alike_append behind alike), climbs 0 first _ _ _ _ climbed alike⟩

theorem expression_in_context {level : Nat} {tokens : List TokenKind} {node : Node}
    (read : Expression level tokens node []) {rest : List TokenKind} (stops : Stops true rest) :
    Expression level tokens node rest :=
  (level_unbound level).1 tokens node [] rest read (.inr ⟨Greedy.stops_nil true, stops⟩)

theorem phrase_of_guards {low high : Rule Node} {first second : Phrase Node} (reads : Reads low first)
    (guards : Guards low high) (further : Reads high second) {tokens rest : List TokenKind} {node : Node}
    (read : first tokens node rest) : second tokens node rest := by
  have accepted := reads.accepts tokens node rest read
  rcases guards (tokens ++ rest) with same | ⟨looked, unread, deep⟩
  · rw [accepted] at same
    obtain ⟨taken, whole, again⟩ := further.takes _ node rest same.symm
    rwa [List.append_cancel_right whole]
  · rw [accepted] at deep
    cases deep

theorem operand_next_level {level : Nat} {tokens rest : List TokenKind} {node : Node}
    (read : Operand (Expression level) tokens node rest) :
    Operand (Expression (level + 1)) tokens node rest :=
  phrase_of_guards (operand_reads (expression_reads level) (expression_shortens level))
    (operand_over_guards (next_level_guards level).1)
    (operand_reads (expression_reads (level + 1)) (expression_shortens (level + 1))) read

end ScriptReader.Phrase
