import ScriptReader.Proofs.Phrase.Sequences

set_option autoImplicit false

namespace ScriptReader.Rule

open Phrase

section Operands

variable {inner : Inner} {phrase : Phrase Node}

theorem group_takes (reads : ∀ looked, Reads (inner looked) phrase) (tokens rest : List TokenKind)
    (node : Node) (read : group inner tokens = .ok (node, rest)) :
    ∃ taken, tokens = taken ++ rest ∧ Primary phrase taken node rest := by
  obtain ⟨inside, rfl, middle⟩ := bracketed_ok read
  obtain ⟨taken, rfl, grouped⟩ := (reads false).takes _ _ _ middle
  exact ⟨_, by simp, .group grouped⟩

theorem block_takes (reads : ∀ looked, Reads (inner looked) phrase)
    (shortens : ∀ looked, Shortens (inner looked)) (tokens rest : List TokenKind) (node : Node)
    (read : block inner tokens = .ok (node, rest)) :
    ∃ taken, tokens = taken ++ rest ∧ Primary phrase taken node rest := by
  obtain ⟨⟨statements, last⟩, middle, read⟩ := bind_ok read
  have listed := enclosed_reads '\x7b' '\x7d' ';' (by decide) (reads true) (shortens true)
  cases read
  obtain ⟨taken, rfl, inside⟩ := listed.takes _ _ _ middle
  exact ⟨taken, rfl, .block inside⟩

theorem alternative_else (tokens : List TokenKind) :
    alternative inner (.keyword .elseWord :: tokens) =
      (inner false tokens).bind fun (node, tokens) => .ok (some node, tokens) := rfl

theorem alternative_none (tokens : List TokenKind) (alone : opensElse tokens = false) :
    alternative inner tokens = .ok (none, tokens) := by
  unfold alternative
  split
  · cases alone
  · rfl

theorem alternative_takes (reads : ∀ looked, Reads (inner looked) phrase)
    (tokens rest : List TokenKind) (other : Option Node)
    (read : alternative inner tokens = .ok (other, rest)) :
    (other = none ∧ tokens = rest ∧ opensElse rest = false) ∨
      ∃ node taken, other = some node ∧ tokens = .keyword .elseWord :: (taken ++ rest) ∧
        phrase taken node rest := by
  cases alone : opensElse tokens with
  | false =>
      rw [alternative_none tokens alone] at read
      cases read
      exact .inl ⟨rfl, rfl, alone⟩
  | true =>
      unfold opensElse at alone
      split at alone
      · rename_i behind
        obtain ⟨⟨node, last⟩, first, read⟩ := bind_ok read
        cases read
        obtain ⟨taken, rfl, inside⟩ := (reads false).takes _ _ _ first
        exact .inr ⟨node, taken, rfl, rfl, inside⟩
      · cases alone

theorem conditional_takes (reads : ∀ looked, Reads (inner looked) phrase)
    (tokens rest : List TokenKind) (node : Node)
    (read : conditional inner tokens = .ok (node, rest)) :
    ∃ taken, tokens = taken ++ rest ∧ Primary phrase (.keyword .ifWord :: taken) node rest := by
  obtain ⟨⟨condition, behind⟩, first, read⟩ := bind_ok read
  dsimp only at read
  split at read
  · rename_i opens
    obtain ⟨⟨branch, later⟩, second, read⟩ := bind_ok read
    obtain ⟨⟨other, last⟩, third, built⟩ := bind_ok read
    dsimp only at built second third
    obtain ⟨a, rfl, conditionRead⟩ := (reads false).takes _ _ _ first
    obtain ⟨b, rfl, branchRead⟩ := (reads true).takes _ _ _ second
    rcases alternative_takes reads _ _ _ third with ⟨rfl, rfl, alone⟩ | ⟨node, c, rfl, rfl, otherRead⟩
    · obtain ⟨rfl, rfl⟩ := pure_ok built
      exact ⟨a ++ b, by simp, .ifThen conditionRead opens branchRead alone⟩
    · obtain ⟨rfl, rfl⟩ := pure_ok built
      exact ⟨a ++ (b ++ .keyword .elseWord :: c), by simp,
        .ifElse conditionRead opens branchRead otherRead⟩
  · cases read

theorem function_takes (reads : ∀ looked, Reads (inner looked) phrase)
    (tokens rest : List TokenKind) (node : Node)
    (read : function inner tokens = .ok (node, rest)) :
    ∃ taken, tokens = taken ++ rest ∧ Primary phrase (.keyword .defWord :: taken) node rest := by
  have listed := enclosed_reads '(' ')' ',' (by decide) parameter_reads parameter_shortens
  obtain ⟨⟨parameters, behind⟩, first, read⟩ := bind_ok read
  obtain ⟨⟨body, last⟩, second, read⟩ := bind_ok read
  cases read
  obtain ⟨a, rfl, parametersRead⟩ := listed.takes _ _ _ first
  obtain ⟨b, rfl, bodyRead⟩ := (reads false).takes _ _ _ second
  exact ⟨a ++ b, by simp, .function parametersRead bodyRead⟩

theorem primary_takes (reads : ∀ looked, Reads (inner looked) phrase)
    (shortens : ∀ looked, Shortens (inner looked)) (tokens rest : List TokenKind) (node : Node)
    (read : primary inner tokens = .ok (node, rest)) :
    ∃ taken, tokens = taken ++ rest ∧ Primary phrase taken node rest := by
  cases tokens with
  | nil => cases read
  | cons kind tokens =>
      cases kind with
      | number text => cases read; exact ⟨[_], rfl, .number _ _⟩
      | string value => cases read; exact ⟨[_], rfl, .string _ _⟩
      | character value => cases read; exact ⟨[_], rfl, .character _ _⟩
      | identifier name => cases read; exact ⟨[_], rfl, .identifier _ _⟩
      | operator symbol => cases read
      | keyword word =>
          cases word with
          | trueWord => cases read; exact ⟨[_], rfl, .yes _⟩
          | falseWord => cases read; exact ⟨[_], rfl, .no _⟩
          | ifWord =>
              obtain ⟨taken, rfl, inside⟩ := conditional_takes reads _ _ _ read
              exact ⟨_, rfl, inside⟩
          | defWord =>
              obtain ⟨taken, rfl, inside⟩ := function_takes reads _ _ _ read
              exact ⟨_, rfl, inside⟩
          | _ => cases read
      | punctuation c =>
          simp only [primary] at read
          split at read
          · exact group_takes reads _ _ _ read
          · split at read
            · exact block_takes reads shortens _ _ _ read
            · cases read

theorem primary_accepts (reads : ∀ looked, Reads (inner looked) phrase)
    (shortens : ∀ looked, Shortens (inner looked)) (taken rest : List TokenKind) (node : Node)
    (read : Primary phrase taken node rest) : primary inner (taken ++ rest) = .ok (node, rest) := by
  cases read with
  | number text | string value | character value | identifier name | yes | no => rfl
  | group read =>
      have inside := (reads false).accepts _ _ _ read
      simp only [List.cons_append, List.append_assoc, List.nil_append, primary, if_true, group,
        mark_here, ok_bind, inside]
      rfl
  | block listed =>
      have inside := (enclosed_reads '\x7b' '\x7d' ';' (by decide) (reads true)
        (shortens true)).accepts _ _ _ listed
      obtain ⟨_⟩ := listed
      rw [List.cons_append, primary, if_neg (by decide), if_pos rfl, block, ← List.cons_append, inside]
      rfl
  | function listed read =>
      have parameters := (enclosed_reads '(' ')' ',' (by decide) parameter_reads
        parameter_shortens).accepts _ _ _ listed
      have body := (reads false).accepts _ _ _ read
      simp only [List.cons_append, List.append_assoc, primary, reserved, function, parameters, ok_bind,
        body]
      rfl
  | ifThen first opens second alone =>
      have condition := (reads false).accepts _ _ _ first
      have branch := (reads true).accepts _ _ _ second
      rw [List.cons_append, primary, reserved, conditional, List.append_assoc, condition, ok_bind]
      dsimp only
      rw [if_pos opens, branch, ok_bind, alternative_none _ alone]
      rfl
  | ifElse first opens second third =>
      have condition := (reads false).accepts _ _ _ first
      have branch := (reads true).accepts _ _ _ second
      have other := (reads false).accepts _ _ _ third
      simp only [List.cons_append, List.append_assoc, primary, reserved, conditional, condition, ok_bind,
        opens, if_true, branch, alternative_else, other]
      rfl

theorem primary_reads (reads : ∀ looked, Reads (inner looked) phrase)
    (shortens : ∀ looked, Shortens (inner looked)) : Reads (primary inner) (Primary phrase) :=
  ⟨fun taken node rest => primary_accepts reads shortens taken rest node,
    fun tokens node rest => primary_takes reads shortens tokens rest node⟩

theorem further_call_some (callee next : Node) (tokens behind : List TokenKind)
    (took : furtherCall inner callee tokens = .ok (some (next, behind))) :
    ∃ arguments, next = .call callee arguments ∧
      enclosed '(' ')' ',' (inner true) tokens = .ok (arguments, behind) := by
  unfold furtherCall at took
  split at took
  · obtain ⟨⟨arguments, last⟩, listed, took⟩ := bind_ok took
    cases took
    exact ⟨arguments, rfl, listed⟩
  · cases took

theorem further_call_none (callee : Node) (tokens : List TokenKind)
    (ended : furtherCall inner callee tokens = .ok none) : opensWith '(' tokens = false := by
  unfold furtherCall at ended
  split at ended
  · obtain ⟨⟨_, _⟩, _, ended⟩ := bind_ok ended
    cases ended
  · rename_i apart
    exact Bool.not_eq_true _ ▸ apart

theorem calls_reads (reads : ∀ looked, Reads (inner looked) phrase)
    (shortens : ∀ looked, Shortens (inner looked)) (callee : Node) :
    Reads (repeatedly (furtherCall inner) callee) (Calls phrase callee) := by
  have progress := further_call_progress inner shortens
  have arguments := enclosed_reads '(' ')' ',' (by decide) (reads true) (shortens true)
  constructor
  · intro taken node rest calls
    induction calls with
    | done apart =>
        rw [List.nil_append, repeatedly_eq _ progress, furtherCall, if_neg (by simp [apart])]
    | further listed later ih =>
        have taken := arguments.accepts _ _ _ listed
        obtain ⟨_⟩ := listed
        rw [List.append_assoc, repeatedly_eq _ progress, furtherCall, if_pos (by simp [opensWith]), taken]
        exact ih
  · intro tokens node rest read
    refine repeatedly_induction _ progress (motive := fun callee tokens =>
      ∃ taken, tokens = taken ++ rest ∧ Calls phrase callee taken node rest) _ _ _ _ read ?done ?further
    case done =>
      exact fun ended => ⟨[], rfl, .done (further_call_none _ _ ended)⟩
    case further =>
      rintro callee tokens next behind took ⟨taken, rfl, calls⟩
      obtain ⟨values, rfl, listed⟩ := further_call_some _ _ _ _ took
      obtain ⟨front, rfl, inside⟩ := arguments.takes _ _ _ listed
      exact ⟨front ++ taken, by simp, .further inside calls⟩

theorem operand_reads (reads : ∀ looked, Reads (inner looked) phrase)
    (shortens : ∀ looked, Shortens (inner looked)) : Reads (operandOver inner) (Operand phrase) := by
  have primaries := primary_reads reads shortens
  constructor
  · rintro _ _ _ ⟨first, calls⟩
    rw [List.append_assoc, operandOver, primaries.accepts _ _ _ first]
    exact (calls_reads reads shortens _).accepts _ _ _ calls
  · intro tokens node rest read
    obtain ⟨⟨callee, behind⟩, first, looped⟩ := bind_ok read
    obtain ⟨b, rfl, calls⟩ := (calls_reads reads shortens callee).takes _ _ _ looped
    obtain ⟨a, rfl, primary⟩ := primaries.takes _ _ _ first
    exact ⟨a ++ b, by simp, .mk primary calls⟩

end Operands

end ScriptReader.Rule
