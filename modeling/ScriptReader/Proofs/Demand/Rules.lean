import ScriptReader.Proofs.Demand.Answers

/-!
A reader asks for a token where its rule reads or misses one; only behind the last token may it have
looked for one more than the rule needed.
-/

set_option autoImplicit false

namespace ScriptReader.Reader

open Parts (goesOn opensCall)
open TokenStream

variable {α : Type} {start stream : TokenStream} {limit : Nat} {tokens : List TokenKind}
  {looked : Bool}

def Follows (start : TokenStream) (limit : Nat) (edge : Bool → Prop) (looked : Bool) (rule : Rule α)
    (reader : Reader α) : Prop :=
  ∀ ⦃tokens stream⦄, Reached start tokens looked stream →
    Answers start limit edge (rule tokens) (reader stream)

theorem follows_any {edge : Bool → Prop} {rule : Rule α} {reader : Reader α}
    (follows : Follows start limit edge looked rule reader) :
    Follows start limit (fun _ => True) looked rule reader :=
  fun _ _ reached => answers_loosen (follows reached) fun _ _ => trivial

theorem mark_eq (c : Char) (tokens : List TokenKind) :
    Rule.mark c tokens =
      if tokens.head? = some (.punctuation c) then .ok ((), tokens.tail)
      else .error ⟨.missing (.mark c), tokens⟩ := by
  unfold Rule.mark
  split
  · simp [Rule.missing]
  · rename_i other
    have differs : tokens.head? ≠ some (.punctuation c) := by
      intro same
      obtain ⟨rest, rfl⟩ := List.head?_eq_some_iff.mp same
      exact other c rest rfl
    rw [if_neg differs]
    rfl

theorem mark_answers (c : Char) : Follows start limit (· = false) looked (Rule.mark c) (parts.mark c) := by
  intro tokens stream reached
  rw [mark_eq, Parts.mark, demand_bind]
  refine answers_ahead reached (fun behind seen => ?_) fun ended => ?_
  · by_cases marked : tokens.head? = some (.punctuation c)
    · obtain ⟨rest, rfl⟩ := List.head?_eq_some_iff.mp marked
      rw [if_pos marked, if_pos marked]
      refine answers_take _ seen fun _ _ taken => ?_
      exact answers_pure taken rfl
    · rw [if_neg marked, if_neg marked]
      exact answers_missing _ rfl seen
  · rw [ended]
    exact quiet_missing _

section Lists

variable {element : Rule α} {reader : Reader α} {separator : Char} {stops : List TokenKind → Bool}
  {ends : Option TokenKind → Bool}

def itemRound (element : Rule α) (separator : Char) (stops : List TokenKind → Bool) :
    Unit → List α → Rule (List α) := fun _ found tokens => do
  let (_, tokens) ← Rule.mark separator tokens
  if stops tokens then return (found, tokens)
  let (next, tokens) ← element tokens
  return (next :: found, tokens)

theorem goes_on_none (same : ∀ tokens, stops tokens = ends tokens.head?) (tokens : List TokenKind) :
    (goesOn ends tokens.head?).isNone = (tokens.isEmpty || stops tokens) := by
  rw [same, goesOn]
  cases tokens with
  | nil => rfl
  | cons kind tokens => cases ended : ends (some kind) <;> simp [ended]

theorem item_entered (same : ∀ tokens, stops tokens = ends tokens.head?) :
    Entered (goesOn ends) (itemRound element separator stops)
      (Rule.furtherElement element separator stops) := by
  refine ⟨fun found tokens leaves => ?_, fun _ found tokens enters => ?_⟩
  · have ended := goes_on_none same tokens
    rw [leaves] at ended
    rw [Rule.furtherElement, ← ended]
    rfl
  · have further := goes_on_none same tokens
    rw [enters] at further
    rw [Rule.furtherElement, ← further, itemRound]
    cases Rule.mark separator tokens with
    | error stop => rfl
    | ok marked =>
        simp only [Option.isNone_some, Bool.false_eq_true, if_false, bind, Except.bind]
        split
        · rfl
        · cases element marked.2 <;> rfl

theorem further_item_answers (same : ∀ tokens, stops tokens = ends tokens.head?)
    (follows : Follows start limit (fun _ => True) true element reader)
    (empty : ∃ what, element [] = .error ⟨.missing what, []⟩) (found : List α) :
    Follows start limit (fun _ => True) looked (itemRound element separator stops () found)
      (parts.furtherItem reader separator ends found) := by
  intro tokens stream reached
  refine answers_bind (mark_answers separator reached) (fun _ rest _ behind _ reached _ => ?_) nofun
  refine answers_ahead reached (fun behind seen => ?_) fun ended => ?_
  · dsimp only
    rw [same]
    split
    · exact answers_pure seen trivial
    · refine answers_bind (follows seen) (fun next last _ _ _ reached _ => ?_)
        fun _ next _ => quiet_ok _ trivial
      exact answers_pure reached trivial
  · rw [ended]
    dsimp only
    split
    · exact quiet_ok _ trivial
    · obtain ⟨what, nothing⟩ := empty
      rw [nothing]
      exact quiet_missing what

-- Once an element has been read, the element's rule asks for a token behind a separator.
theorem items_answers (same : ∀ tokens, stops tokens = ends tokens.head?)
    (shortens : Rule.Shortens element) (follows : Follows start limit (fun _ => True) true element reader)
    (empty : ∀ tokens item, element tokens = .ok item →
      ∃ what, element [] = .error ⟨.missing what, []⟩) :
    Follows start limit (· = true) looked (Rule.elements element separator stops)
      (parts.items reader separator ends) := by
  intro tokens stream reached
  have progress := Rule.further_element_progress element separator stops shortens
  rw [Rule.elements, ← goes_on_none same]
  refine answers_ahead reached (fun behind seen => ?_) fun ended => ?_
  · split
    · exact answers_pure seen rfl
    · refine answers_bind (follows seen) (fun first rest _ _ read reached _ => ?_) fun _ first _ => ?_
      · have further : ∀ found, Follows start limit (fun _ => True) true
            (itemRound element separator stops () found) (parts.furtherItem reader separator ends found) :=
          further_item_answers same follows (empty _ _ read)
        have looped := loop_answers (item_entered same) progress
          (fun _ found _ _ _ seen => further found seen) [first] reached
        refine answers_bind looped ?_ fun _ found _ => quiet_ok _ rfl
        exact fun found last _ _ _ reached known => answers_pure reached known
      · exact quiet_ok [first] rfl
  · rw [ended]
    exact quiet_ok _ rfl

theorem is_empty_head (tokens : List TokenKind) : tokens.isEmpty = tokens.head?.isNone := by
  cases tokens <;> rfl

theorem opens_with_head (c : Char) (tokens : List TokenKind) :
    Rule.opensWith c tokens = (tokens.head? == some (.punctuation c)) := by
  unfold Rule.opensWith
  split
  · rename_i found rest
    rw [Bool.eq_iff_iff, beq_iff_eq, beq_iff_eq]
    simp
  · rename_i other
    symm
    rw [beq_eq_false_iff_ne]
    intro same
    obtain ⟨rest, rfl⟩ := List.head?_eq_some_iff.mp same
    exact other c rest rfl

theorem enclosed_answers (opening closing : Char) (shortens : Rule.Shortens element)
    (follows : Follows start limit (fun _ => True) true element reader)
    (empty : ∀ tokens item, element tokens = .ok item →
      ∃ what, element [] = .error ⟨.missing what, []⟩) :
    Follows start limit (· = false) looked (Rule.enclosed opening closing separator element)
      (parts.enclosed reader separator opening closing) := by
  intro tokens stream reached
  refine answers_bind (mark_answers opening reached) (fun _ rest _ behind _ reached _ => ?_) nofun
  refine answers_bind (items_answers (opens_with_head closing) shortens follows empty reached)
    (fun found rest _ behind _ reached _ => ?_) fun _ found _ => quiet_missing _
  refine answers_bind (mark_answers closing reached) (fun _ rest _ behind _ reached known => ?_) nofun
  exact answers_pure reached known

end Lists

theorem parameter_answers :
    Follows start limit (· = false) looked Rule.parameter parts.parameter := by
  intro tokens stream reached
  cases tokens with
  | nil => exact answers_take_nothing _ reached
  | cons kind rest =>
      refine answers_take _ reached fun position shown taken => ?_
      cases kind with
      | identifier name => exact answers_pure taken rfl
      | _ => exact answers_refuse .parameter rfl reached.suffix shown

section Operands

-- A reader that answers as the rule of inner expressions does, whether the next token has been looked
-- at or not, and that asks for a token if the rule reads anything at all.
structure Replays (start : TokenStream) (limit : Nat) (inner : Rule.Inner) (reader : Reader Node) :
    Prop where
  follows : ∀ looked, Follows start limit (· = true) looked (inner looked) reader
  shortens : ∀ looked, Rule.Shortens (inner looked)
  empty : ∀ tokens item, inner true tokens = .ok item →
    ∃ what, inner true [] = .error ⟨.missing what, []⟩

variable {inner : Rule.Inner} {reader : Reader Node}

theorem inner_list (replays : Replays start limit inner reader) (opening closing separator : Char) :
    Follows start limit (· = false) looked
      (Rule.enclosed opening closing separator (inner true)) (parts.enclosed reader separator opening closing) :=
  enclosed_answers opening closing (replays.shortens true)
    (follows_any (replays.follows true)) replays.empty

theorem group_answers (replays : Replays start limit inner reader) :
    Follows start limit (· = false) looked (Rule.group inner) (parts.group reader) := by
  intro tokens stream reached
  refine answers_bind (mark_answers '(' reached) (fun _ rest _ behind _ reached untouched => ?_) nofun
  subst untouched
  refine answers_bind (replays.follows false reached) (fun node rest _ behind _ reached _ => ?_)
    fun _ node _ => quiet_missing _
  refine answers_bind (mark_answers ')' reached) (fun _ rest _ behind _ reached known => ?_) nofun
  exact answers_pure reached known

theorem block_answers (replays : Replays start limit inner reader) :
    Follows start limit (· = false) looked (Rule.block inner) (parts.block reader) := by
  intro tokens stream reached
  refine answers_bind (inner_list replays _ _ _ reached) (fun _ rest _ behind _ reached known => ?_) nofun
  exact answers_pure reached known

theorem alternative_answers (replays : Replays start limit inner reader) :
    Follows start limit (· = true) looked (Rule.alternative inner) (parts.alternative reader) := by
  intro tokens stream reached
  refine answers_ahead reached (fun behind seen => ?_) fun ended => ?_
  · unfold Rule.alternative
    split
    · rename_i rest
      refine answers_take _ seen fun _ _ taken => ?_
      refine answers_bind (replays.follows false taken) (fun _ rest _ behind _ reached known => ?_)
        fun _ _ _ => quiet_ok _ rfl
      exact answers_pure reached known
    · rename_i other
      have differs : tokens.head? ≠ some (.keyword .elseWord) := by
        intro same
        obtain ⟨rest, rfl⟩ := List.head?_eq_some_iff.mp same
        exact other rest rfl
      rw [if_neg differs]
      exact answers_pure seen rfl
  · rw [ended]
    exact quiet_ok _ rfl

theorem conditional_answers (replays : Replays start limit inner reader) :
    Follows start limit (· = true) false (Rule.conditional inner) (parts.conditional reader) := by
  intro tokens stream reached
  refine answers_bind (replays.follows false reached) (fun condition rest _ behind _ reached _ => ?_)
    fun _ _ _ => quiet_missing _
  dsimp only
  rw [demand_bind]
  refine answers_ahead reached (fun behind seen => ?_) fun ended => ?_
  · by_cases opened : rest.head? = some (.punctuation '\x7b')
    · rw [if_pos opened, if_pos (by rw [opens_with_head, opened]; rfl)]
      refine answers_bind (replays.follows true seen) (fun branch rest _ behind _ reached _ => ?_)
        fun _ _ _ => quiet_ok _ rfl
      refine answers_bind (alternative_answers replays reached)
        (fun other rest _ behind _ reached known => ?_) fun _ other _ => ?_
      · cases other <;> exact answers_pure reached known
      · cases other <;> exact quiet_ok _ rfl
    · rw [if_neg opened, if_neg (by rw [opens_with_head, beq_iff_eq]; exact opened)]
      exact answers_missing _ rfl seen
  · rw [ended]
    exact quiet_missing _

theorem function_answers (replays : Replays start limit inner reader) :
    Follows start limit (· = true) looked (Rule.function inner) (parts.function reader) := by
  intro tokens stream reached
  have named : ∀ tokens name, Rule.parameter tokens = .ok name →
      ∃ what, Rule.parameter [] = .error ⟨.missing what, []⟩ := fun _ _ _ => ⟨_, rfl⟩
  have parameters : Follows start limit (· = false) looked
      (Rule.enclosed '(' ')' ',' Rule.parameter) (parts.enclosed parts.parameter ',' '(' ')') :=
    enclosed_answers '(' ')' Rule.parameter_shortens (follows_any parameter_answers) named
  refine answers_bind (parameters reached) (fun _ rest _ behind _ reached untouched => ?_) nofun
  subst untouched
  refine answers_bind (replays.follows false reached) (fun body rest _ behind _ reached known => ?_)
    fun _ _ _ => quiet_ok _ rfl
  exact answers_pure reached known

theorem primary_answers (replays : Replays start limit inner reader) :
    Follows start limit (fun _ => True) looked (Rule.primary inner) (parts.primary reader) := by
  intro tokens stream reached
  refine answers_ahead reached (fun behind seen => ?_) fun ended => ?_
  · cases tokens with
    | nil => exact answers_take_nothing _ seen
    | cons kind rest =>
        cases kind with
        | number _ | string _ | character _ | identifier _ =>
            exact answers_take _ seen fun _ _ taken => answers_pure taken trivial
        | operator symbol =>
            exact answers_take _ seen fun _ shown _ => answers_refuse .expression rfl seen.suffix shown
        | keyword word =>
            cases word with
            | trueWord | falseWord =>
                exact answers_take _ seen fun _ _ taken => answers_pure taken trivial
            | ifWord =>
                exact answers_take _ seen fun _ _ taken =>
                  follows_any (conditional_answers replays) taken
            | defWord =>
                exact answers_take _ seen fun _ _ taken =>
                  follows_any (function_answers replays) taken
            | _ =>
                exact answers_take _ seen fun _ shown _ =>
                  answers_refuse .expression rfl seen.suffix shown
        | punctuation c =>
            simp only [Rule.primary, List.head?_cons]
            split
            · exact follows_any (group_answers replays) seen
            · split
              · exact follows_any (block_answers replays) seen
              · exact answers_take _ seen fun _ shown _ =>
                  answers_refuse .expression rfl seen.suffix shown
  · rw [ended]
    exact quiet_missing _

def callRound (inner : Rule.Inner) : Unit → Node → Rule Node := fun _ callee tokens => do
  let (arguments, tokens) ← Rule.enclosed '(' ')' ',' (inner true) tokens
  return (.call callee arguments, tokens)

theorem opens_call_eq (tokens : List TokenKind) :
    opensCall tokens.head? = if Rule.opensWith '(' tokens then some () else none := by
  rw [opens_with_head, opensCall]
  simp only [beq_iff_eq]

theorem call_entered (inner : Rule.Inner) :
    Entered opensCall (callRound inner) (Rule.furtherCall inner) := by
  refine ⟨fun callee tokens leaves => ?_, fun _ callee tokens enters => ?_⟩
  · rw [opens_call_eq] at leaves
    rw [Rule.furtherCall, if_neg fun opened => by simp [opened] at leaves]
  · rw [opens_call_eq] at enters
    by_cases opened : Rule.opensWith '(' tokens
    · rw [Rule.furtherCall, if_pos opened, callRound]
      cases Rule.enclosed '(' ')' ',' (inner true) tokens <;> rfl
    · rw [if_neg opened] at enters
      cases enters

theorem operand_over_answers (replays : Replays start limit inner reader) :
    Follows start limit (· = true) looked (Rule.operandOver inner) (parts.operandOver reader) := by
  intro tokens stream reached
  have progress := Rule.further_call_progress inner replays.shortens
  have calls : ∀ callee, Follows start limit (fun _ => True) true (callRound inner () callee)
      (parts.furtherCall reader callee) := by
    intro callee tokens stream seen
    refine answers_bind (inner_list replays _ _ _ seen) (fun _ rest _ behind _ reached _ => ?_) nofun
    exact answers_pure reached trivial
  refine answers_bind (primary_answers replays reached) (fun node rest _ behind _ reached _ => ?_)
    fun _ node _ => ?_
  · exact loop_answers (call_entered inner) progress (fun _ callee _ _ _ seen => calls callee seen) node
      reached
  · exact quiet_ok node rfl

end Operands

end ScriptReader.Reader
