import ScriptReader.Proofs.Demand.Program
import ScriptReader.Proofs.Grammar.Guard

/-!
What more tokens behind the tokens of a rule change (`program_extensible`). A rule that ends or stops in
front of one of its tokens does the same with more tokens behind them, and so does a rule that has run
out of levels. Only at the end of its tokens may it have wanted one more; with more tokens it goes on
from there, and takes nothing back.
-/

set_option autoImplicit false

namespace ScriptReader.Rule

open Reader (Quiet quiet_ok quiet_missing Entered repeatedly_entered entered_induction itemRound item_entered
  goes_on_none opens_with_head mark_eq callRound call_entered operationRound operation_entered)

variable {α β σ τ : Type}

def left : Except Stop (α × List TokenKind) → List TokenKind
  | .ok (_, rest) => rest
  | .error stop => stop.unread

def onto (more : List TokenKind) :
    Except Stop (α × List TokenKind) → Except Stop (α × List TokenKind)
  | .ok (value, rest) => .ok (value, rest ++ more)
  | .error ⟨obstacle, unread⟩ => .error ⟨obstacle, unread ++ more⟩

theorem missing_of_onto {outcome : Except Stop (α × List TokenKind)} {what : Expectation}
    {unread more : List TokenKind} (same : .error ⟨.missing what, unread ++ more⟩ = onto more outcome) :
    outcome = .error ⟨.missing what, unread⟩ := by
  cases outcome with
  | ok item => cases same
  | error stop =>
      obtain ⟨obstacle, kept⟩ := stop
      simp only [onto, Except.error.injEq, Stop.mk.injEq] at same
      obtain ⟨rfl, whole⟩ := same
      rw [List.append_cancel_right whole]

def Extends (edge : Bool → Prop) (tokens more : List TokenKind)
    (outcome other : Except Stop (α × List TokenKind)) : Prop :=
  left outcome <:+ tokens ∧ other = onto more outcome ∨ Quiet edge outcome ∧ left other <:+ more

def Extensible (edge : Bool → Prop) (rule : Rule α) : Prop :=
  ∀ tokens more, Extends edge tokens more (rule tokens) (rule (tokens ++ more))

def Bounded (rule : Rule α) : Prop := ∀ tokens, left (rule tokens) <:+ tokens

theorem left_of_quiet {edge : Bool → Prop} {outcome : Except Stop (α × List TokenKind)}
    (quiet : Quiet edge outcome) : left outcome = [] := by
  rcases quiet with ⟨_, value, rfl⟩ | ⟨what, rfl⟩ <;> rfl

theorem left_of_extends {edge : Bool → Prop} {tokens more : List TokenKind}
    {outcome other : Except Stop (α × List TokenKind)}
    (extends_ : Extends edge tokens more outcome other) : left outcome <:+ tokens := by
  rcases extends_ with ⟨suffix, _⟩ | ⟨quiet, _⟩
  · exact suffix
  · rw [left_of_quiet quiet]
    exact List.nil_suffix

theorem bounded_of_extensible {edge : Bool → Prop} {rule : Rule α}
    (extensible : Extensible edge rule) : Bounded rule :=
  fun tokens => left_of_extends (extensible tokens [])

theorem extends_ok {edge : Bool → Prop} (tokens more : List TokenKind) (value : α) :
    Extends edge tokens more (.ok (value, tokens)) (.ok (value, tokens ++ more)) :=
  .inl ⟨List.suffix_rfl, rfl⟩

theorem extends_missing {edge : Bool → Prop} (tokens more : List TokenKind) (what : Expectation) :
    Extends edge tokens more (.error ⟨.missing what, tokens⟩ : Except Stop (α × List TokenKind))
      (.error ⟨.missing what, tokens ++ more⟩) :=
  .inl ⟨List.suffix_rfl, rfl⟩

theorem extends_loosen {first edge : Bool → Prop} {tokens more : List TokenKind}
    {outcome other : Except Stop (α × List TokenKind)}
    (extends_ : Extends first tokens more outcome other) (loose : first true → edge true) :
    Extends edge tokens more outcome other := by
  rcases extends_ with same | ⟨⟨unclosed, read⟩ | missing, further⟩
  · exact .inl same
  · exact .inr ⟨.inl ⟨loose unclosed, read⟩, further⟩
  · exact .inr ⟨.inr missing, further⟩

theorem extends_suffix {edge : Bool → Prop} {tokens behind more : List TokenKind}
    {outcome other : Except Stop (α × List TokenKind)}
    (extends_ : Extends edge behind more outcome other) (suffix : behind <:+ tokens) :
    Extends edge tokens more outcome other := by
  rcases extends_ with ⟨inner, same⟩ | beyond
  · exact .inl ⟨inner.trans suffix, same⟩
  · exact .inr beyond

-- Where the first rule may go on with more tokens, the second must not have taken or lacked anything.
theorem extends_bind {first edge : Bool → Prop} {tokens more : List TokenKind}
    {outcome other : Except Stop (α × List TokenKind)}
    {next : α × List TokenKind → Except Stop (β × List TokenKind)}
    (extends_ : Extends first tokens more outcome other)
    (later : ∀ value rest, outcome = .ok (value, rest) →
      Extends edge rest more (next (value, rest)) (next (value, rest ++ more)))
    (quiet : first true → ∀ value, outcome = .ok (value, []) → Quiet edge (next (value, [])))
    (bounded : ∀ value rest, other = .ok (value, rest) → left (next (value, rest)) <:+ rest) :
    Extends edge tokens more (outcome >>= next) (other >>= next) := by
  rcases extends_ with ⟨suffix, rfl⟩ | ⟨ended, further⟩
  · cases outcome with
    | error stop => exact .inl ⟨suffix, rfl⟩
    | ok item => exact extends_suffix (later item.1 item.2 rfl) suffix
  · refine .inr ⟨?_, ?_⟩
    · rcases ended with ⟨unclosed, value, rfl⟩ | ⟨what, rfl⟩
      · exact quiet unclosed value rfl
      · exact quiet_missing what
    · cases other with
      | error stop => exact further
      | ok item => exact (bounded item.1 item.2 rfl).trans further

theorem extensible_ok {edge : Bool → Prop} (value : α) :
    Extensible edge fun tokens => .ok (value, tokens) :=
  fun tokens more => extends_ok tokens more value

theorem extensible_missing {edge : Bool → Prop} (what : Expectation) :
    Extensible edge (missing what : Rule α) :=
  fun tokens more => extends_missing tokens more what

theorem extensible_bind {first edge : Bool → Prop} {rule : Rule α}
    {next : α × List TokenKind → Except Stop (β × List TokenKind)} (extensible : Extensible first rule)
    (later : ∀ tokens value rest, rule tokens = .ok (value, rest) →
      Extensible edge fun behind => next (value, behind))
    (quiet : first true → ∀ tokens value, rule tokens = .ok (value, []) → Quiet edge (next (value, []))) :
    Extensible edge fun tokens => rule tokens >>= next :=
  fun tokens more => extends_bind (extensible tokens more)
    (fun value rest read => later tokens value rest read rest more)
    (fun unclosed value read => quiet unclosed tokens value read)
    fun value rest read => bounded_of_extensible (later (tokens ++ more) value rest read) rest

-- Without tokens nothing is taken, and otherwise the first of them is there with more behind it.
theorem extensible_of_cons {edge : Bool → Prop} {rule : Rule α} (empty : Quiet edge (rule []))
    (cons : ∀ kind tokens more,
      Extends edge (kind :: tokens) more (rule (kind :: tokens)) (rule (kind :: (tokens ++ more)))) :
    Extensible edge rule := by
  intro tokens more
  cases tokens with
  | cons kind tokens => exact cons kind tokens more
  | nil =>
      refine .inr ⟨empty, ?_⟩
      cases more with
      | nil => exact (left_of_quiet empty).symm ▸ List.nil_suffix
      | cons kind more => exact left_of_extends (cons kind more [])

theorem extensible_if {edge : Bool → Prop} {test : List TokenKind → Bool} {yes no : Rule α}
    (heads : ∀ kind tokens more, test (kind :: (tokens ++ more)) = test (kind :: tokens))
    (empty : Quiet edge (if test [] then yes [] else no [])) (first : Extensible edge yes)
    (second : Extensible edge no) :
    Extensible edge fun tokens => if test tokens then yes tokens else no tokens := by
  refine extensible_of_cons empty fun kind tokens more => ?_
  rw [heads]
  split
  · exact first (kind :: tokens) more
  · exact second (kind :: tokens) more

theorem mark_extensible (c : Char) : Extensible (· = false) (mark c) := by
  refine extensible_of_cons (quiet_missing _) fun kind tokens more => ?_
  rw [mark_eq, mark_eq, List.head?_cons, List.head?_cons]
  split
  · exact extends_suffix (extends_ok tokens more ()) (List.suffix_cons kind tokens)
  · exact extends_missing (kind :: tokens) more _

section Loops

variable {enters : Option TokenKind → Option τ} {round : τ → σ → Rule σ} {step : Step σ}

theorem repeatedly_bounded (entered : Entered enters round step) (progress : step.Progress)
    (rounds : ∀ found value tokens, enters tokens.head? = some found →
      left (round found value tokens) <:+ tokens) (value : σ) : Bounded (repeatedly step value) := by
  intro tokens
  induction value, tokens using entered_induction entered progress with
  | stays value tokens enter =>
      rw [repeatedly_eq step progress, entered.stays value tokens enter]
      exact List.suffix_rfl
  | moves found value tokens enter ih =>
      have here := rounds found value tokens enter
      rw [repeatedly_entered entered progress value enter]
      cases read : round found value tokens with
      | error stop =>
          rw [read] at here
          exact here
      | ok item =>
          rw [read] at here
          exact (ih item.1 item.2 read).trans here

theorem repeatedly_extensible (entered : Entered enters round step) (progress : step.Progress)
    (rounds : ∀ found value tokens more, enters tokens.head? = some found →
      Extends (fun _ => True) tokens more (round found value tokens)
        (round found value (tokens ++ more))) (value : σ) :
    Extensible (· = true) (repeatedly step value) := by
  have bounded : ∀ value, Bounded (repeatedly step value) :=
    repeatedly_bounded entered progress fun found value tokens enter =>
      left_of_extends (rounds found value tokens [] enter)
  intro tokens more
  induction value, tokens using entered_induction entered progress with
  | stays value tokens enter =>
      cases tokens with
      | nil => exact .inr ⟨quiet_ok value rfl, bounded value more⟩
      | cons kind tokens =>
          have further : enters (kind :: tokens ++ more).head? = none := enter
          rw [repeatedly_eq step progress, entered.stays value _ enter,
            repeatedly_eq step progress value (kind :: tokens ++ more), entered.stays value _ further]
          exact extends_ok _ _ value
  | moves found value tokens enter ih =>
      cases tokens with
      | nil => exact .inr ⟨quiet_ok value rfl, bounded value more⟩
      | cons kind tokens =>
          have further : enters (kind :: tokens ++ more).head? = some found := enter
          rw [repeatedly_entered entered progress value enter,
            repeatedly_entered entered progress value further]
          exact extends_bind (rounds found value _ more enter) ih (fun _ next _ => quiet_ok next rfl)
            fun next behind _ => bounded next behind

end Loops

section Lists

variable {element : Rule α} {separator : Char} {stops : List TokenKind → Bool}
  {ends : Option TokenKind → Bool} {edge : Bool → Prop}

theorem same_heads (same : ∀ tokens, stops tokens = ends tokens.head?) (kind : TokenKind)
    (tokens more : List TokenKind) : stops (kind :: (tokens ++ more)) = stops (kind :: tokens) := by
  rw [same, same]
  rfl

-- Behind a separator at the end of the tokens the sequence ends, or an element is missing.
theorem item_round_extensible (same : ∀ tokens, stops tokens = ends tokens.head?)
    (extensible : Extensible edge element)
    (empty : ∃ what, element [] = .error ⟨.missing what, []⟩) (found : List α) :
    Extensible (fun _ => True) (itemRound element separator stops () found) := by
  refine extensible_bind (mark_extensible separator) (fun _ _ _ _ => ?_) nofun
  refine extensible_if (same_heads same) ?_ (extensible_ok found) ?_
  · obtain ⟨what, nothing⟩ := empty
    dsimp only
    split
    · exact quiet_ok found trivial
    · rw [nothing]
      exact quiet_missing what
  · exact extensible_bind extensible (fun _ next _ _ => extensible_ok (next :: found))
      fun _ _ next _ => quiet_ok (next :: found) trivial

theorem elements_extensible (same : ∀ tokens, stops tokens = ends tokens.head?)
    (shortens : Shortens element) (extensible : Extensible edge element)
    (empty : ∀ tokens item, element tokens = .ok item →
      ∃ what, element [] = .error ⟨.missing what, []⟩) :
    Extensible (· = true) (elements element separator stops) := by
  have progress := further_element_progress element separator stops shortens
  have looped : ∀ tokens item, element tokens = .ok item → ∀ found,
      Extensible (· = true) (repeatedly (furtherElement element separator stops) found) :=
    fun tokens item read => repeatedly_extensible (item_entered same) progress
      fun _ found inside more _ => item_round_extensible same extensible (empty tokens item read) found
        inside more
  refine extensible_if (fun kind tokens more => ?_) (quiet_ok [] rfl) (extensible_ok []) ?_
  · rw [same_heads same]
    rfl
  · refine extensible_bind extensible (fun tokens first rest read => ?_) fun _ _ first _ => ?_
    · exact extensible_bind (looped tokens _ read [first])
        (fun _ found _ _ => extensible_ok found.reverse) fun _ _ found _ => quiet_ok _ rfl
    · exact quiet_ok [first] rfl

theorem enclosed_extensible (opening closing : Char) (shortens : Shortens element)
    (extensible : Extensible edge element)
    (empty : ∀ tokens item, element tokens = .ok item →
      ∃ what, element [] = .error ⟨.missing what, []⟩) :
    Extensible (· = false) (enclosed opening closing separator element) := by
  let closes : Option TokenKind → Bool := fun next => next == some (.punctuation closing)
  have same : ∀ tokens, opensWith closing tokens = closes tokens.head? := opens_with_head closing
  have listed : Extensible (· = true) (elements element separator (opensWith closing)) :=
    elements_extensible same shortens extensible empty
  refine extensible_bind (mark_extensible opening) (fun _ _ _ _ => ?_) nofun
  refine extensible_bind listed (fun _ found _ _ => ?_) fun _ _ _ _ => quiet_missing _
  exact extensible_bind (mark_extensible closing) (fun _ _ _ _ => extensible_ok found) nofun

end Lists

theorem parameter_extensible : Extensible (· = false) parameter := by
  refine extensible_of_cons (quiet_missing _) fun kind tokens more => ?_
  cases kind with
  | identifier name => exact extends_suffix (extends_ok tokens more name) (List.suffix_cons _ tokens)
  | _ => exact extends_missing _ more .parameter

section Operands

structure Continues (inner : Inner) : Prop where
  extensible : ∀ looked, Extensible (· = true) (inner looked)
  shortens : ∀ looked, Shortens (inner looked)
  empty : ∀ tokens item, inner true tokens = .ok item →
    ∃ what, inner true [] = .error ⟨.missing what, []⟩

variable {inner : Inner}

theorem inner_list_extensible (continues : Continues inner) (opening closing separator : Char) :
    Extensible (· = false) (enclosed opening closing separator (inner true)) :=
  enclosed_extensible opening closing (continues.shortens true) (continues.extensible true)
    continues.empty

theorem group_extensible (continues : Continues inner) : Extensible (· = false) (group inner) := by
  refine extensible_bind (mark_extensible '(') (fun _ _ _ _ => ?_) nofun
  refine extensible_bind (continues.extensible false) (fun _ node _ _ => ?_)
    fun _ _ _ _ => quiet_missing _
  exact extensible_bind (mark_extensible ')') (fun _ _ _ _ => extensible_ok node) nofun

theorem block_extensible (continues : Continues inner) : Extensible (· = false) (block inner) :=
  extensible_bind (inner_list_extensible continues _ _ _)
    (fun _ statements _ _ => extensible_ok (Node.block statements)) nofun

theorem else_branch_extensible (continues : Continues inner) :
    Extensible (· = true) fun tokens => inner false tokens >>= fun (node, tokens) =>
      .ok (some node, tokens) :=
  extensible_bind (continues.extensible false) (fun _ node _ _ => extensible_ok (some node))
    fun _ _ node _ => quiet_ok (some node) rfl

theorem alternative_extensible (continues : Continues inner) :
    Extensible (· = true) (alternative inner) := by
  refine extensible_of_cons (quiet_ok none rfl) fun kind tokens more => ?_
  by_cases word : kind = .keyword .elseWord
  · subst word
    exact extends_suffix (else_branch_extensible continues tokens more) (List.suffix_cons _ tokens)
  · have alone : ∀ behind, alternative inner (kind :: behind) = .ok (none, kind :: behind) := by
      intro behind
      unfold alternative
      split
      · rename_i same
        exact absurd (List.cons.inj same).1 word
      · rfl
    rw [alone, alone]
    exact extends_ok (kind :: tokens) more none

theorem conditional_extensible (continues : Continues inner) :
    Extensible (· = true) (conditional inner) := by
  refine extensible_bind (continues.extensible false) (fun _ condition _ _ => ?_)
    fun _ _ _ _ => quiet_missing _
  have heads : ∀ kind tokens more, opensWith '\x7b' (kind :: (tokens ++ more)) =
      opensWith '\x7b' (kind :: tokens) := by
    intro kind tokens more
    cases kind <;> rfl
  refine extensible_if heads (quiet_missing _) ?_ (extensible_missing .branch)
  refine extensible_bind (continues.extensible true) (fun _ branch _ _ => ?_)
    fun _ _ _ _ => quiet_ok _ rfl
  refine extensible_bind (alternative_extensible continues) (fun _ other _ _ => ?_)
    fun _ _ other _ => ?_
  · cases other with
    | none => exact extensible_ok (Node.ifThen condition branch)
    | some other => exact extensible_ok (Node.ifElse condition branch other)
  · cases other <;> exact quiet_ok _ rfl

theorem function_extensible (continues : Continues inner) :
    Extensible (· = true) (function inner) := by
  have parameters : Extensible (· = false) (enclosed '(' ')' ',' parameter) :=
    enclosed_extensible '(' ')' parameter_shortens parameter_extensible fun _ _ _ => ⟨_, rfl⟩
  refine extensible_bind parameters (fun _ names _ _ => ?_) nofun
  exact extensible_bind (continues.extensible false) (fun _ body _ _ => extensible_ok _)
    fun _ _ body _ => quiet_ok _ rfl

theorem primary_extensible (continues : Continues inner) :
    Extensible (fun _ => True) (primary inner) := by
  refine extensible_of_cons (quiet_missing _) fun kind tokens more => ?_
  have behind : tokens <:+ kind :: tokens := List.suffix_cons kind tokens
  cases kind with
  | number _ | string _ | character _ | identifier _ =>
      exact extends_suffix (extends_ok tokens more _) behind
  | operator symbol => exact extends_missing _ more .expression
  | keyword word =>
      cases word with
      | trueWord | falseWord => exact extends_suffix (extends_ok tokens more _) behind
      | ifWord =>
          exact extends_suffix (extends_loosen (conditional_extensible continues tokens more)
            fun _ => trivial) behind
      | defWord =>
          exact extends_suffix (extends_loosen (function_extensible continues tokens more)
            fun _ => trivial) behind
      | _ => exact extends_missing _ more .expression
  | punctuation c =>
      simp only [primary]
      split
      · exact extends_loosen (group_extensible continues _ more) fun _ => trivial
      · split
        · exact extends_loosen (block_extensible continues _ more) fun _ => trivial
        · exact extends_missing _ more .expression

theorem operand_over_extensible (continues : Continues inner) :
    Extensible (· = true) (operandOver inner) := by
  have progress := further_call_progress inner continues.shortens
  have calls : ∀ callee, Extensible (fun _ => True) (callRound inner () callee) := fun callee =>
    extensible_bind (inner_list_extensible continues _ _ _)
      (fun _ arguments _ _ => extensible_ok (Node.call callee arguments)) nofun
  exact extensible_bind (primary_extensible continues)
    (fun _ node _ _ => repeatedly_extensible (call_entered inner) progress
      (fun _ callee tokens more _ => calls callee tokens more) node)
    fun _ _ node _ => quiet_ok node rfl

end Operands

theorem too_deep_extensible {edge : Bool → Prop} (looked : Bool) :
    Extensible edge (tooDeep looked : Rule α) :=
  fun _ _ => .inl ⟨List.suffix_rfl, rfl⟩

section Operations

variable {operand : Rule Node} {rise : Nat → Node → Rule Node}

theorem right_side_extensible (operands : Extensible (· = true) operand)
    (rises : ∀ tokens item, operand tokens = .ok item → ∀ floor left,
      rise floor left [] = .ok (left, []) ∧ Extensible (· = true) (rise floor left))
    (op : Operator) (left : Node) : Extensible (fun _ => True) fun tokens =>
      operand tokens >>= fun (next, tokens) => rise op.rightFloor next tokens >>=
        fun (right, tokens) => .ok (Node.operation op left right, tokens) := by
  refine extensible_bind operands (fun tokens next rest read => ?_) fun _ tokens next read => ?_
  · exact extensible_bind (rises tokens _ read _ next).2 (fun _ right _ _ => extensible_ok _)
      fun _ _ right _ => quiet_ok _ trivial
  · dsimp only
    rw [(rises tokens _ read _ next).1]
    exact quiet_ok _ trivial

theorem climb_over_extensible (shortens : Shortens operand)
    (keeps : ∀ floor left, Keeps (rise floor left)) (operands : Extensible (· = true) operand)
    (rises : ∀ tokens item, operand tokens = .ok item → ∀ floor left,
      rise floor left [] = .ok (left, []) ∧ Extensible (· = true) (rise floor left))
    (floor : Nat) (left : Node) : Extensible (· = true) (climbOver operand rise floor left) := by
  have progress := further_operation_progress operand rise floor shortens keeps
  refine repeatedly_extensible (operation_entered operand rise floor) progress ?_ left
  intro op left tokens more enters
  cases tokens with
  | nil => cases enters
  | cons kind tokens =>
      exact extends_suffix (right_side_extensible operands rises op left tokens more)
        (List.suffix_cons kind tokens)

end Operations

theorem expression_continues (level : Nat)
    (extensible : ∀ looked, Extensible (· = true) (expression level looked)) :
    Continues (expression level) := by
  refine ⟨extensible, expression_shortens level, fun tokens item read => ?_⟩
  cases level with
  | zero => cases read
  | succ level => exact ⟨.expression, rfl⟩

theorem level_extensible (level : Nat) :
    (∀ looked, Extensible (· = true) (expression level looked)) ∧
      ∀ floor left, Extensible (· = true) (climb level floor left) := by
  induction level with
  | zero =>
      refine ⟨fun looked tokens => ?_, fun floor left => ?_⟩
      · exact too_deep_extensible looked tokens
      · exact climb_over_extensible (too_deep_shortens false)
          (fun _ _ => keeps_of_shortens (too_deep_shortens true)) (too_deep_extensible false)
          (fun _ _ read => by cases read) floor left
  | succ level ih =>
      have continues := expression_continues level ih.1
      have operands := operand_over_extensible continues
      have climbs : ∀ floor left, Extensible (· = true)
          (climbOver (operandOver (expression level)) (climb level) floor left) :=
        climb_over_extensible (operand_over_shortens _ continues.shortens) (climb_keeps level) operands
          fun _ _ _ floor left => ⟨Reader.climb_nothing level floor left, ih.2 floor left⟩
      exact ⟨fun _ => extensible_bind operands (fun _ left _ _ => climbs 0 left)
        fun _ _ left _ => quiet_ok left rfl, climbs⟩

theorem program_extensible (level : Nat) : Extensible (· = true) (program level) := by
  have continues := expression_continues level (level_extensible level).1
  exact elements_extensible Reader.is_empty_head (continues.shortens true) (continues.extensible true)
    continues.empty

section Programs

variable {level : Nat} {front rest : List TokenKind} {kind : TokenKind} {what : Expectation}

theorem quiet_of_read {more : List TokenKind} {statements : List Node}
    (read : program level (front ++ more) = .ok (statements, [])) :
    Quiet (· = true) (program level front) := by
  rcases program_extensible level front more with ⟨_, same⟩ | ⟨quiet, _⟩
  · rw [read] at same
    cases outcome : program level front with
    | ok item =>
        obtain ⟨values, behind⟩ := item
        obtain rfl := program_reads_all level front behind values outcome
        exact quiet_ok values rfl
    | error stop =>
        rw [outcome] at same
        cases same
  · exact quiet

theorem quiet_of_stop
    (stopped : program level (front ++ kind :: rest) = .error ⟨.missing what, kind :: rest⟩) :
    Quiet (· = true) (program level front) := by
  rcases program_extensible level front (kind :: rest) with ⟨_, same⟩ | ⟨quiet, _⟩
  · rw [stopped] at same
    have ended : program level front = .error ⟨.missing what, []⟩ := missing_of_onto same
    exact ended ▸ quiet_missing what
  · exact quiet

theorem stop_without_rest
    (stopped : program level (front ++ kind :: rest) = .error ⟨.missing what, kind :: rest⟩) :
    program level (front ++ [kind]) = .error ⟨.missing what, [kind]⟩ := by
  have extended := program_extensible level (front ++ [kind]) rest
  rw [List.append_assoc, List.cons_append, List.nil_append, stopped] at extended
  rcases extended with ⟨_, same⟩ | ⟨_, further⟩
  · exact missing_of_onto same
  · have longer := further.length_le
    rw [left, List.length_cons] at longer
    omega

theorem stop_whatever_follows
    (stopped : program level (front ++ kind :: rest) = .error ⟨.missing what, kind :: rest⟩)
    (other : List TokenKind) (levels : Nat) :
    ∃ stop, program levels (front ++ kind :: other) = .error stop := by
  have here := stop_without_rest stopped
  have extended := program_extensible level (front ++ [kind]) other
  rw [List.append_assoc, List.cons_append, List.nil_append, here] at extended
  have there : program level (front ++ kind :: other) = .error ⟨.missing what, kind :: other⟩ := by
    rcases extended with ⟨_, same⟩ | ⟨⟨_, value, read⟩ | ⟨wanted, missed⟩, _⟩
    · exact same
    · cases read
    · cases missed
  rcases Nat.le_total level levels with less | less
  · obtain ⟨more, rfl⟩ := Nat.exists_eq_add_of_le less
    rcases program_guards level more (front ++ kind :: other) with same | ⟨looked, unread, deep⟩
    · exact ⟨_, same.symm.trans there⟩
    · rw [there] at deep
      cases deep
  · obtain ⟨more, rfl⟩ := Nat.exists_eq_add_of_le less
    rcases program_guards levels more (front ++ kind :: other) with same | ⟨looked, unread, deep⟩
    · exact ⟨_, same.trans there⟩
    · exact ⟨_, deep⟩

end Programs

end ScriptReader.Rule
