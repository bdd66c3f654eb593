import ScriptReader.Proofs.Program.Resume
import ScriptReader.Proofs.Token.Parted
import ScriptReader.Proofs.Tree.Image
import ScriptReader.Proofs.Tree.Nested
import ScriptReader.Tree.Display

set_option autoImplicit false

namespace ScriptReader

namespace Label

-- The numbers and names are those of tokens; strings and characters are arbitrary.
def legible : Label → Bool
  | .number text => numberText text.toList
  | .identifier name => nameText name
  | .function parameters => parameters.all nameText
  | _ => true

def uncounted : Label → Label
  | .call _ => .call 0
  | .conditional _ => .conditional false
  | .block _ => .block 0
  | label => label

def nested (items : List Nested) : Label → Nested
  | .number text => .word text.toList
  | .string value => .quoted '"' value.toList
  | .character value => .quoted '\'' [value]
  | .bool value => .word (if value then "true" else "false").toList
  | .identifier name => .word name.toList
  | .operation operator => .round (.word operator.symbol.toList :: items)
  | .call _ => .round (.word "call".toList :: items)
  | .function parameters =>
      .round (.word "def".toList :: .round (parameters.map fun name => .word name.toList) :: items)
  | .conditional _ => .round (.word "if".toList :: items)
  | .block _ => .curly items

theorem uncounted_arity {a b : Label} (same : a.uncounted = b.uncounted)
    (counts : a.arity = b.arity) : a = b := by
  cases a <;> cases b <;> simp_all [uncounted, arity]
  split at counts <;> split at counts <;> simp_all

end Label

namespace Nested

def text? : Nested → Option String
  | .word text => some (String.ofList text)
  | _ => none

def wordLabel (text : List Char) : Label :=
  if text.head?.any isDigit then .number (String.ofList text)
  else if text = "true".toList then .bool true
  else if text = "false".toList then .bool false
  else .identifier (String.ofList text)

def formLabel? (form : String) (items : List Nested) : Option (Label × List Nested) :=
  if form = "call" then some (.call 0, items)
  else if form = "if" then some (.conditional false, items)
  else
    match Operator.ofSymbol? form with
    | some operator => some (.operation operator, items)
    | none =>
        match items with
        | .round names :: items => some (.function (names.filterMap text?), items)
        | _ => none

def label? : Nested → Option (Label × List Nested)
  | .word text => some (wordLabel text, [])
  | .quoted quote text =>
      if quote = '"' then some (.string (String.ofList text), [])
      else text.head?.map fun value => (.character value, [])
  | .round (.word head :: items) => formLabel? (String.ofList head) items
  | .round _ => none
  | .curly items => some (.block 0, items)

theorem word_label_number (text : String) (well : numberText text.toList = true) :
    wordLabel text.toList = .number text := by
  obtain ⟨c, rest, same, digit⟩ := Scan.number_text_head _ well
  have first : text.toList.head?.any isDigit = true := by simp [same, digit]
  rw [wordLabel, if_pos first, String.ofList_toList]

theorem word_label_identifier (name : String) (well : nameText name = true) :
    wordLabel name.toList = .identifier name := by
  rw [nameText, Bool.and_eq_true] at well
  obtain ⟨spelled, free⟩ := well
  obtain ⟨c, rest, same, opens⟩ := Scan.word_text_head _ spelled
  have first : ¬ name.toList.head?.any isDigit = true := by
    simp [same, Scan.digit_of_opens c opens]
  have unreserved : ∀ keyword : Keyword, name.toList ≠ keyword.spelling.toList := by
    intro keyword reserved
    rw [String.toList_inj.mp reserved, Keyword.of_word_spelling] at free
    cases free
  have notTrue : name.toList ≠ "true".toList := unreserved .trueWord
  have notFalse : name.toList ≠ "false".toList := unreserved .falseWord
  rw [wordLabel, if_neg first, if_neg notTrue, if_neg notFalse, String.ofList_toList]

theorem label_nested {label : Label} {items : List Nested} (legible : label.legible = true)
    (count : items.length = label.arity) :
    (label.nested items).label? = some (label.uncounted, items) := by
  cases label with
  | number text =>
      rw [List.length_eq_zero_iff.mp count, Label.nested, label?, word_label_number text legible]
      rfl
  | string value =>
      rw [List.length_eq_zero_iff.mp count, Label.nested, label?, if_pos rfl, String.ofList_toList]
      rfl
  | character value =>
      rw [List.length_eq_zero_iff.mp count]
      rfl
  | bool value =>
      rw [List.length_eq_zero_iff.mp count]
      cases value <;> rfl
  | identifier name =>
      rw [List.length_eq_zero_iff.mp count, Label.nested, label?, word_label_identifier name legible]
      rfl
  | operation operator =>
      have read := Operator.of_symbol_symbol operator
      have other : operator.symbol ≠ "call" ∧ operator.symbol ≠ "if" := by
        cases operator <;> decide
      simp [Label.nested, label?, formLabel?, other, read, Label.uncounted]
  | call arguments => rfl
  | function parameters =>
      have names : (parameters.map fun name => Nested.word name.toList).filterMap text? = parameters := by
        simp [List.filterMap_map, text?, Function.comp_def]
      have unknown : Operator.ofSymbol? "def" = none := by decide +kernel
      simp [Label.nested, label?, formLabel?, unknown, names, Label.uncounted]
  | conditional alternative => rfl
  | block statements => rfl

theorem form_write {form : String} {items : List Nested} (filled : items ≠ []) :
    (round (.word form.toList :: items)).write =
      ("(" ++ form ++ " ").toList ++ [' '].intercalate (items.map write) ++ ")".toList := by
  obtain ⟨first, others, rfl⟩ := List.exists_cons_of_ne_nil filled
  rw [← writes_eq]
  simp [write, writes, writeFurther]

theorem filled_of_arity {label : Label} {items : List Nested} (count : items.length = label.arity)
    (some : 0 < label.arity) : items ≠ [] := by
  rintro rfl
  rw [← count] at some
  cases some

theorem nested_write {label : Label} {items : List Nested} (count : items.length = label.arity) :
    (label.nested items).write =
      label.opening.toList ++ [' '].intercalate (items.map write) ++ label.closing.toList := by
  cases label with
  | number text | identifier name =>
      rw [List.length_eq_zero_iff.mp count]
      simp [Label.nested, write, Label.opening, Label.closing]
  | bool value =>
      rw [List.length_eq_zero_iff.mp count]
      simp [Label.nested, write, Label.opening, Label.closing]
  | string value | character value =>
      rw [List.length_eq_zero_iff.mp count]
      simp [Label.nested, write, Label.opening, Label.closing, Quoted.string, Quoted.character]
  | operation operator => exact form_write (filled_of_arity count (Nat.succ_pos _))
  | call arguments => exact form_write (filled_of_arity count (Nat.succ_pos _))
  | conditional alternative =>
      refine form_write (filled_of_arity count ?_)
      cases alternative <;> decide
  | function parameters =>
      have list : writes (parameters.map fun name => .word name.toList) =
          (" ".intercalate parameters).toList := by
        rw [writes_eq, String.toList_intercalate]
        simp [Function.comp_def, write]
      obtain ⟨body, rfl⟩ := List.length_eq_one_iff.mp count
      simp [Label.nested, write, writes, writeFurther, list, Label.opening, Label.closing]
  | block statements =>
      rw [Label.nested, write, writes_eq]
      simp [Label.opening, Label.closing]

theorem divides_classes {c : Char} (divided : divides c = true) :
    isDigit c = false ∧ continuesWord c = false ∧ c ≠ '.' := by
  simp only [divides, Bool.or_eq_true, beq_iff_eq] at divided
  rcases divided with (((closing | rfl) | rfl) | rfl) | rfl
  · unfold closes at closing
    split at closing
    case h_4 => cases closing
    all_goals decide
  all_goals decide

theorem number_plain {text : String} (well : numberText text.toList = true) :
    Plain (.word text.toList) := by
  obtain ⟨first, rest, same, _⟩ := Scan.number_text_head _ well
  refine .word (by simp [same]) fun c inside => Bool.eq_false_iff.mpr fun divided => ?_
  obtain ⟨notDigit, _, notPoint⟩ := divides_classes divided
  rcases number_text_char well inside with digit | point
  · rw [notDigit] at digit
    cases digit
  · exact notPoint point

theorem name_plain {name : String} (well : nameText name = true) : Plain (.word name.toList) := by
  rw [nameText, Bool.and_eq_true] at well
  obtain ⟨first, rest, same, _⟩ := Scan.word_text_head _ well.1
  refine .word (by simp [same]) fun c inside => Bool.eq_false_iff.mpr fun divided => ?_
  have continued := word_text_char well.1 inside
  rw [(divides_classes divided).2.1] at continued
  cases continued

theorem word_plain {text : List Char} (filled : text ≠ [])
    (each : (text.all fun c => !divides c) = true) : Plain (.word text) := by
  refine .word filled fun c inside => ?_
  have own := List.all_eq_true.mp each c inside
  rwa [Bool.not_eq_true'] at own

theorem nested_plain {label : Label} {items : List Nested} (legible : label.legible = true)
    (each : ∀ item ∈ items, Plain item) : Plain (label.nested items) := by
  cases label with
  | number text => exact number_plain legible
  | identifier name => exact name_plain legible
  | string value => exact .quoted _ (.inl rfl)
  | character value => exact .quoted _ (.inr rfl)
  | bool value => cases value <;> exact word_plain (by decide) (by decide)
  | operation operator =>
      have symbol : Plain (.word operator.symbol.toList) := by
        cases operator <;> exact word_plain (by decide) (by decide)
      exact .round (List.forall_mem_cons.mpr ⟨symbol, each⟩)
  | call arguments =>
      have form : Plain (.word "call".toList) := word_plain (by decide) (by decide)
      exact .round (List.forall_mem_cons.mpr ⟨form, each⟩)
  | conditional alternative =>
      have form : Plain (.word "if".toList) := word_plain (by decide) (by decide)
      exact .round (List.forall_mem_cons.mpr ⟨form, each⟩)
  | function parameters =>
      have names : Plain (.round (parameters.map fun name => .word name.toList)) := by
        refine .round fun item inside => ?_
        obtain ⟨name, member, rfl⟩ := List.mem_map.mp inside
        exact name_plain (List.all_eq_true.mp legible name member)
      have form : Plain (.word "def".toList) := word_plain (by decide) (by decide)
      exact .round (List.forall_mem_cons.mpr ⟨form, List.forall_mem_cons.mpr ⟨names, each⟩⟩)
  | block statements => exact .curly each

end Nested

namespace Node

inductive Legible : Node → Prop
  | intro {node : Node} (own : node.label.legible = true)
      (each : ∀ child ∈ node.children, Legible child) : Legible node

mutual
def nested : Node → Nested
  | .operation operator left right => (Label.operation operator).nested [left.nested, right.nested]
  | .call callee arguments =>
      (Label.call arguments.length).nested (callee.nested :: nesteds arguments)
  | .function parameters body => (Label.function parameters).nested [body.nested]
  | .ifThen condition branch => (Label.conditional false).nested [condition.nested, branch.nested]
  | .ifElse condition branch alternative =>
      (Label.conditional true).nested [condition.nested, branch.nested, alternative.nested]
  | .block statements => (Label.block statements.length).nested (nesteds statements)
  | .number text => (Label.number text).nested []
  | .string value => (Label.string value).nested []
  | .character value => (Label.character value).nested []
  | .bool value => (Label.bool value).nested []
  | .identifier name => (Label.identifier name).nested []
def nesteds : List Node → List Nested
  | [] => []
  | node :: nodes => node.nested :: nesteds nodes
end

@[simp] theorem nesteds_eq (nodes : List Node) : nesteds nodes = nodes.map nested := by
  induction nodes with
  | nil => rfl
  | cons node nodes ih => rw [nesteds, ih, List.map_cons]

theorem nested_eq (node : Node) : node.nested = node.label.nested (node.children.map nested) := by
  cases node <;> simp [nested, label, children]

theorem nested_count (node : Node) : (node.children.map nested).length = node.label.arity := by
  simp

theorem display_write (node : Node) : node.display.toList = node.nested.write := by
  induction node using children_induction with
  | step node ih =>
      have inner : node.children.map (String.toList ∘ display) = node.children.map (Nested.write ∘ nested) :=
        List.map_congr_left ih
      rw [nested_eq, Nested.nested_write node.nested_count, display_eq]
      simp [String.toList_intercalate, inner]

theorem nested_plain {node : Node} (legible : Legible node) : node.nested.Plain := by
  induction legible with
  | @intro node own each ih =>
      rw [nested_eq]
      refine Nested.nested_plain own fun item inside => ?_
      obtain ⟨child, member, rfl⟩ := List.mem_map.mp inside
      exact ih child member

theorem children_injective {nodes others : List Node}
    (each : ∀ node ∈ nodes, ∀ other ∈ others, node.nested = other.nested → node = other)
    (same : nodes.map nested = others.map nested) : nodes = others := by
  induction nodes generalizing others with
  | nil => rw [List.map_eq_nil_iff.mp same.symm]
  | cons node nodes ih =>
      cases others with
      | nil => cases same
      | cons other others =>
          obtain ⟨first, later⟩ := List.cons.inj same
          have rest := ih (fun node inside other member =>
            each node (by simp [inside]) other (by simp [member])) later
          rw [each node (by simp) other (by simp) first, rest]

theorem nested_injective {a b : Node} (first : Legible a) (second : Legible b)
    (same : a.nested = b.nested) : a = b := by
  induction first generalizing b with
  | @intro a own each ih =>
      obtain ⟨other, others⟩ := second
      rw [nested_eq a, nested_eq b] at same
      have read := Nested.label_nested own a.nested_count
      rw [same, Nested.label_nested other b.nested_count, Option.some.injEq, Prod.mk.injEq] at read
      have children := children_injective (fun child inside other member =>
        ih child inside (others other member)) read.2.symm
      have arity : a.label.arity = b.label.arity := by rw [label_arity, label_arity, children]
      have label := Label.uncounted_arity read.1.symm arity
      have built := of_label a
      rw [label, children, of_label b] at built
      exact (Option.some.inj built).symm

theorem display_injective {a b : Node} (first : Legible a) (second : Legible b)
    (same : a.display = b.display) : a = b := by
  apply nested_injective first second
  apply Nested.write_injective (nested_plain first) (nested_plain second)
  rw [← display_write, ← display_write, same]

theorem legible_of_well_formed (node : Node) (well : node.wellFormed = true) : Legible node := by
  induction node using children_induction with
  | step node ih =>
      have each : node.label.legible = true ∧ ∀ child ∈ node.children, child.wellFormed = true := by
        cases node <;>
          simp_all [wellFormed, label, children, Label.legible]
      exact .intro each.1 fun child inside => ih child inside (each.2 child inside)

end Node

namespace TokenStream

open Greedy

variable {stream : TokenStream}

theorem lexable_peek (lexable : Lexable stream.upcoming) : Lexable stream.peek.2.upcoming := by
  cases shown : stream.peek with
  | mk result behind =>
      cases result with
      | ok found =>
          have again := (peek_again stream found (congrArg Prod.fst shown)).2
          rw [shown] at again
          rwa [upcoming_next, again, ← upcoming_next]
      | error error =>
          have same := (next_of_peek stream).2 error (congrArg Prod.fst shown)
          rw [shown] at same
          have nothing := next_peeked stream
          rw [same] at nothing
          rw [upcoming, nothing]
          exact lexable_of_transcript _

theorem lexable_lasting : Lasting fun stream => Lexable stream.upcoming where
  nothing stream nothing := by
    rw [upcoming, nothing]
    exact lexable_of_transcript _
  looked _ lexable := lexable_peek lexable

theorem well_formed_of_parse_program {limit : Nat} {tree : Node} (lexable : Lexable stream.upcoming)
    (parsed : (stream.parseProgram limit).1 = .ok tree) : tree.wellFormed = true := by
  cases read : Rule.program limit stream.upcoming with
  | error stop =>
      rw [Reader.parse_program_stop read] at parsed
      cases parsed
  | ok item =>
      obtain ⟨statements, rest⟩ := item
      obtain rfl := Rule.program_reads_all _ _ _ _ read
      have well := statements_well_formed (program_statements read) lexable
      rw [Reader.parse_program_ok read] at parsed
      generalize (before stream []).peek = answer at parsed
      obtain ⟨result, behind⟩ := answer
      cases result with
      | error error => cases parsed
      | ok found =>
          cases parsed
          exact well

end TokenStream

theorem legible_of_answer {cursor : Cursor} {calls : List Call} {limit count : Nat} {tree : Node}
    (parsed : (Parser.ofStream (Call.run (.ofCursor cursor) calls).2).answer limit count = .ok tree) :
    tree.Legible := by
  have fresh := TokenStream.lexable_lasting.nothing (.ofCursor cursor) rfl
  have called := Call.run_lasting TokenStream.lexable_lasting fresh calls
  obtain ⟨later, same, lexable⟩ := resumed_lasting TokenStream.lexable_lasting called limit count
  rw [Parser.answer, same, parser_eq] at parsed
  exact Node.legible_of_well_formed tree (TokenStream.well_formed_of_parse_program lexable parsed)

theorem display_tells_tree :
    (∀ a b : Node, a.Legible → b.Legible → a.display = b.display → a = b) ∧
      ∀ (cursor other : Cursor) (calls others : List Call) (limit bound count index : Nat) (a b : Node),
        (Parser.ofStream (Call.run (.ofCursor cursor) calls).2).answer limit count = .ok a →
        (Parser.ofStream (Call.run (.ofCursor other) others).2).answer bound index = .ok b →
        a.display = b.display → a = b := by
  constructor
  · intro a b first second same
    exact Node.display_injective first second same
  · intro cursor other calls others limit bound count index a b parsed known same
    exact Node.display_injective (legible_of_answer parsed) (legible_of_answer known) same

theorem call_told_by_display :
    let first := Parser.ofStream (Call.run (.ofCursor (.ofString "f(\")\", if x \x7b\x7d)")) []).2
    let second := Parser.ofStream
      (Call.run (.ofCursor (.ofString "f (\")\" , if (x) \x7b\x7d,) # a\n;")) [.peek]).2
    let tree := Node.block [.call (.identifier "f") [.string ")", .ifThen (.identifier "x") (.block [])]]
    tree.Legible ∧ first.answer 9 0 = .ok tree ∧ second.answer 5 0 = .ok tree ∧
      tree.display = "\x7b(call f \")\" (if x \x7b\x7d))\x7d" ∧
      (∀ other, other.Legible → other.display = tree.display → other = tree) ∧
      ∀ other, second.answer 5 0 = .ok other → tree.display = other.display → tree = other := by
  intro first second tree
  have parsed : first.answer 9 0 = .ok tree :=
    (answer_zero _ _).trans (by with_unfolding_all rfl)
  have again : second.answer 5 0 = .ok tree :=
    (answer_zero _ _).trans (by with_unfolding_all rfl)
  have shown : tree.display = "\x7b(call f \")\" (if x \x7b\x7d))\x7d" := by
    rw [← String.toList_inj, Node.display_write]
    rfl
  have legible : tree.Legible := legible_of_answer parsed
  refine ⟨legible, parsed, again, shown, fun other known same => ?_, fun other known same => ?_⟩
  · exact display_tells_tree.1 other tree known legible same
  · exact display_tells_tree.2 _ _ _ _ _ _ _ _ _ _ parsed known same

end ScriptReader
