import ScriptReader.Proofs.Text.Unquoted

set_option autoImplicit false

namespace ScriptReader

inductive Nested where
  | word (text : List Char)
  | quoted (quote : Char) (text : List Char)
  | round (items : List Nested)
  | curly (items : List Nested)

namespace Nested

mutual
def write : Nested → List Char
  | .word text => text
  | .quoted quote text => Quoted.encode quote text
  | .round items => '(' :: (writes items ++ [')'])
  | .curly items => '\x7b' :: (writes items ++ ['\x7d'])
def writes : List Nested → List Char
  | [] => []
  | item :: items => item.write ++ writeFurther items
def writeFurther : List Nested → List Char
  | [] => []
  | item :: items => ' ' :: (item.write ++ writeFurther items)
end

def closes (c : Char) : Bool :=
  match c with
  | ' ' | ')' | '\x7d' => true
  | _ => false

def divides (c : Char) : Bool :=
  closes c || c == '(' || c == '\x7b' || c == '"' || c == '\''

inductive Plain : Nested → Prop
  | word {text : List Char} (filled : text ≠ []) (each : ∀ c ∈ text, divides c = false) :
      Plain (.word text)
  | quoted {quote : Char} (text : List Char) (mark : quote = '"' ∨ quote = '\'') :
      Plain (.quoted quote text)
  | round {items : List Nested} (each : ∀ item ∈ items, Plain item) : Plain (.round items)
  | curly {items : List Nested} (each : ∀ item ∈ items, Plain item) : Plain (.curly items)

def Bounded (rest : List Char) : Prop := ∀ c text, rest = c :: text → closes c = true

def Apart (item : Nested) : Prop :=
  ∀ other, Plain other → ∀ rest behind, Bounded rest → Bounded behind →
    item.write ++ rest = other.write ++ behind → item = other ∧ rest = behind

theorem divides_of_closes {c : Char} (closing : closes c = true) : divides c = true := by
  simp [divides, closing]

theorem bounded_cons {c : Char} (text : List Char) (closing : closes c = true) :
    Bounded (c :: text) := by
  intro d rest same
  cases same
  exact closing

theorem bounded_further (items : List Nested) {c : Char} (rest : List Char)
    (closing : closes c = true) : Bounded (writeFurther items ++ c :: rest) := by
  cases items with
  | nil => exact bounded_cons rest closing
  | cons item items => exact bounded_cons _ rfl

theorem write_opens {item : Nested} (plain : Plain item) :
    ∃ c text, item.write = c :: text ∧ closes c = false := by
  cases plain with
  | @word text filled each =>
      obtain ⟨c, rest, rfl⟩ := List.exists_cons_of_ne_nil filled
      refine ⟨c, rest, rfl, Bool.eq_false_iff.mpr fun closing => ?_⟩
      have divided := divides_of_closes closing
      rw [each c (by simp)] at divided
      cases divided
  | quoted text mark =>
      refine ⟨_, _, rfl, ?_⟩
      rcases mark with rfl | rfl <;> rfl
  | round each => exact ⟨_, _, rfl, rfl⟩
  | curly each => exact ⟨_, _, rfl, rfl⟩

theorem write_not_closing {item : Nested} (plain : Plain item) {c : Char}
    (closing : closes c = true) (rest behind : List Char) :
    item.write ++ rest ≠ c :: behind := by
  obtain ⟨d, text, same, opens⟩ := write_opens plain
  intro met
  rw [same] at met
  rw [(List.cons.inj met).1, closing] at opens
  cases opens

theorem word_apart {a b rest behind : List Char} (first : ∀ c ∈ a, divides c = false)
    (second : ∀ c ∈ b, divides c = false) (ends : Bounded rest) (stops : Bounded behind)
    (same : a ++ rest = b ++ behind) : a = b ∧ rest = behind := by
  have longest : ∀ word rest : List Char, (∀ c ∈ word, divides c = false) → Bounded rest →
      Machine.longest (Machine.all fun c => !divides c) () (word ++ rest) = (word, rest) := by
    intro word rest each ends
    apply Machine.longest_of_after
    · rw [Machine.after_all]
      simpa using each
    · cases rest with
      | nil => trivial
      | cons c text => simp [Machine.Halts, Machine.all, divides_of_closes (ends c text rfl)]
  have read := longest a rest first ends
  rw [same, longest b behind second stops] at read
  cases read
  exact ⟨rfl, rfl⟩

theorem further_apart {items others : List Nested} {c : Char} {rest behind : List Char}
    (closing : closes c = true) (wall : c ≠ ' ') (each : ∀ item ∈ items, Apart item)
    (plain : ∀ other ∈ others, Plain other)
    (same : writeFurther items ++ c :: rest = writeFurther others ++ c :: behind) :
    items = others ∧ rest = behind := by
  induction items generalizing others with
  | nil =>
      cases others with
      | nil => exact ⟨rfl, (List.cons.inj same).2⟩
      | cons other others => exact absurd (List.cons.inj same).1 wall
  | cons item items ih =>
      cases others with
      | nil => exact absurd (List.cons.inj same).1.symm wall
      | cons other others =>
          simp only [writeFurther, List.cons_append, List.append_assoc] at same
          obtain ⟨rfl, later⟩ := each item (by simp) other (plain other (by simp)) _ _
            (bounded_further items rest closing) (bounded_further others behind closing)
            (List.cons.inj same).2
          obtain ⟨rfl, follows⟩ := ih (fun item inside => each item (by simp [inside]))
            (fun other inside => plain other (by simp [inside])) later
          exact ⟨rfl, follows⟩

theorem writes_apart {items others : List Nested} {c : Char} {rest behind : List Char}
    (closing : closes c = true) (wall : c ≠ ' ') (own : ∀ item ∈ items, Plain item)
    (each : ∀ item ∈ items, Apart item) (plain : ∀ other ∈ others, Plain other)
    (same : writes items ++ c :: rest = writes others ++ c :: behind) :
    items = others ∧ rest = behind := by
  cases items with
  | nil =>
      cases others with
      | nil => exact ⟨rfl, (List.cons.inj same).2⟩
      | cons other others =>
          rw [writes, writes, List.append_assoc] at same
          exact absurd same.symm (write_not_closing (plain other (by simp)) closing _ _)
  | cons item items =>
      cases others with
      | nil =>
          rw [writes, writes, List.append_assoc] at same
          exact absurd same (write_not_closing (own item (by simp)) closing _ _)
      | cons other others =>
          -- A space in front makes the first item one like the others.
          have further : writeFurther (item :: items) ++ c :: rest =
              writeFurther (other :: others) ++ c :: behind := congrArg (' ' :: ·) same
          exact further_apart closing wall each plain further

theorem word_head {text : List Char} (filled : text ≠ []) (each : ∀ c ∈ text, divides c = false)
    {c : Char} (divided : divides c = true) (rest behind : List Char) :
    text ++ rest ≠ c :: behind := by
  obtain ⟨d, others, rfl⟩ := List.exists_cons_of_ne_nil filled
  intro met
  have own := each d (by simp)
  rw [(List.cons.inj met).1, divided] at own
  cases own

theorem encode_head {quote : Char} (mark : quote = '"' ∨ quote = '\'') {c : Char}
    (double : c ≠ '"') (single : c ≠ '\'') (text rest behind : List Char) :
    Quoted.encode quote text ++ rest ≠ c :: behind := by
  intro met
  have head := (List.cons.inj met).1
  rcases mark with rfl | rfl
  · exact double head.symm
  · exact single head.symm

theorem write_apart {item : Nested} (plain : Plain item) : Apart item := by
  induction plain with
  | @word text filled each =>
      intro other known rest behind ends stops same
      cases known with
      | word _ others =>
          obtain ⟨rfl, follows⟩ := word_apart each others ends stops same
          exact ⟨rfl, follows⟩
      | quoted _ mark =>
          refine absurd same (word_head filled each ?_ rest _)
          rcases mark with rfl | rfl <;> rfl
      | round _ => exact absurd same (word_head filled each rfl rest _)
      | curly _ => exact absurd same (word_head filled each rfl rest _)
  | @quoted quote text mark =>
      intro other known rest behind ends stops same
      cases known with
      | word filled others =>
          refine absurd same.symm (word_head filled others ?_ behind _)
          rcases mark with rfl | rfl <;> rfl
      | quoted _ _ =>
          cases (List.cons.inj same).1
          obtain ⟨rfl, follows⟩ := Quoted.encode_apart mark _ _ rest behind same
          exact ⟨rfl, follows⟩
      | round _ => exact absurd same (encode_head mark (by decide) (by decide) text rest _)
      | curly _ => exact absurd same (encode_head mark (by decide) (by decide) text rest _)
  | @round items own each =>
      intro other known rest behind ends stops same
      cases known with
      | word filled others => exact absurd same.symm (word_head filled others rfl behind _)
      | quoted _ mark => exact absurd same.symm (encode_head mark (by decide) (by decide) _ behind _)
      | round others =>
          simp only [write, List.cons_append, List.append_assoc, List.nil_append] at same
          obtain ⟨rfl, follows⟩ := writes_apart rfl (by decide) own each others (List.cons.inj same).2
          exact ⟨rfl, follows⟩
      | curly _ => cases (List.cons.inj same).1
  | @curly items own each =>
      intro other known rest behind ends stops same
      cases known with
      | word filled others => exact absurd same.symm (word_head filled others rfl behind _)
      | quoted _ mark => exact absurd same.symm (encode_head mark (by decide) (by decide) _ behind _)
      | round _ => cases (List.cons.inj same).1
      | curly others =>
          simp only [write, List.cons_append, List.append_assoc, List.nil_append] at same
          obtain ⟨rfl, follows⟩ := writes_apart rfl (by decide) own each others (List.cons.inj same).2
          exact ⟨rfl, follows⟩

theorem write_injective {a b : Nested} (first : Plain a) (second : Plain b)
    (same : a.write = b.write) : a = b := by
  have nothing : Bounded [] := fun c text empty => by cases empty
  apply (write_apart first b second [] [] nothing nothing _).1
  rw [same]

theorem writes_eq (items : List Nested) : writes items = [' '].intercalate (items.map write) := by
  have further : ∀ (items : List Nested) (first : Nested),
      first.write ++ writeFurther items = [' '].intercalate ((first :: items).map write) := by
    intro items
    induction items with
    | nil => intro first; simp [writeFurther]
    | cons next items ih =>
        intro first
        have later := ih next
        rw [List.map_cons] at later
        rw [List.map_cons, List.map_cons, List.intercalate_cons_cons, ← later]
        simp [writeFurther]
  cases items with
  | nil => rfl
  | cons first items => exact further items first

end Nested

end ScriptReader
