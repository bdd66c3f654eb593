import ScriptReader.Token.Scan

set_option autoImplicit false

namespace ScriptReader

inductive Gap : List Char → Prop where
  | none : Gap []
  | blank {gap : List Char} (c : Char) (blank : c = ' ' ∨ c = '\t' ∨ c = '\n' ∨ c = '\r')
      (later : Gap gap) : Gap (c :: gap)
  | comment {gap : List Char} (inside : List Char) (line : '\n' ∉ inside) (later : Gap gap) :
      Gap ('#' :: (inside ++ '\n' :: gap))

-- Behind the last token a comment needs no newline.
inductive FinalGap : List Char → Prop where
  | whole {gap : List Char} (skips : Gap gap) : FinalGap gap
  | comment {gap : List Char} (skips : Gap gap) (inside : List Char) (line : '\n' ∉ inside) :
      FinalGap (gap ++ '#' :: inside)

theorem is_blank_iff (c : Char) : isBlank c = true ↔ c = ' ' ∨ c = '\t' ∨ c = '\n' ∨ c = '\r' := by
  constructor
  · intro blank
    unfold isBlank at blank
    split at blank
    · exact .inl rfl
    · exact .inr (.inl rfl)
    · exact .inr (.inr (.inl rfl))
    · exact .inr (.inr (.inr rfl))
    · cases blank
  · rintro (rfl | rfl | rfl | rfl) <;> rfl

namespace Scan

theorem after_comment (inside rest : List Char) (line : '\n' ∉ inside) :
    Machine.after gap true (inside ++ rest) = Machine.after gap true rest := by
  induction inside with
  | nil => rfl
  | cons c inside ih =>
      obtain ⟨other, later⟩ : '\n' ≠ c ∧ '\n' ∉ inside := by simpa using line
      have inner : (c != '\n') = true := bne_iff_ne.mpr (Ne.symm other)
      simpa [Machine.after, gap, inner] using ih later

theorem after_of_gap {text : List Char} (skips : Gap text) :
    Machine.after gap false text = some false := by
  induction skips with
  | none => rfl
  | blank c blank later ih =>
      have known := (is_blank_iff c).mpr blank
      have other : c ≠ '#' := by rintro rfl; exact absurd known (by decide)
      simpa [Machine.after, gap, other, known] using ih
  | comment inside line later ih =>
      have entered : Machine.after gap true (inside ++ '\n' :: _) = some false :=
        (after_comment inside _ line).trans ih
      simpa [Machine.after, gap] using entered

theorem gap_cases (text : List Char) (last : Bool)
    (reads : Machine.after gap false text = some last) :
    last = false ∧ Gap text ∨
      last = true ∧ ∃ before inside, text = before ++ '#' :: inside ∧ Gap before ∧ '\n' ∉ inside := by
  match text with
  | [] =>
      cases reads
      exact .inl ⟨rfl, .none⟩
  | c :: text =>
      by_cases opened : c = '#'
      · subst opened
        have entered : Machine.after gap true text = some last := reads
        by_cases ended : '\n' ∈ text
        · obtain ⟨inside, later, same, line⟩ := List.eq_append_cons_of_mem ended
          subst same
          rw [after_comment inside _ line] at entered
          rcases gap_cases later last entered with
            ⟨finished, known⟩ | ⟨unended, before, rest, rfl, known, more⟩
          · exact .inl ⟨finished, .comment inside line known⟩
          · exact .inr ⟨unended, '#' :: (inside ++ '\n' :: before), rest, by simp,
              .comment inside line known, more⟩
        · have whole := after_comment text [] ended
          rw [List.append_nil, entered] at whole
          cases whole
          exact .inr ⟨rfl, [], text, rfl, .none, ended⟩
      · by_cases known : isBlank c = true
        · have entered : Machine.after gap false text = some last := by
            simpa [Machine.after, gap, opened, known] using reads
          have blank := (is_blank_iff c).mp known
          rcases gap_cases text last entered with
            ⟨finished, later⟩ | ⟨unended, before, rest, rfl, later, more⟩
          · exact .inl ⟨finished, .blank c blank later⟩
          · exact .inr ⟨unended, c :: before, rest, rfl, .blank c blank later, more⟩
        · simp [Machine.after, gap, opened, known] at reads
termination_by text.length
decreasing_by
  · simp [same]; omega
  · simp

theorem after_gap_iff (text : List Char) :
    Machine.after gap false text = some false ↔ Gap text := by
  constructor
  · intro reads
    rcases gap_cases text false reads with ⟨_, skips⟩ | ⟨inside, _⟩
    · exact skips
    · cases inside
  · exact after_of_gap

theorem after_final_gap_iff (text : List Char) :
    (∃ last, Machine.after gap false text = some last) ↔ FinalGap text := by
  constructor
  · rintro ⟨last, reads⟩
    rcases gap_cases text last reads with ⟨_, skips⟩ | ⟨_, before, inside, rfl, skips, line⟩
    · exact .whole skips
    · exact .comment skips inside line
  · intro final
    cases final with
    | whole skips => exact ⟨false, after_of_gap skips⟩
    | @comment before skips inside line =>
        have entered := after_comment inside [] line
        rw [List.append_nil] at entered
        refine ⟨true, ?_⟩
        rw [Machine.after_append, after_of_gap skips]
        exact entered

end Scan

theorem read_through_gap {gap : List Char} (skips : Gap gap) (text : List Char) :
    read (gap ++ text) = ⟨gap ++ (read text).gap, (read text).lexed⟩ := by
  have passed := Scan.after_of_gap skips
  obtain ⟨last, reads, halts⟩ := Machine.after_longest Scan.gap false text
  have whole := Machine.longest_append Scan.gap false text
  have joined := Machine.longest_of_after Scan.gap false last
    (gap ++ (Machine.longest Scan.gap false text).1) (Machine.longest Scan.gap false text).2
    (by rw [Machine.after_append, passed]; exact reads) halts
  rw [List.append_assoc, whole] at joined
  simp only [read, joined]

end ScriptReader
