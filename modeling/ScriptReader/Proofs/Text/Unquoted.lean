import ScriptReader.Text.Machine
import ScriptReader.Text.Quoted
import ScriptReader.Token.Class

set_option autoImplicit false

namespace ScriptReader.Quoted

def digitValue (c : Char) : Nat :=
  if isDigit c then c.toNat - '0'.toNat else c.toNat - 'a'.toNat + 10

def codeValue (digits : List Char) : Nat :=
  digits.foldl (fun value c => 16 * value + digitValue c) 0

def escaped? : List Char → Option (Char × List Char)
  | [] => none
  | c :: text =>
      if c = '0' then some ('\x00', text)
      else if c = 't' then some ('\t', text)
      else if c = 'r' then some ('\r', text)
      else if c = 'n' then some ('\n', text)
      else if c = 'u' then
        let (digits, behind) := Machine.longest (Machine.all (· != '\x7d')) () (text.drop 1)
        some (Char.ofNat (codeValue digits), behind.drop 1)
      else some (c, text)

def first? : List Char → Option (Char × List Char)
  | [] => none
  | c :: text => if c = '\\' then escaped? text else some (c, text)

theorem digits_induction {motive : Nat → List Char → Prop}
    (single : ∀ d, d < 16 → motive d [Nat.digitChar d])
    (more : ∀ n d, d < 16 → motive n (Nat.toDigits 16 n) →
      motive (16 * n + d) (Nat.toDigits 16 n ++ [Nat.digitChar d])) (n : Nat) :
    motive n (Nat.toDigits 16 n) := by
  induction n using Nat.strongRecOn with
  | ind n ih =>
      by_cases small : n < 16
      · rw [Nat.toDigits_of_lt_base small]
        exact single n small
      · have shorter : n / 16 < n := by omega
        have last := more (n / 16) (n % 16) (by omega) (ih _ shorter)
        rw [Nat.div_add_mod] at last
        rwa [Nat.toDigits_of_base_le (by decide) (by omega)]

theorem digit_char_value : ∀ d, d < 16 → digitValue (Nat.digitChar d) = d := by
  decide

theorem digit_char_no_brace : ∀ d, d < 16 → Nat.digitChar d ≠ '\x7d' := by
  decide

@[simp] theorem code_value_digits (n : Nat) : codeValue (Nat.toDigits 16 n) = n := by
  induction n using digits_induction with
  | single d small => simp [codeValue, digit_char_value d small]
  | more n d small ih =>
      rw [codeValue] at ih ⊢
      rw [List.foldl_append, ih]
      simp [digit_char_value d small]

theorem digits_no_brace (n : Nat) : ∀ c ∈ Nat.toDigits 16 n, c ≠ '\x7d' := by
  induction n using digits_induction with
  | single d small =>
      intro c inside
      rw [List.mem_singleton.mp inside]
      exact digit_char_no_brace d small
  | more n d small ih =>
      intro c inside
      rcases List.mem_append.mp inside with front | last
      · exact ih c front
      · rw [List.mem_singleton.mp last]
        exact digit_char_no_brace d small

theorem first_code_point (c : Char) (rest : List Char) :
    first? (codePoint c ++ rest) = some (c, rest) := by
  have inside : Machine.after (Machine.all (· != '\x7d')) () (Nat.toDigits 16 c.toNat) = some () := by
    rw [Machine.after_all]
    simpa using digits_no_brace c.toNat
  have halts : Machine.Halts (Machine.all (· != '\x7d')) () ('\x7d' :: rest) := by
    simp [Machine.Halts, Machine.all]
  have digits := Machine.longest_of_after _ _ _ _ _ inside halts
  simp [first?, escaped?, codePoint, digits]

variable {quote : Char} (mark : quote = '"' ∨ quote = '\'')

include mark in
theorem first_escape (c : Char) (rest : List Char) :
    first? (escape quote c ++ rest) = some (c, rest) := by
  simp only [escape]
  split
  · simp [first?, escaped?, *]
  split
  · simp [first?, escaped?, *]
  split
  · simp [first?, escaped?, *]
  split
  · simp [first?, escaped?, *]
  split
  · simp [first?, escaped?, *]
  split
  · rename_i enclosing
    subst enclosing
    rcases mark with rfl | rfl <;> simp [first?, escaped?]
  split
  · exact first_code_point c rest
  · rename_i bare _ _
    simp [first?, bare]

include mark in
theorem escape_apart (c d : Char) (rest behind : List Char)
    (same : escape quote c ++ rest = escape quote d ++ behind) : c = d ∧ rest = behind := by
  have read := first_escape mark c rest
  rw [same, first_escape mark d behind] at read
  cases read
  exact ⟨rfl, rfl⟩

theorem escape_no_quote (c : Char) (rest behind : List Char) (plain : quote ≠ '\\') :
    escape quote c ++ rest ≠ quote :: behind := by
  intro same
  rcases escape_shape quote c with ⟨bare, _, other⟩ | ⟨tail, _, slashed⟩
  · rw [bare] at same
    exact other (List.cons.inj same).1
  · rw [slashed] at same
    exact plain (List.cons.inj same).1.symm

include mark in
theorem encode_apart (a b rest behind : List Char)
    (same : encode quote a ++ rest = encode quote b ++ behind) : a = b ∧ rest = behind := by
  have plain : quote ≠ '\\' := by rcases mark with rfl | rfl <;> decide
  simp only [encode, List.cons_append, List.append_assoc, List.nil_append, List.cons.injEq,
    true_and] at same
  induction a generalizing b with
  | nil =>
      cases b with
      | nil => exact ⟨rfl, (List.cons.inj same).2⟩
      | cons d b =>
          rw [List.flatMap_cons, List.append_assoc] at same
          exact absurd same.symm (escape_no_quote d _ rest plain)
  | cons c a ih =>
      rw [List.flatMap_cons, List.append_assoc] at same
      cases b with
      | nil => exact absurd same (escape_no_quote c _ behind plain)
      | cons d b =>
          rw [List.flatMap_cons, List.append_assoc] at same
          obtain ⟨rfl, later⟩ := escape_apart mark c d _ _ same
          obtain ⟨rfl, follows⟩ := ih b later
          exact ⟨rfl, follows⟩

end ScriptReader.Quoted
