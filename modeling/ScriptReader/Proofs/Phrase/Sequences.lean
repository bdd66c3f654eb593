import ScriptReader.Grammar.Progress
import ScriptReader.Proofs.Phrase.Basic

set_option autoImplicit false

namespace ScriptReader.Rule

open Phrase

variable {α β : Type}

structure Reads (rule : Rule α) (phrase : Phrase α) : Prop where
  accepts : ∀ taken value rest, phrase taken value rest → rule (taken ++ rest) = .ok (value, rest)
  takes : ∀ tokens value rest, rule tokens = .ok (value, rest) →
    ∃ taken, tokens = taken ++ rest ∧ phrase taken value rest

@[simp] theorem ok_bind (item : α) (next : α → Except Stop β) : (Except.ok item >>= next) = next item := rfl

theorem pure_ok {item value : α} {tokens rest : List TokenKind}
    (read : (pure (item, tokens) : Except Stop (α × List TokenKind)) = .ok (value, rest)) :
    item = value ∧ tokens = rest := by
  cases read
  exact ⟨rfl, rfl⟩

@[simp] theorem mark_here (c : Char) (tokens : List TokenKind) :
    mark c (.punctuation c :: tokens) = .ok ((), tokens) := by
  simp [mark]

theorem opens_with_eq (c : Char) (tokens : List TokenKind) :
    opensWith c tokens = true ↔ ∃ rest, tokens = .punctuation c :: rest := by
  constructor
  · intro opens
    unfold opensWith at opens
    split at opens
    · rename_i found rest
      exact ⟨rest, by rw [eq_of_beq opens]⟩
    · cases opens
  · rintro ⟨rest, rfl⟩
    simp [opensWith]

section Lists

variable {element : Rule α} {phrase : Phrase α} {separator : Char} {ends : List TokenKind → Bool}

theorem further_element_no_more (found : List α) (tokens : List TokenKind)
    (ended : noMore ends tokens = true) :
    furtherElement element separator ends found tokens = .ok none := by
  rw [furtherElement, if_pos]
  exact ended

theorem further_element_separator (found : List α) (tokens : List TokenKind)
    (apart : ends (.punctuation separator :: tokens) = false) :
    furtherElement element separator ends found (.punctuation separator :: tokens) =
      if ends tokens then .ok (some (found, tokens))
      else (element tokens).bind fun (next, tokens) => .ok (some (next :: found, tokens)) := by
  rw [furtherElement, if_neg (by simp [apart]), mark_here]
  rfl

theorem further_element_none (found : List α) (tokens : List TokenKind)
    (ended : furtherElement element separator ends found tokens = .ok none) :
    noMore ends tokens = true := by
  unfold furtherElement at ended
  split at ended
  · assumption
  · obtain ⟨⟨_, _⟩, _, ended⟩ := bind_ok ended
    dsimp only at ended
    split at ended
    · cases ended
    · obtain ⟨⟨_, _⟩, _, ended⟩ := bind_ok ended
      cases ended

theorem further_element_some (found next : List α) (tokens behind : List TokenKind)
    (took : furtherElement element separator ends found tokens = .ok (some (next, behind))) :
    ∃ separated, tokens = .punctuation separator :: separated ∧
      (ends separated = true ∧ next = found ∧ behind = separated ∨
        ends separated = false ∧ ∃ value, next = value :: found ∧
          element separated = .ok (value, behind)) := by
  unfold furtherElement at took
  split at took
  · cases took
  · obtain ⟨⟨_, separated⟩, marked, took⟩ := bind_ok took
    refine ⟨separated, mark_eq_ok marked, ?_⟩
    dsimp only at took
    split at took
    · rename_i ended
      cases took
      exact .inl ⟨ended, rfl, rfl⟩
    · rename_i unended
      obtain ⟨⟨value, last⟩, read, took⟩ := bind_ok took
      cases took
      exact .inr ⟨by simpa using unended, value, rfl, read⟩

theorem further_accepts (reads : Reads element phrase) (shortens : Shortens element)
    (apart : ∀ tokens, ends (.punctuation separator :: tokens) = false) (found values : List α)
    (taken rest : List TokenKind) (further : Further phrase separator ends taken values rest) :
    repeatedly (furtherElement element separator ends) found (taken ++ rest) =
      .ok (values.reverse ++ found, rest) := by
  have progress := further_element_progress element separator ends shortens
  induction further generalizing found with
  | done ended =>
      rw [List.nil_append, repeatedly_eq _ progress, further_element_no_more _ _ ended]
      rfl
  | @trailing rest ended =>
      have ending : noMore ends rest = true := by simp [noMore, ended]
      rw [List.cons_append, repeatedly_eq _ progress, further_element_separator _ _ (apart _),
        List.nil_append, if_pos ended]
      dsimp only
      rw [repeatedly_eq _ progress, further_element_no_more _ _ ending]
      rfl
  | next unended read later ih =>
      have taken := reads.accepts _ _ _ read
      rw [List.cons_append, repeatedly_eq _ progress, further_element_separator _ _ (apart _),
        List.append_assoc, if_neg (by simp [unended]), taken]
      exact (ih _).trans (by simp)

theorem further_takes (reads : Reads element phrase) (shortens : Shortens element)
    (apart : ∀ tokens, ends (.punctuation separator :: tokens) = false) (found result : List α)
    (tokens rest : List TokenKind)
    (read : repeatedly (furtherElement element separator ends) found tokens = .ok (result, rest)) :
    ∃ taken values, tokens = taken ++ rest ∧ result = values.reverse ++ found ∧
      Further phrase separator ends taken values rest := by
  have progress := further_element_progress element separator ends shortens
  refine repeatedly_induction _ progress (motive := fun found tokens =>
    ∃ taken values, tokens = taken ++ rest ∧ result = values.reverse ++ found ∧
      Further phrase separator ends taken values rest) found result tokens rest read ?done ?further
  case done =>
    exact fun ended => ⟨[], [], rfl, rfl, .done (further_element_none _ _ ended)⟩
  case further =>
    rintro found tokens next behind took ⟨taken, values, rfl, rfl, further⟩
    obtain ⟨separated, rfl, ⟨ended, rfl, rfl⟩ | ⟨unended, value, rfl, first⟩⟩ :=
      further_element_some _ _ _ _ took
    · -- Behind a separator that ends the sequence nothing further is read.
      refine ⟨.punctuation separator :: taken, values, rfl, rfl, ?_⟩
      cases further with
      | done _ => exact .trailing ended
      | trailing _ => simp [apart] at ended
      | next _ _ _ => simp [apart] at ended
    · obtain ⟨front, rfl, read⟩ := reads.takes _ _ _ first
      refine ⟨.punctuation separator :: (front ++ taken), value :: values, by simp, by simp, ?_⟩
      exact .next unended read further

theorem elements_reads (reads : Reads element phrase) (shortens : Shortens element)
    (apart : ∀ tokens, ends (.punctuation separator :: tokens) = false) :
    Reads (elements element separator ends) (Listed phrase separator ends) where
  accepts taken values rest listed := by
    cases listed with
    | none ended =>
        rw [elements, if_pos]
        · rfl
        · exact ended
    | some unended read later =>
        rw [elements, if_neg, List.append_assoc, reads.accepts _ _ _ read, ok_bind]
        · dsimp only
          rw [further_accepts reads shortens apart _ _ _ _ later, ok_bind]
          simp [pure, Except.pure]
        · rw [List.append_assoc]
          exact Bool.not_eq_true _ ▸ unended
  takes tokens values rest read := by
    unfold elements at read
    split at read
    · rename_i ended
      cases read
      exact ⟨[], rfl, .none ended⟩
    · rename_i unended
      obtain ⟨⟨value, behind⟩, first, read⟩ := bind_ok read
      obtain ⟨⟨found, last⟩, looped, read⟩ := bind_ok read
      obtain ⟨front, rfl, begun⟩ := reads.takes _ _ _ first
      obtain ⟨taken, more, rfl, rfl, later⟩ := further_takes reads shortens apart _ _ _ _ looped
      cases read
      refine ⟨front ++ taken, by simp, ?_⟩
      rw [show (more.reverse ++ [value]).reverse = value :: more by simp]
      exact .some (by simpa [noMore] using unended) begun later

theorem enclosed_reads (opening closing separator : Char) (different : separator ≠ closing)
    (reads : Reads element phrase) (shortens : Shortens element) :
    Reads (enclosed opening closing separator element)
      (Enclosed opening closing separator phrase) := by
  have apart : ∀ tokens, opensWith closing (.punctuation separator :: tokens) = false := by
    simp [opensWith, different]
  have listed := elements_reads reads shortens apart
  constructor
  · rintro _ values rest ⟨inside⟩
    have taken := listed.accepts _ _ _ inside
    simp only [enclosed, List.cons_append, List.append_assoc, List.nil_append, mark_here, ok_bind,
      taken]
    rfl
  · intro tokens values rest read
    obtain ⟨inside, rfl, middle⟩ := bracketed_ok read
    obtain ⟨taken, rfl, phrase⟩ := listed.takes _ _ _ middle
    exact ⟨_, by simp, .mk phrase⟩

end Lists

theorem parameter_reads : Reads parameter Parameter where
  accepts := by
    rintro _ _ _ ⟨name, rest⟩
    rfl
  takes tokens value rest read := by
    unfold parameter at read
    split at read
    · cases read
      exact ⟨_, rfl, .mk _ _⟩
    · cases read

end ScriptReader.Rule
