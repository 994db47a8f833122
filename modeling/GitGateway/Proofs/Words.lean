import GitGateway.Text.Blank
import Mathlib.Data.List.Basic

/-!
# The words of a text

Which words a text has is written down here as a relation (`Spells`): words stand in their order,
with blanks around them and at least one blank between each and the next.  Reading finds the only
words that a text spells (`words_eq_iff`), so what is proved of spelled words holds of those that
are read, whatever the blanks.
-/

namespace GitGateway.Text

/-- A word: at least one character, none of them blank. -/
structure IsWord (w : List Char) : Prop where
  ne_nil : w ≠ []
  not_blank : ∀ c ∈ w, isBlank c = false

/-- The text is the words `ws` in their order, with blanks around them and at least one blank
between each and the next. -/
inductive Spells : List (List Char) → List Char → Prop
  | nil : Spells [] []
  | blank {c : Char} {ws : List (List Char)} {cs : List Char} :
    isBlank c = true → Spells ws cs → Spells ws (c :: cs)
  | word {w : List Char} {ws : List (List Char)} {cs : List Char} :
    IsWord w → (∀ c ∈ cs.head?, isBlank c = true) → Spells ws cs → Spells (w :: ws) (w ++ cs)

variable {c : Char} {w cs : List Char} {ws ws' : List (List Char)}

/-- The words found before come first. -/
theorem wordsFrom_done (current : List Char) (done : List (List Char)) (cs : List Char) :
    wordsFrom current done cs = done.reverse ++ wordsFrom current [] cs := by
  induction cs generalizing current done with
  | nil => cases current <;> simp [wordsFrom]
  | cons c cs ih =>
    rw [wordsFrom, wordsFrom]
    by_cases hc : isBlank c = true
    · rw [if_pos hc, if_pos hc]
      cases current with
      | nil => exact ih [] done
      | cons b bs =>
        simp only [List.isEmpty_cons, Bool.false_eq_true, if_false]
        rw [ih [] (_ :: done), ih [] [_]]
        simp
    · rw [if_neg hc, if_neg hc]
      exact ih (c :: current) done

theorem words_blank (h : isBlank c = true) (cs : List Char) : words (c :: cs) = words cs := by
  rw [words, wordsFrom, if_pos h]
  rfl

/-- A word that is being read goes on to the next blank. -/
theorem wordsFrom_word (current : List Char) (hw : ∀ c ∈ w, isBlank c = false)
    (hne : current ≠ [] ∨ w ≠ []) (hcs : ∀ c ∈ cs.head?, isBlank c = true) :
    wordsFrom current [] (w ++ cs) = (current.reverse ++ w) :: words cs := by
  induction w generalizing current with
  | nil =>
    obtain ⟨b, bs, rfl⟩ := List.exists_cons_of_ne_nil (hne.resolve_right (absurd rfl))
    cases cs with
    | nil => simp [wordsFrom, words]
    | cons c cs =>
      rw [List.nil_append, wordsFrom, if_pos (hcs c rfl), words_blank (hcs c rfl), wordsFrom_done]
      simp [words]
  | cons c w ih =>
    obtain ⟨hc, hw⟩ := List.forall_mem_cons.1 hw
    rw [List.cons_append, wordsFrom, hc, if_neg Bool.false_ne_true,
      ih (c :: current) hw (.inl (List.cons_ne_nil _ _))]
    simp

theorem words_word (hw : IsWord w) (hcs : ∀ c ∈ cs.head?, isBlank c = true) :
    words (w ++ cs) = w :: words cs :=
  wordsFrom_word [] hw.not_blank (.inr hw.ne_nil) hcs

theorem words_of_spells (h : Spells ws cs) : words cs = ws := by
  induction h with
  | nil => rfl
  | blank hc _ ih => rw [words_blank hc, ih]
  | word hw hcs _ ih => rw [words_word hw hcs, ih]

/-- A character that is not blank starts a word or is put in front of the first one. -/
theorem Spells.exists_cons (h : Spells ws cs) (hc : isBlank c = false) :
    ∃ ws', Spells ws' (c :: cs) := by
  have hword : IsWord [c] := ⟨List.cons_ne_nil _ _, by simpa using hc⟩
  cases h with
  | nil => exact ⟨[[c]], .word hword (by simp) .nil⟩
  | @blank b ws cs hb h => exact ⟨[c] :: ws, .word hword (by simpa using hb) (.blank hb h)⟩
  | @word w ws cs hw hcs h =>
    have hlong : IsWord (c :: w) :=
      ⟨List.cons_ne_nil _ _, List.forall_mem_cons.2 ⟨hc, hw.not_blank⟩⟩
    exact ⟨(c :: w) :: ws, .word hlong hcs h⟩

theorem exists_spells (cs : List Char) : ∃ ws, Spells ws cs := by
  induction cs with
  | nil => exact ⟨[], .nil⟩
  | cons c cs ih =>
    obtain ⟨ws, h⟩ := ih
    cases hc : isBlank c with
    | true => exact ⟨ws, .blank hc h⟩
    | false => exact h.exists_cons hc

/-- The words of a text are the only ones that spell it. -/
theorem words_eq_iff : words cs = ws ↔ Spells ws cs := by
  refine ⟨?_, words_of_spells⟩
  rintro rfl
  obtain ⟨ws, hws⟩ := exists_spells cs
  rwa [words_of_spells hws]

theorem isWord_of_spells (h : Spells ws cs) : ∀ w ∈ ws, IsWord w := by
  induction h with
  | nil => exact List.forall_mem_nil _
  | blank _ _ ih => exact ih
  | word hw _ _ ih => exact List.forall_mem_cons.2 ⟨hw, ih⟩

end GitGateway.Text
