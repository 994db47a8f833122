import GitGateway.Git.CommandLine
import GitGateway.Git.Request
import Mathlib.Data.List.Basic

/-!
# Spelling command lines

A word of a command line can be spelled in many ways: a **piece** of it stands in single quotes, in
double quotes, behind a backslash, or for itself, and pieces of all kinds can follow one another.
The spellings are written down here as data, so that what is no spelling cannot be built: a
`Word` is a run of pieces, a `Phrase` separates words by gaps, and a `Line` may have blanks at both
ends.  Reading a line gives back the words that it spells (`split_text`).

The reader holds one word at a time.  Read outside quotes, a piece adds its value to that word and
leaves the reader outside quotes again (`foldl_piece`); all else follows from this.
-/

namespace GitGateway.Git.CommandLine

/-! ## Pieces -/

/-- A character between double quotes, as itself or behind a backslash. -/
inductive Quoted where
  | plain (c : Char) (h : c ≠ '"' ∧ c ≠ '\\')
  | escaped (c : Char)

namespace Quoted

/-- The character that is meant. -/
def value : Quoted → Char
  | plain c _ => c
  | escaped c => c

/-- What is written. -/
def text : Quoted → List Char
  | plain c _ => [c]
  | escaped c => ['\\', c]

end Quoted

/-- Whether a character that stands outside quotes stands for itself. -/
def isBare (c : Char) : Bool := c != '\'' && c != '"' && c != '\\' && !Text.isBlank c

/-- A part of a word that is spelled in one way. -/
inductive Piece where
  | single (run : List Char) (h : '\'' ∉ run)
  | double (run : List Quoted)
  | escaped (c : Char)
  | bare (c : Char) (h : isBare c = true)

namespace Piece

/-- The characters that are meant. -/
def value : Piece → List Char
  | single run _ => run
  | double run => run.map Quoted.value
  | escaped c => [c]
  | bare c _ => [c]

/-- What is written. -/
def text : Piece → List Char
  | single run _ => '\'' :: run ++ ['\'']
  | double run => '"' :: run.flatMap Quoted.text ++ ['"']
  | escaped c => ['\\', c]
  | bare c _ => [c]

end Piece

/-! ## Words and lines -/

/-- A spelled word.  A word without pieces would not be seen, so the empty word needs quotes. -/
structure Word where
  pieces : List Piece
  ne_nil : pieces ≠ []

namespace Word

/-- The word that is meant. -/
def value (w : Word) : List Char := w.pieces.flatMap Piece.value

/-- What is written. -/
def text (w : Word) : List Char := w.pieces.flatMap Piece.text

end Word

/-- A run of blanks. -/
structure Blanks where
  chars : List Char
  isBlank : ∀ c ∈ chars, Text.isBlank c = true

/-- Blanks that separate two words. -/
structure Gap extends Blanks where
  ne_nil : chars ≠ []

/-- Words with gaps between them. -/
inductive Phrase where
  | last (w : Word)
  | more (w : Word) (gap : Gap) (rest : Phrase)

namespace Phrase

/-- The words that are meant. -/
def words : Phrase → List (List Char)
  | last w => [w.value]
  | more w _ rest => w.value :: rest.words

/-- What is written. -/
def text : Phrase → List Char
  | last w => w.text
  | more w gap rest => w.text ++ gap.chars ++ rest.text

end Phrase

/-- A spelled command line, which may hold no word at all. -/
structure Line where
  front : Blanks
  phrase : Option Phrase
  back : Blanks

namespace Line

/-- The words that are meant. -/
def words (l : Line) : List String := (l.phrase.elim [] Phrase.words).map String.ofList

/-- What is written. -/
def text (l : Line) : String :=
  String.ofList (l.front.chars ++ l.phrase.elim [] Phrase.text ++ l.back.chars)

end Line

/-! ## Reading a piece -/

open Reader

variable {word : Option (List Char)} {read : List Char} {done : List (List Char)}

theorem foldl_single {run : List Char} (h : '\'' ∉ run) :
    run.foldl step ⟨.single, some read, done⟩ = ⟨.single, some (run.reverse ++ read), done⟩ := by
  induction run generalizing read with
  | nil => rfl
  | cons c run ih =>
    have hc : c ≠ '\'' := fun hc ↦ h (hc ▸ List.mem_cons_self)
    have hstep : step ⟨.single, some read, done⟩ c = ⟨.single, some (c :: read), done⟩ := by
      simp [step, push, hc]
    rw [List.foldl_cons, hstep, ih fun hrun ↦ h (List.mem_cons_of_mem _ hrun)]
    simp

theorem foldl_quoted (q : Quoted) :
    q.text.foldl step ⟨.double, some read, done⟩ = ⟨.double, some (q.value :: read), done⟩ := by
  cases q with
  | plain c h => simp [Quoted.text, Quoted.value, step, push, h.1, h.2]
  | escaped c => simp [Quoted.text, Quoted.value, step, push]

theorem foldl_double (run : List Quoted) :
    (run.flatMap Quoted.text).foldl step ⟨.double, some read, done⟩ =
      ⟨.double, some ((run.map Quoted.value).reverse ++ read), done⟩ := by
  induction run generalizing read with
  | nil => rfl
  | cons q run ih =>
    rw [List.flatMap_cons, List.foldl_append, foldl_quoted, ih]
    simp

/-- Read outside quotes, a piece adds what it means to the word. -/
theorem foldl_piece (p : Piece) :
    p.text.foldl step ⟨.bare, word, done⟩ =
      ⟨.bare, some (p.value.reverse ++ word.getD []), done⟩ := by
  cases p with
  | single run h =>
    have hopen : step ⟨.bare, word, done⟩ '\'' = ⟨.single, some (word.getD []), done⟩ := rfl
    rw [Piece.text, List.cons_append, List.foldl_cons, hopen, List.foldl_append, foldl_single h]
    rfl
  | double run =>
    have hopen : step ⟨.bare, word, done⟩ '"' = ⟨.double, some (word.getD []), done⟩ := rfl
    rw [Piece.text, List.cons_append, List.foldl_cons, hopen, List.foldl_append, foldl_double]
    rfl
  | escaped c => rfl
  | bare c h =>
    simp only [isBare, Bool.and_eq_true, bne_iff_ne, Bool.not_eq_true'] at h
    simp [Piece.text, Piece.value, step, push, h]

theorem foldl_pieces (ps : List Piece) :
    (ps.flatMap Piece.text).foldl step ⟨.bare, some read, done⟩ =
      ⟨.bare, some ((ps.flatMap Piece.value).reverse ++ read), done⟩ := by
  induction ps generalizing read with
  | nil => rfl
  | cons p ps ih =>
    rw [List.flatMap_cons, List.foldl_append, foldl_piece, Option.getD_some, ih]
    simp

/-! ## Reading a line -/

theorem foldl_word (w : Word) :
    w.text.foldl step ⟨.bare, none, done⟩ = ⟨.bare, some w.value.reverse, done⟩ := by
  obtain ⟨ps, hps⟩ := w
  cases ps with
  | nil => exact absurd rfl hps
  | cons p ps =>
    rw [Word.text, List.flatMap_cons, List.foldl_append, foldl_piece, foldl_pieces]
    simp [Word.value]

/-- A blank outside quotes finishes the word, if one was begun. -/
theorem step_blank {c : Char} (h : Text.isBlank c = true) :
    step ⟨.bare, word, done⟩ c = close ⟨.bare, word, done⟩ := by
  have hne : ∀ d, Text.isBlank d = false → c ≠ d := by
    rintro d hd rfl
    exact Bool.false_ne_true (hd.symm.trans h)
  have hsingle := hne '\'' (by decide)
  have hdouble := hne '"' (by decide)
  have hescape := hne '\\' (by decide)
  simp [step, hsingle, hdouble, hescape, h]

theorem foldl_blanks (bs : Blanks) :
    bs.chars.foldl step ⟨.bare, none, done⟩ = ⟨.bare, none, done⟩ := by
  obtain ⟨chars, hchars⟩ := bs
  induction chars with
  | nil => rfl
  | cons c chars ih =>
    rw [List.foldl_cons, step_blank (hchars c List.mem_cons_self)]
    exact ih fun d hd ↦ hchars d (List.mem_cons_of_mem _ hd)

theorem foldl_gap (gap : Gap) :
    gap.chars.foldl step ⟨.bare, some read, done⟩ = ⟨.bare, none, read.reverse :: done⟩ := by
  obtain ⟨⟨chars, hchars⟩, hne⟩ := gap
  obtain ⟨c, rest, rfl⟩ := List.exists_cons_of_ne_nil hne
  rw [List.foldl_cons, step_blank (hchars c List.mem_cons_self)]
  exact foldl_blanks ⟨rest, fun d hd ↦ hchars d (List.mem_cons_of_mem _ hd)⟩

/-- Blanks at the end of a line change nothing. -/
theorem finish_blanks (bs : Blanks) :
    (bs.chars.foldl step ⟨.bare, word, done⟩).finish = finish ⟨.bare, word, done⟩ := by
  cases word with
  | none => rw [foldl_blanks]
  | some read =>
    by_cases hnil : bs.chars = []
    · rw [hnil]
      rfl
    · rw [foldl_gap ⟨bs, hnil⟩]
      rfl

/-- Whatever was read before it, a phrase adds the words that it spells. -/
theorem finish_phrase (p : Phrase) (back : Blanks) :
    ((p.text ++ back.chars).foldl step ⟨.bare, none, done⟩).finish = done.reverse ++ p.words := by
  induction p generalizing done with
  | last w =>
    rw [Phrase.text, List.foldl_append, foldl_word, finish_blanks]
    simp [finish, close, Phrase.words]
  | more w gap rest ih =>
    rw [Phrase.text, List.append_assoc, List.append_assoc, List.foldl_append, foldl_word,
      List.foldl_append, foldl_gap, ih]
    simp [Phrase.words]

theorem split_text (l : Line) : split l.text = l.words := by
  obtain ⟨front, phrase, back⟩ := l
  rw [split, Line.text, Line.words, String.toList_ofList, splitChars, List.append_assoc,
    List.foldl_append, foldl_blanks]
  cases phrase with
  | none => exact congrArg _ (finish_blanks back)
  | some p => exact congrArg _ (finish_phrase p back)

/-! ## Git's quotes -/

/-- How a character is written in git's quotes: a single quote, and each character that `also` is
chosen, behind a backslash outside the quotes. -/
def quoteChar (also : Char → Bool) (c : Char) : List Char :=
  if c == '\'' || also c then ['\'', '\\', c, '\''] else [c]

/-- A word in the quotes that git puts around an argument. -/
def quote (also : Char → Bool) (word : String) : String :=
  String.ofList ('\'' :: word.toList.flatMap (quoteChar also) ++ ['\''])

/-- Git's quotes are a spelling; `run` is what the piece being written holds already. -/
theorem exists_word_of_run (also : Char → Bool) (cs : List Char) {run : List Char}
    (h : '\'' ∉ run) : ∃ w : Word, w.value = run ++ cs ∧
      w.text = '\'' :: run ++ (cs.flatMap (quoteChar also) ++ ['\'']) := by
  induction cs generalizing run with
  | nil => exact ⟨⟨[.single run h], by simp⟩, by simp [Word.value, Piece.value],
      by simp [Word.text, Piece.text]⟩
  | cons c cs ih =>
    by_cases hc : (c == '\'' || also c) = true
    · -- the piece ends before the character, and another one begins behind it
      obtain ⟨w, hvalue, htext⟩ := @ih [] (by simp)
      refine ⟨⟨.single run h :: .escaped c :: w.pieces, by simp⟩, ?_, ?_⟩
      · simp only [Word.value] at hvalue ⊢
        simp [Piece.value, hvalue]
      · simp only [Word.text] at htext ⊢
        simp [Piece.text, htext, quoteChar, hc]
    · have hrun : '\'' ∉ run ++ [c] := by
        simp only [Bool.or_eq_true, beq_iff_eq, not_or] at hc
        simpa [h] using Ne.symm hc.1
      obtain ⟨w, hvalue, htext⟩ := ih hrun
      exact ⟨w, by simp [hvalue], by simp [htext, quoteChar, hc]⟩

theorem exists_word_quote (also : Char → Bool) (word : String) :
    ∃ w : Word, w.value = word.toList ∧ w.text = (quote also word).toList := by
  obtain ⟨w, hvalue, htext⟩ := exists_word_of_run also word.toList List.not_mem_nil
  exact ⟨w, hvalue, by simp [htext, quote]⟩

/-- One space between words. -/
def space : Gap := ⟨⟨[' '], by simp [Text.isBlank]⟩, by simp⟩

/-- Words in git's quotes, with a space between them, are a phrase. -/
theorem exists_phrase_quote (also : Char → Bool) (word : String) (words : List String) :
    ∃ p : Phrase, p.words = (word :: words).map String.toList ∧
      p.text = (String.intercalate " " ((word :: words).map (quote also))).toList := by
  induction words generalizing word with
  | nil =>
    obtain ⟨w, hvalue, htext⟩ := exists_word_quote also word
    exact ⟨.last w, by simp [Phrase.words, hvalue], by simp [Phrase.text, htext]⟩
  | cons next words ih =>
    obtain ⟨w, hvalue, htext⟩ := exists_word_quote also word
    obtain ⟨p, hwords, hp⟩ := ih next
    refine ⟨.more w space p, by simp [Phrase.words, hvalue, hwords], ?_⟩
    rw [Phrase.text, htext, hp]
    simp [space]

/-! ## The main result -/

/-- No blanks. -/
def nothing : Blanks := ⟨[], by simp⟩

/-- Words in git's quotes, with a space between them, are a line. -/
theorem exists_line_quote (also : Char → Bool) (words : List String) :
    ∃ l : Line, l.words = words ∧ l.text = String.intercalate " " (words.map (quote also)) := by
  cases words with
  | nil => exact ⟨⟨nothing, none, nothing⟩, rfl, rfl⟩
  | cons word words =>
    obtain ⟨p, hwords, htext⟩ := exists_phrase_quote also word words
    refine ⟨⟨nothing, some p, nothing⟩, ?_, ?_⟩
    · simp [Line.words, hwords, Function.comp_def]
    · rw [Line.text, Option.elim_some, htext]
      simp only [nothing, List.nil_append, List.append_nil, String.ofList_toList]

/-- The program of a git request needs no quotes. -/
theorem exists_word_program (service : Service) :
    ∃ w : Word, w.value = service.program.toList ∧ w.text = service.program.toList := by
  have hbare : ∀ c ∈ service.program.toList, isBare c = true := by
    cases service <;> simp [Service.program, Service.subcommand, isBare, Text.isBlank]
  have hne : service.program.toList ≠ [] := by cases service <;> decide
  refine ⟨⟨service.program.toList.attach.map fun c ↦ .bare c.1 (hbare c.1 c.2),
    by simpa using hne⟩, ?_, ?_⟩
  · simp [Word.value, Piece.value, List.flatMap_map]
  · simp [Word.text, Piece.text, List.flatMap_map]

theorem exists_line_request (also : Char → Bool) (service : Service) (path : String) :
    ∃ l : Line, l.words = [service.program, path] ∧
      l.text = service.program ++ " " ++ quote also path := by
  obtain ⟨w, hvalue, htext⟩ := exists_word_program service
  obtain ⟨q, hqvalue, hqtext⟩ := exists_word_quote also path
  refine ⟨⟨nothing, some (.more w space (.last q)), nothing⟩, ?_, ?_⟩
  · simp [Line.words, Phrase.words, hvalue, hqvalue]
  · rw [← String.toList_inj]
    simp [Line.text, Phrase.text, nothing, space, htext, hqtext]

/-- **Reading undoes quoting.**  However the words of a line are spelled, and whatever blanks stand
between them and around them, reading the line gives exactly these words.  All words, the empty one
and those with quotes in them included, have such a spelling: the one in git's quotes.  So the
request of a git client is read as its program and its path, whatever the path is. -/
theorem split_undoes_quoting :
    (∀ l : Line, split l.text = l.words) ∧
    (∀ (also : Char → Bool) (words : List String),
      (∃ l : Line, l.words = words ∧ l.text = String.intercalate " " (words.map (quote also))) ∧
        split (String.intercalate " " (words.map (quote also))) = words) ∧
    ∀ (also : Char → Bool) (service : Service) (path : String),
      split (service.program ++ " " ++ quote also path) = [service.program, path] := by
  refine ⟨split_text, fun also words ↦ ?_, fun also service path ↦ ?_⟩
  · obtain ⟨l, hwords, htext⟩ := exists_line_quote also words
    exact ⟨⟨l, hwords, htext⟩, by rw [← htext, split_text, hwords]⟩
  · obtain ⟨l, hwords, htext⟩ := exists_line_request also service path
    rw [← htext, split_text, hwords]

/-- A quote inside git's quotes. -/
example : quote (fun _ ↦ false) "it's.git" = "'it'\\''s.git'" := by decide

end GitGateway.Git.CommandLine
