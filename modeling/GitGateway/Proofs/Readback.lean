import GitGateway.Proofs.Listings
import Mathlib.Data.List.Flatten

/-!
# Names that are read back

A listing shows the text of a name, and what is read from this text need not be the name again:
surrounding blanks, a second suffix and slashes at the end get lost, and a name that climbs is
listed under another text altogether.  A name **returns** if it does not climb and is read back from
its own text (`Returns`).

Reading leaves characters out of a text and never adds any (`text_sublist`), and it loses a slash
that stands at the end (`count_text_lt`).  So the directory of a name that returns has more than the
suffix for its name, as a listing wants it (`isGit_of_sanitize_eq`), and a name that is read from
the text that a listing shows for its own directory returns (`returns_of_listed`).
-/

namespace GitGateway

namespace RepoName

open Path Listing

/-- A name that does not climb and is read back from its own text. -/
structure Returns (n : RepoName) : Prop where
  climb_eq : n.climb = 0
  sanitize_eq : sanitize n.text = n

instance (n : RepoName) : Decidable n.Returns :=
  decidable_of_iff (n.climb = 0 ∧ sanitize n.text = n) ⟨fun h ↦ ⟨h.1, h.2⟩, fun h ↦ ⟨h.1, h.2⟩⟩

/-! ## Parts of texts -/

theorem strip_sublist (raw : String) : (strip raw).Sublist raw.toList := by
  have htrim : (Text.trim raw.toList).Sublist raw.toList := by
    rw [Text.trim, ← List.reverse_sublist, List.reverse_reverse]
    exact (List.dropWhile_sublist _).trans (List.reverse_sublist.2 (List.dropWhile_sublist _))
  exact (List.dropWhile_sublist _).trans htrim

theorem addSegment_sublist (done : List String) (piece : String) :
    (addSegment done piece).Sublist (piece :: done) := by
  unfold addSegment
  split
  · exact List.sublist_cons_self _ _
  · split
    · next hpiece =>
      obtain rfl : piece = ".." := eq_of_beq hpiece
      split
      · split
        · exact .refl _
        · exact (List.sublist_cons_self _ _).cons _
      · exact .refl _
    · exact .refl _

theorem foldl_addSegment_sublist (ps done : List String) :
    (ps.foldl addSegment done).Sublist (ps.reverse ++ done) := by
  induction ps generalizing done with
  | nil => exact .refl _
  | cons p ps ih =>
    rw [List.foldl_cons, List.reverse_cons, List.append_assoc]
    exact (ih _).trans ((addSegment_sublist done p).append_left _)

theorem intercalate_sublist {c : Char} {parts parts' : List (List Char)}
    (h : parts.Sublist parts') : ([c].intercalate parts).Sublist ([c].intercalate parts') := by
  have hcons : ∀ (first : List Char) parts, c :: [c].intercalate (first :: parts) =
      (first :: parts).flatMap (c :: ·) := by
    intro first parts
    induction parts generalizing first with
    | nil => simp
    | cons next parts ih => simp_all
  cases parts with
  | nil => exact List.nil_sublist _
  | cons first parts =>
    cases parts' with
    | nil => cases h
    | cons first' parts' =>
      rw [← List.cons_sublist_cons, hcons, hcons]
      exact h.flatMap _

/-- A name is a part of the raw argument that it is read from. -/
theorem text_sublist (raw : String) : (sanitize raw).text.toList.Sublist raw.toList := by
  have hsegments : (segments raw).map String.toList |>.Sublist ((strip raw).splitOn '/') := by
    have hfold := foldl_addSegment_sublist (((strip raw).splitOn '/').map String.ofList) []
    rw [List.append_nil, ← List.reverse_sublist, List.reverse_reverse] at hfold
    simpa [Function.comp_def, segments] using hfold.map String.toList
  have hjoined : (String.intercalate "/" (segments raw)).toList.Sublist raw.toList := by
    have hslash : "/".toList = ['/'] := rfl
    rw [String.toList_intercalate, hslash]
    have hparts := intercalate_sublist (c := '/') hsegments
    rw [List.intercalate_splitOn] at hparts
    exact hparts.trans (strip_sublist raw)
  have hdrop : ∀ cs : List Char, (dropGit cs).Sublist cs := by
    intro cs
    unfold dropGit
    split
    · exact List.take_sublist ..
    · exact .refl _
  rw [sanitize, String.toList_ofList]
  exact (hdrop _).trans hjoined

/-- A text that reads as one of its own length reads as itself. -/
theorem sanitize_eq_of_length {raw : String} (h : raw.length ≤ (sanitize raw).text.length) :
    sanitize raw = ⟨raw⟩ := by
  rw [← String.length_toList, ← String.length_toList] at h
  have htext := (text_sublist raw).eq_of_length_le h
  exact congrArg RepoName.mk (String.toList_inj.1 htext)

/-! ## Slashes -/

theorem length_splitOn (c : Char) (cs : List Char) :
    (cs.splitOn c).length = cs.count c + 1 := by
  induction cs with
  | nil => simp
  | cons d cs ih =>
    rw [List.splitOn_cons_eq_if_modifyHead, List.count_cons]
    split
    · next hd => simp [ih]
    · next hd => simp [ih]

theorem length_pieces (p : String) : (pieces p).length = p.toList.count '/' + 1 := by
  rw [pieces, List.length_map, length_splitOn]

theorem length_moves_le (p : String) : (moves p).length ≤ p.toList.count '/' + 1 := by
  rw [← length_pieces]
  exact List.length_filterMap_le ..

theorem count_intercalate {texts : List String} (h : ∀ t ∈ texts, '/' ∉ t.toList) :
    (String.intercalate "/" texts).toList.count '/' = texts.length - 1 := by
  by_cases hne : texts = []
  · subst hne
    rfl
  · have hlength := length_pieces (String.intercalate "/" texts)
    rw [pieces_intercalate h hne] at hlength
    omega

theorem length_resolve_le (cs : List Component) : (resolve cs).length ≤ cs.length := by
  have hfold : ∀ done : List Component,
      (cs.foldl resolveStep done).length ≤ done.length + cs.length := by
    induction cs with
    | nil => simp
    | cons c cs ih =>
      intro done
      have hstep : (resolveStep done c).length ≤ done.length + 1 := by
        unfold resolveStep
        split
        · omega
        · split <;> simp
          omega
        · simp
      have := ih (resolveStep done c)
      rw [List.foldl_cons, List.length_cons]
      omega
  rw [resolve, List.length_reverse]
  have := hfold []
  simpa using this

theorem length_segments_le (raw : String) :
    (segments raw).length ≤ (moves (String.ofList (strip raw))).length := by
  rw [segments_eq, List.length_map]
  exact length_resolve_le _

/-- A name has at most as many slashes as stand between its segments. -/
theorem count_text_le_segments (raw : String) :
    (sanitize raw).text.toList.count '/' ≤ (segments raw).length - 1 := by
  obtain ⟨up, down, hsegments, hdown⟩ := exists_segments raw
  have hslash : ∀ t ∈ segments raw, '/' ∉ t.toList := by
    rw [hsegments]
    exact slash_notMem_text_walk hdown
  have hdrop : ∀ cs : List Char, (dropGit cs).count '/' ≤ cs.count '/' := by
    intro cs
    unfold dropGit
    split
    · exact (List.take_sublist ..).count_le _
    · exact Nat.le_refl _
  rw [← count_intercalate hslash, sanitize, String.toList_ofList]
  exact hdrop _

/-- Reading a name adds no slash. -/
theorem count_text_le (raw : String) :
    (sanitize raw).text.toList.count '/' ≤ raw.toList.count '/' :=
  (text_sublist raw).count_le '/'

/-- What is left of a text with a slash at its end has it still, unless nothing is left. -/
theorem strip_of_slash {raw : String} {front : List Char} (h : raw.toList = front ++ ['/']) :
    strip raw = [] ∨ ∃ rest, strip raw = rest ++ ['/'] := by
  have hend : ∀ cs : List Char, cs <:+ front ++ ['/'] → cs = [] ∨ ∃ rest, cs = rest ++ ['/'] := by
    intro cs hcs
    rcases List.suffix_concat_iff.1 hcs with rfl | ⟨rest, rfl, -⟩
    · exact .inl rfl
    · exact .inr ⟨rest, rfl⟩
  have htrim : Text.trim raw.toList <:+ front ++ ['/'] := by
    have hleft : Text.trimLeft raw.toList <:+ front ++ ['/'] := by
      rw [← h]
      exact List.dropWhile_suffix _
    have hslash : Text.isBlank '/' = false := by decide
    rcases hend _ hleft with hnil | ⟨rest, hrest⟩
    · rw [Text.trim, hnil]
      exact List.nil_suffix
    · rw [Text.trim, hrest, List.reverse_append, List.reverse_singleton, List.singleton_append,
        Text.trimLeft, List.dropWhile_cons_of_neg (by simp [hslash]), List.reverse_cons,
        List.reverse_reverse, ← hrest]
      exact hleft
  exact hend _ ((List.dropWhile_suffix _).trans htrim)

/-- Reading a name loses a slash at the end. -/
theorem count_text_lt {raw : String} {front : List Char} (h : raw.toList = front ++ ['/']) :
    (sanitize raw).text.toList.count '/' < raw.toList.count '/' := by
  have htext := count_text_le_segments raw
  have hsegments := length_segments_le raw
  have hpositive : 0 < raw.toList.count '/' := by
    rw [List.count_pos_iff, h]
    simp
  rcases strip_of_slash h with hnil | ⟨rest, hrest⟩
  · rw [hnil] at hsegments
    have hmoves : (moves (String.ofList [])).length = 0 := by decide
    omega
  · have hstrip := (strip_sublist raw).count_le '/'
    rw [hrest, List.count_append, List.count_singleton_self] at hstrip
    have hsplit : String.ofList (rest ++ ['/']) = String.ofList rest ++ "/" ++ "" := by
      simp [String.ofList_append]
    have hnone : moves "" = [] := by decide
    have hmoves := length_moves_le (String.ofList rest)
    rw [String.toList_ofList] at hmoves
    rw [hrest, hsplit, moves_append_slash, hnone, List.append_nil] at hsegments
    omega

/-! ## Listed texts -/

variable {n : RepoName} {rest : List String}

theorem shown_texts (rest : List String) :
    shown (rest.map FileName.text).reverse = String.intercalate "/" rest := by
  rw [shown, List.reverse_reverse, List.map_map]
  have htext : FileName.shown ∘ FileName.text = id := rfl
  rw [htext, List.map_id]

theorem dropSuffix_append (t : String) : dropSuffix (t ++ suffix) = t := by
  have hsuffix : ['.', 'g', 'i', 't'].isSuffixOf (t ++ suffix).toList = true := by
    rw [List.isSuffixOf_iff_suffix, String.toList_append]
    exact List.suffix_append _ _
  rw [dropSuffix, if_pos hsuffix, String.toList_append, toList_suffix]
  simp

theorem intercalate_eq_render (rest : List String) :
    String.intercalate "/" rest = render (walk 0 rest) := by
  rw [render_walk, walk]
  simp [Component.text, Function.comp_def]

/-- The text that a listing shows for a directory is that of the name whose directory it is, if that
name does not climb. -/
theorem dropSuffix_shown (h : n.dirName = render (walk 0 rest)) :
    dropSuffix (shown (rest.map FileName.text).reverse) = n.text := by
  rw [shown_texts, intercalate_eq_render, ← h, dirName, dropSuffix_append]

theorem extensionOf_append {stem : List Char} (h : stem ≠ []) :
    FileName.extensionOf '.' (stem ++ ['.', 'g', 'i', 't']) = some ['g', 'i', 't'] := by
  have hlength : 0 < stem.length := List.length_pos_iff.2 h
  have hdots : (stem ++ ['.', 'g', 'i', 't'] == ['.', '.']) = false := by
    refine Bool.eq_false_iff.2 fun heq ↦ ?_
    have := congrArg List.length (eq_of_beq heq)
    simp at this
  rw [FileName.extensionOf, hdots, if_neg Bool.false_ne_true]
  simp [h]

/-- The directory of a name that is read back has more than the suffix for its name. -/
theorem isGit_of_sanitize_eq {init : List String} {last : String} (h : sanitize n.text = n)
    (hne : n.isEmpty = false) (hdir : n.dirName = render (walk 0 (init ++ [last])))
    (hlast : suffix.toList <:+ last.toList) : (FileName.text last).isGit = true := by
  obtain ⟨stem, hstem⟩ := hlast
  have hnonempty : stem ≠ [] := by
    rintro rfl
    obtain rfl : suffix = last := String.toList_inj.1 hstem
    rw [← intercalate_eq_render] at hdir
    by_cases hinit : init = []
    · rw [hinit, List.nil_append, String.intercalate_singleton, dirName] at hdir
      have hempty : n.text = "" := by simpa using hdir
      rw [isEmpty, hempty] at hne
      cases hne
    · rw [Path.intercalate_concat hinit, dirName] at hdir
      have htext : n.text = String.intercalate "/" init ++ "/" := (String.append_left_inj _).1 hdir
      have hend : n.text.toList = (String.intercalate "/" init).toList ++ ['/'] := by
        rw [htext, String.toList_append]
        rfl
      have hlt := count_text_lt hend
      rw [h] at hlt
      exact absurd hlt (Nat.lt_irrefl _)
  rw [FileName.isGit, ← hstem, toList_suffix, extensionOf_append hnonempty]
  rfl

theorem count_dirName (n : RepoName) :
    n.dirName.toList.count '/' = n.text.toList.count '/' := by
  have hsuffix : suffix.toList.count '/' = 0 := by decide
  rw [dirName, String.toList_append, List.count_append, hsuffix, Nat.add_zero]

theorem count_dropSuffix_le (t : String) :
    (dropSuffix t).toList.count '/' ≤ t.toList.count '/' := by
  unfold dropSuffix
  simp only
  split
  · rw [String.toList_ofList]
    exact (List.take_sublist ..).count_le _
  · exact Nat.le_refl _

open Confine in
/-- Every root is anchored for a name that does not climb. -/
theorem anchored_of_climb {raw : String} (hn : n = sanitize raw) (hclimb : n.climb = 0)
    (root : String) : Anchored root n.dirName := by
  obtain ⟨up, down, hdir, hdown⟩ := exists_dirName raw
  rw [← hn] at hdir
  obtain rfl : up = 0 := (climb_of_dirName hdir hdown).symm.trans hclimb
  refine .inr ?_
  rw [hdir, normalize_render_walk hdown.1]
  simp [walk]

open Confine in
/-- The directory of a name that does not climb lies along all of its steps down. -/
theorem exists_liesAlong_of_climb {root raw : String} {p : RepoPath} (hn : n = sanitize raw)
    (hclimb : n.climb = 0) (hpath : repoPath root n = .ok p) :
    ∃ rest, LiesAlong root n rest ∧ n.dirName = render (walk 0 rest) := by
  obtain ⟨down, rest, hdir, -, halong, -, hzero⟩ :=
    exists_liesAlong hn hpath (anchored_of_climb hn hclimb root)
  rw [hclimb, ← hzero hclimb] at hdir
  exact ⟨rest, halong, hdir⟩

open Confine in
/-- Two names that do not climb are the same if their directories are. -/
theorem eq_of_liesAlong {root raw raw' : String} {n' : RepoName} (hn : n = sanitize raw)
    (hn' : n' = sanitize raw') (hclimb : n.climb = 0) (hclimb' : n'.climb = 0)
    (halong : LiesAlong root n rest) (halong' : LiesAlong root n' rest) : n' = n := by
  obtain ⟨rest₁, h₁, hdir⟩ := exists_liesAlong_of_climb hn hclimb halong.repoPath_eq
  obtain ⟨rest₂, h₂, hdir'⟩ := exists_liesAlong_of_climb hn' hclimb' halong'.repoPath_eq
  rw [halong.unique h₁] at hdir
  rw [halong'.unique h₂] at hdir'
  exact dirName_inj (hdir'.trans hdir.symm)

open Confine in
/-- A name that is read from the text that a listing shows for its directory returns. -/
theorem returns_of_listed {root raw : String} {p : RepoPath} (hn : n = sanitize raw)
    (hpath : repoPath root n = .ok p) (hanchor : Anchored root n.dirName)
    (halong : LiesAlong root n rest)
    (hread : sanitize (dropSuffix (shown (rest.map FileName.text).reverse)) = n) : n.Returns := by
  obtain ⟨down, rest', hdir, hdown, halong', hsuffix, hzero⟩ := exists_liesAlong hn hpath hanchor
  obtain rfl : rest' = rest := halong.unique halong'
  -- a name that climbs has more slashes than its directory shows
  have hcount : n.text.toList.count '/' = n.climb + down.length - 1 := by
    rw [← count_dirName, hdir, render_walk, count_intercalate (slash_notMem_text_walk hdown.1),
      List.length_map, walk, List.length_append, List.length_replicate, List.length_map]
  have hshown : (String.intercalate "/" rest').toList.count '/' = rest'.length - 1 :=
    count_intercalate fun t ht ↦ (halong'.isDirectory.1 t ht).2.2.2
  have htext := count_text_le (dropSuffix (shown (rest'.map FileName.text).reverse))
  have hdrop := count_dropSuffix_le (String.intercalate "/" rest')
  rw [hread, shown_texts] at htext
  have hpositive : 0 < rest'.length := by
    obtain ⟨-, init, last, rfl, -⟩ := halong'.isDirectory
    simp
  have hclimb : n.climb = 0 := by
    have hlength := hsuffix.length_le
    omega
  refine ⟨hclimb, ?_⟩
  rw [hclimb, ← hzero hclimb] at hdir
  rwa [dropSuffix_shown hdir] at hread

/-! ## Names that begin with a step up -/

/-- Whether the first segment of a name is a step up. -/
def BeginsUp (n : RepoName) : Prop := (pieces n.text).head? = some ".."

instance (n : RepoName) : Decidable n.BeginsUp := by
  unfold BeginsUp
  infer_instance

/-- The pieces of a name: its steps up, then proper names, and at last one that its directory puts
the suffix on. -/
theorem exists_pieces {n : RepoName} {raw : String} (hn : n = sanitize raw) :
    ∃ init stem,
      n.text = String.intercalate "/" ((walk n.climb init).map Component.text ++ [stem]) ∧
      pieces n.text = (walk n.climb init).map Component.text ++ [stem] ∧
      ∀ name ∈ init, IsProper name := by
  obtain ⟨up, down, hdir, hdown⟩ := exists_dirName raw
  rw [← hn] at hdir
  rw [climb_of_dirName hdir hdown]
  obtain ⟨hproper, init, last, rfl, stem, hstem⟩ := hdown
  have hinit : ∀ name ∈ init, IsProper name := fun name hname ↦
    hproper name (List.mem_append_left _ hname)
  have hlast : String.ofList stem ++ suffix = last := by
    rw [← String.toList_inj, String.toList_append, String.toList_ofList, hstem]
  rw [dirName, render_walk, map_text_walk_concat, ← hlast, ← intercalate_concat_append] at hdir
  have htext := (String.append_left_inj suffix).1 hdir
  refine ⟨init, String.ofList stem, htext, ?_, hinit⟩
  rw [htext]
  refine pieces_intercalate (fun t ht ↦ ?_) (by simp)
  rcases List.mem_append.1 ht with ht | ht
  · exact slash_notMem_text_walk hinit t ht
  · rw [List.mem_singleton.1 ht, String.toList_ofList]
    intro hslash
    refine (hproper last (by simp)).2.2.2 ?_
    rw [← hstem]
    exact List.mem_append_left _ hslash

/-- A name that climbs begins with a step up. -/
theorem climb_eq_of_not_beginsUp {n : RepoName} {raw : String} (hn : n = sanitize raw)
    (h : ¬ n.BeginsUp) : n.climb = 0 := by
  obtain ⟨init, stem, -, hpieces, -⟩ := exists_pieces hn
  rw [BeginsUp, hpieces] at h
  cases hclimb : n.climb with
  | zero => rfl
  | succ up =>
    rw [hclimb] at h
    exact absurd rfl h

/-- A name that begins with a step up and does not climb is nothing else. -/
theorem text_eq_of_beginsUp {n : RepoName} {raw : String} (hn : n = sanitize raw)
    (hclimb : n.climb = 0) (h : n.BeginsUp) : n.text = ".." := by
  obtain ⟨init, stem, htext, hpieces, hinit⟩ := exists_pieces hn
  rw [BeginsUp, hpieces, hclimb] at h
  cases init with
  | nil =>
    rw [htext, hclimb]
    exact Option.some.inj h
  | cons name init => exact absurd (Option.some.inj h) (hinit name List.mem_cons_self).2.2.1

open Confine in
/-- The directory of a name that goes down along names lies along them. -/
theorem liesAlong_of_dirName {n : RepoName} {rest : List String}
    (hdir : n.dirName = render (walk 0 rest)) (hrest : IsDirectory rest) (root : String) :
    LiesAlong root n rest :=
  ⟨hrest, repoPath_of_directory hdir hrest⟩

open Confine in
/-- A directory along names is that of a name that does not climb, and a listing shows it under the
text of that one. -/
theorem exists_canonical {root : String} {n : RepoName} {rest : List String}
    (h : LiesAlong root n rest) : ∃ raw, (sanitize raw).climb = 0 ∧
      (sanitize raw).dirName = render (walk 0 rest) ∧ LiesAlong root (sanitize raw) rest := by
  have hdir := @dirName_sanitize 0 rest h.isDirectory
  exact ⟨_, climb_of_dirName hdir h.isDirectory, hdir, liesAlong_of_dirName hdir h.isDirectory root⟩

end RepoName

end GitGateway
