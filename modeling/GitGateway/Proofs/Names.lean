import GitGateway.Proofs.Path
import GitGateway.Repo.Name

/-!
# Names and their directories

A raw argument resolves to segments in the same way as a path does (`segments_eq`).  Whatever the
argument was, the directory of the name it stands for is a walk that goes down at least once and
whose last name ends in `.git` (`exists_dirName`); and each such walk is the directory of the name
that its own text stands for (`dirName_sanitize`).  So directories and names determine each other,
and how far a name **climbs** above the place it is seen from can be read off its directory.
-/

namespace GitGateway.RepoName

open GitGateway.Path

/-! ## Segments -/

/-- What resolving a path that starts nowhere has done so far: steps up, and steps down along
names that are not written like a step up. -/
def IsStack (done : List Component) : Prop :=
  ∀ c ∈ done, c = .parent ∨ ∃ name, c = .normal name ∧ name ≠ ".."

theorem IsStack.nil : IsStack [] := by simp [IsStack]

/-- A piece does to the segments what its component does to the steps. -/
theorem IsStack.addSegment_map {done : List Component} (h : IsStack done) (piece : String) :
    addSegment (done.map Component.text) piece =
      ((component? piece).elim done (resolveStep done)).map Component.text := by
  unfold addSegment component?
  split
  · rfl
  · split
    · cases done with
      | nil => rfl
      | cons last above =>
        rcases h last List.mem_cons_self with rfl | ⟨name, rfl, hname⟩
        · rfl
        · simp [resolveStep, Component.text, hname]
    · rfl

theorem IsStack.resolveStep {done : List Component} (h : IsStack done) (piece : String) :
    IsStack ((component? piece).elim done (Path.resolveStep done)) := by
  cases hpiece : component? piece with
  | none => exact h
  | some d =>
    rw [Option.elim_some]
    intro c hc
    rcases component?_eq_some hpiece with rfl | ⟨rfl, -, -, hne⟩
    · cases done with
      | nil => exact .inl (by simpa [Path.resolveStep] using hc)
      | cons last above =>
        rcases h last List.mem_cons_self with rfl | ⟨name, rfl, -⟩
        · rcases List.mem_cons.1 hc with rfl | hc
          · exact .inl rfl
          · exact h c hc
        · exact h c (List.mem_cons_of_mem _ hc)
    · rcases List.mem_cons.1 hc with rfl | hc
      · exact .inr ⟨piece, rfl, hne⟩
      · exact h c hc

theorem IsStack.foldl_addSegment {done : List Component} (h : IsStack done) (ps : List String) :
    ps.foldl addSegment (done.map Component.text) =
      ((ps.filterMap component?).foldl Path.resolveStep done).map Component.text := by
  induction ps generalizing done with
  | nil => rfl
  | cons piece ps ih =>
    rw [List.foldl_cons, h.addSegment_map, ih (h.resolveStep piece), List.filterMap_cons]
    cases component? piece <;> rfl

/-- A raw argument resolves to segments as the path that it is does. -/
theorem segments_eq (raw : String) :
    segments raw = (resolve (moves (String.ofList (strip raw)))).map Component.text := by
  have hfold := IsStack.nil.foldl_addSegment (((strip raw).splitOn '/').map String.ofList)
  rw [List.map_nil] at hfold
  rw [segments, hfold, resolve, moves, pieces, String.toList_ofList, List.map_reverse]

/-- The segments of a raw argument are the text of a walk. -/
theorem exists_segments (raw : String) :
    ∃ up down, segments raw = (walk up down).map Component.text ∧
      ∀ name ∈ down, IsProper name := by
  obtain ⟨up, down, hwalk, hdown⟩ := exists_walk_moves (String.ofList (strip raw))
  exact ⟨up, down, by rw [segments_eq, hwalk], hdown⟩

/-! ## The suffix -/

theorem toList_suffix : suffix.toList = ['.', 'g', 'i', 't'] := rfl

/-- Cutting the suffix off and putting it on again gives a text that had it back. -/
theorem dropGit_append_suffix {cs : List Char} (h : suffix.toList <:+ cs) :
    dropGit cs ++ suffix.toList = cs := by
  obtain ⟨front, rfl⟩ := h
  have hlen : (front ++ suffix.toList).length - suffix.length = front.length := by
    rw [List.length_append, String.length_toList, Nat.add_sub_cancel]
  rw [dropGit, if_pos (List.isSuffixOf_iff_suffix.2 ⟨front, rfl⟩), hlen, List.take_left]

theorem dropGit_of_not_suffix {cs : List Char} (h : ¬ suffix.toList <:+ cs) :
    dropGit cs = cs := by
  rw [dropGit, if_neg fun hs ↦ h (List.isSuffixOf_iff_suffix.1 hs)]

/-- An end of a text that holds no slash is an end of what stands behind the last slash. -/
theorem suffix_of_append_cons {α : Type} {ending front rest : List α} {c : α}
    (h : ending <:+ front ++ c :: rest) (hc : c ∉ ending) : ending <:+ rest := by
  have hrest : c :: rest <:+ front ++ c :: rest := ⟨front, rfl⟩
  rcases List.suffix_or_suffix_of_suffix h hrest with hs | hs
  · rcases List.suffix_cons_iff.1 hs with rfl | hs
    · exact absurd List.mem_cons_self hc
    · exact hs
  · exact absurd (hs.subset List.mem_cons_self) hc

theorem intercalate_concat_append (texts : List String) (last more : String) :
    String.intercalate "/" (texts ++ [last]) ++ more =
      String.intercalate "/" (texts ++ [last ++ more]) := by
  cases texts with
  | nil => rfl
  | cons t ts =>
    rw [String.intercalate_append_of_ne_nil (by simp) (by simp),
      String.intercalate_append_of_ne_nil (by simp) (by simp), String.intercalate_singleton,
      String.intercalate_singleton, String.append_assoc]

theorem suffix_of_intercalate {texts : List String} {last : String}
    (h : suffix.toList <:+ (String.intercalate "/" (texts ++ [last])).toList) :
    suffix.toList <:+ last.toList := by
  cases texts with
  | nil => exact h
  | cons t ts =>
    rw [String.intercalate_append_of_ne_nil (by simp) (by simp), String.intercalate_singleton,
      String.append_assoc, String.toList_append, String.toList_append] at h
    exact suffix_of_append_cons h (by decide)

theorem suffix_intercalate {texts : List String} {last : String}
    (h : suffix.toList <:+ last.toList) :
    suffix.toList <:+ (String.intercalate "/" (texts ++ [last])).toList := by
  cases texts with
  | nil => exact h
  | cons t ts =>
    rw [String.intercalate_append_of_ne_nil (by simp) (by simp), String.intercalate_singleton,
      String.toList_append]
    exact h.trans (List.suffix_append _ _)

/-- A name that ends in `.git` is proper. -/
theorem isProper_of_suffix {name : String} (h : suffix.toList <:+ name.toList)
    (hslash : '/' ∉ name.toList) : IsProper name := by
  have hlen : 4 ≤ name.toList.length := h.length_le
  refine ⟨?_, ?_, ?_, hslash⟩ <;>
    · rintro rfl
      exact absurd hlen (by decide)

/-- A name with `.git` at its end, put there unless it is there already. -/
def bareName (name : String) : String :=
  if suffix.toList.isSuffixOf name.toList then name else name ++ suffix

theorem suffix_bareName (name : String) : suffix.toList <:+ (bareName name).toList := by
  unfold bareName
  split
  · next h => exact List.isSuffixOf_iff_suffix.1 h
  · rw [String.toList_append]
    exact List.suffix_append _ _

theorem bareName_of_suffix {name : String} (h : suffix.toList <:+ name.toList) :
    bareName name = name := by
  rw [bareName, if_pos (List.isSuffixOf_iff_suffix.2 h)]

theorem isProper_bareName {name : String} (h : '/' ∉ name.toList) : IsProper (bareName name) := by
  refine isProper_of_suffix (suffix_bareName name) ?_
  unfold bareName
  split
  · exact h
  · rw [String.toList_append, toList_suffix]
    simp [h]

/-! ## Directories -/

/-- The steps down to a repository's directory: along proper names, the last of which ends in
`.git`. -/
def IsDirectory (down : List String) : Prop :=
  (∀ name ∈ down, IsProper name) ∧ ∃ init last, down = init ++ [last] ∧
    suffix.toList <:+ last.toList

theorem dirName_inj {m n : RepoName} (h : m.dirName = n.dirName) : m = n := by
  cases m
  cases n
  rw [RepoName.mk.injEq]
  exact (String.append_left_inj _).1 h

/-- A text with its `.git` cut off, and put on again, has one at its end. -/
theorem dropGit_intercalate_append_suffix (init : List String) (last : String) :
    String.ofList (dropGit (String.intercalate "/" (init ++ [last])).toList) ++ suffix =
      String.intercalate "/" (init ++ [bareName last]) := by
  unfold bareName
  split
  · next hlast =>
    have hend : suffix.toList <:+ (String.intercalate "/" (init ++ [last])).toList :=
      suffix_intercalate (List.isSuffixOf_iff_suffix.1 hlast)
    rw [← String.toList_inj, String.toList_append, String.toList_ofList,
      dropGit_append_suffix hend]
  · next hlast =>
    rw [dropGit_of_not_suffix fun hend ↦
      hlast (List.isSuffixOf_iff_suffix.2 (suffix_of_intercalate hend)),
      String.ofList_toList, intercalate_concat_append]

theorem dirName_of_segments {raw last : String} {init : List String}
    (h : segments raw = init ++ [last]) :
    (sanitize raw).dirName = String.intercalate "/" (init ++ [bareName last]) := by
  rw [dirName, sanitize, h]
  exact dropGit_intercalate_append_suffix init last

theorem map_text_walk_concat (up : Nat) (init : List String) (last : String) :
    (walk up (init ++ [last])).map Component.text =
      (walk up init).map Component.text ++ [last] := by
  simp [walk, Component.text]

/-- The directory of an argument that means nothing. -/
theorem dirName_of_nil {raw : String} (h : segments raw = []) :
    (sanitize raw).dirName = render (walk 0 [suffix]) ∧ IsDirectory [suffix] := by
  refine ⟨?_, ?_, [], suffix, rfl, List.suffix_rfl⟩
  · rw [dirName, sanitize, h]
    decide
  · simpa using isProper_of_suffix List.suffix_rfl (by decide)

/-- The directory of an argument that only climbs: the suffix makes a name of its last step. -/
theorem dirName_of_climb {raw : String} {up : Nat}
    (h : segments raw = (walk (up + 1) []).map Component.text) :
    (sanitize raw).dirName = render (walk up [bareName ".."]) ∧ IsDirectory [bareName ".."] := by
  have hlast : segments raw = (walk up []).map Component.text ++ [".."] := by
    rw [h]
    simp [walk, List.replicate_succ', Component.text]
  refine ⟨?_, ?_, [], bareName "..", rfl, suffix_bareName _⟩
  · rw [dirName_of_segments hlast, render_walk]
    exact congrArg _ (map_text_walk_concat up [] _).symm
  · simpa using isProper_bareName (by decide)

/-- The directory of an argument that goes down. -/
theorem dirName_of_walk {raw : String} {up : Nat} {init : List String} {last : String}
    (h : segments raw = (walk up (init ++ [last])).map Component.text)
    (hproper : ∀ name ∈ init ++ [last], IsProper name) :
    (sanitize raw).dirName = render (walk up (init ++ [bareName last])) ∧
      IsDirectory (init ++ [bareName last]) := by
  rw [map_text_walk_concat] at h
  have hlast := hproper last (by simp)
  refine ⟨?_, fun name hname ↦ ?_, init, bareName last, rfl, suffix_bareName _⟩
  · rw [dirName_of_segments h, render_walk, map_text_walk_concat]
  · rcases List.mem_append.1 hname with hname | hname
    · exact hproper name (List.mem_append_left _ hname)
    · rw [List.mem_singleton.1 hname]
      exact isProper_bareName hlast.2.2.2

/-- The directory of a name, whatever the raw argument was. -/
theorem exists_dirName (raw : String) :
    ∃ up down, (sanitize raw).dirName = render (walk up down) ∧ IsDirectory down := by
  obtain ⟨up, names, hsegments, hnames⟩ := exists_segments raw
  rcases names.eq_nil_or_concat with rfl | ⟨init, last, rfl⟩
  · cases up with
    | zero => exact ⟨0, _, dirName_of_nil hsegments⟩
    | succ up => exact ⟨up, _, dirName_of_climb hsegments⟩
  · rw [List.concat_eq_append] at hsegments hnames
    exact ⟨up, _, dirName_of_walk hsegments hnames⟩

/-- The text of a directory, with a slash in front, is stripped to itself. -/
theorem strip_slash_render {up : Nat} {down : List String} (h : IsDirectory down) :
    strip ("/" ++ render (walk up down)) = (render (walk up down)).toList := by
  obtain ⟨hproper, init, last, rfl, hlast⟩ := h
  have hend : suffix.toList <:+ (render (walk up (init ++ [last]))).toList := by
    rw [render_walk, map_text_walk_concat]
    exact suffix_intercalate hlast
  obtain ⟨front, hfront⟩ := hend
  have htext : ("/" ++ render (walk up (init ++ [last]))).toList =
      '/' :: (render (walk up (init ++ [last]))).toList := String.toList_append
  have htrim : Text.trim ('/' :: (render (walk up (init ++ [last]))).toList) =
      '/' :: (render (walk up (init ++ [last]))).toList := by
    have hslash : Text.isBlank '/' = false := by decide
    have ht : Text.isBlank 't' = false := by decide
    rw [← hfront, toList_suffix]
    simp [Text.trim, Text.trimLeft, hslash, ht]
  rw [strip, htext, htrim, List.dropWhile_cons_of_pos (by decide)]
  have hrel : isAbsolute (render (walk up (init ++ [last]))) = false :=
    isAbsolute_render_walk hproper
  unfold isAbsolute at hrel
  cases hcs : (render (walk up (init ++ [last]))).toList with
  | nil => rfl
  | cons c cs =>
    rw [hcs] at hrel
    exact List.dropWhile_cons_of_neg (by simpa using hrel)

/-- Each directory is that of the name which its own text stands for. -/
theorem dirName_sanitize {up : Nat} {down : List String} (h : IsDirectory down) :
    (sanitize ("/" ++ render (walk up down))).dirName = render (walk up down) := by
  have hsegments : segments ("/" ++ render (walk up down)) =
      (walk up down).map Component.text := by
    rw [segments_eq, strip_slash_render h, String.ofList_toList, moves_render_walk h.1,
      resolve_walk]
  obtain ⟨-, init, last, rfl, hlast⟩ := h
  rw [map_text_walk_concat] at hsegments
  rw [dirName_of_segments hsegments, bareName_of_suffix hlast, render_walk, map_text_walk_concat]

/-! ## How far a name climbs -/

/-- How many steps up the directory of a name begins with. -/
def climb (n : RepoName) : Nat := (moves n.dirName).count .parent

theorem climb_of_dirName {n : RepoName} {up : Nat} {down : List String}
    (h : n.dirName = render (walk up down)) (hdown : IsDirectory down) : n.climb = up := by
  rw [climb, h, moves_render_walk hdown.1, walk, List.count_append, List.count_replicate_self,
    List.count_eq_zero_of_not_mem (by simp), Nat.add_zero]

end GitGateway.RepoName
