import GitGateway.Proofs.Aliases
import Mathlib.Logic.Relation

/-!
# One resolution for names and for paths

A raw argument is resolved twice: its pieces are resolved to segments when it is named, and the
directory of the name is resolved as a path when it is confined.  Both agree
(`segments_eq_normalize`), so a name that does not climb is never refused, and leads to the root with
the segments behind it (`repoPath_sanitize`).

Two arguments are **spelled alike** if their pieces differ in what means nothing, in steps down that
are taken back at once, and in one `.git` at the end.  What is spelled alike has one name
(`sanitize_eq_of_respells`).
-/

namespace GitGateway.RepoName

open GitGateway.Path

/-! ## Arguments as paths -/

/-- The path that a raw argument is, without surrounding blanks and leading slashes. -/
def path (raw : String) : String := String.ofList (strip raw)

theorem isAbsolute_path (raw : String) : isAbsolute (path raw) = false := by
  have hhead := List.head?_dropWhile_not (· == '/') (Text.trim raw.toList)
  rw [isAbsolute, path, String.toList_ofList, strip]
  split at hhead
  · next c hc =>
    rw [hc]
    simpa using hhead
  · next hnone =>
    rw [hnone]
    rfl

theorem normalize_path (raw : String) : normalize (path raw) = resolve (moves (path raw)) := by
  rw [normalize_eq, start, isAbsolute_path, if_neg Bool.false_ne_true, List.nil_append]

/-- The segments of an argument are the components that its path resolves to. -/
theorem segments_eq_normalize (raw : String) :
    segments raw = (normalize (path raw)).map Component.text := by
  rw [normalize_path]
  exact segments_eq raw

/-- What an argument's path resolves to can be read off its segments. -/
theorem normalize_eq_segments (raw : String) :
    normalize (path raw) = (segments raw).filterMap component? := by
  obtain ⟨up, down, hwalk, hdown⟩ := normalize_of_not_isAbsolute (isAbsolute_path raw)
  rw [segments_eq_normalize, hwalk, filterMap_text_walk hdown]

/-- An argument without a step up among its segments goes down along them. -/
theorem normalize_eq_names {raw : String} (h : ".." ∉ segments raw) :
    normalize (path raw) = walk 0 (segments raw) ∧ ∀ name ∈ segments raw, IsProper name := by
  obtain ⟨up, down, hwalk, hdown⟩ := normalize_of_not_isAbsolute (isAbsolute_path raw)
  have hsegments := segments_eq_normalize raw
  cases up with
  | zero =>
    have hdownward : segments raw = down := by
      rw [hsegments, hwalk, walk_zero, List.map_map]
      exact List.map_id down
    rw [hwalk, hdownward]
    exact ⟨rfl, hdown⟩
  | succ up =>
    rw [hwalk] at hsegments
    exact absurd (hsegments ▸ List.mem_cons_self) h

/-! ## Names that are not refused -/

/-- A name that does not climb leads to the root with its segments behind it. -/
theorem repoPath_sanitize {raw last : String} {init : List String}
    (h : segments raw = init ++ [last]) (hdots : ".." ∉ segments raw) (root : String) :
    Confine.repoPath root (sanitize raw) =
      .ok ⟨normalize root ++ (init ++ [bareName last]).map .normal⟩ := by
  obtain ⟨hwalk, hproper⟩ := normalize_eq_names hdots
  have htext := segments_eq_normalize raw
  rw [hwalk] at htext
  rw [h] at htext hproper
  obtain ⟨hn, hdown⟩ := dirName_of_walk (h.trans htext) hproper
  exact Confine.repoPath_of_directory hn hdown

/-! ## Spellings -/

/-- The name of an argument with these pieces. -/
def ofPieces (ps : List String) : RepoName :=
  ⟨String.ofList (dropGit (String.intercalate "/" (ps.foldl addSegment []).reverse).toList)⟩

/-- What may be changed in the pieces of an argument. -/
inductive Respells : List String → List String → Prop where
  /-- An empty piece or a dot means nothing. -/
  | trivial {piece : String} (front back : List String) (h : piece = "" ∨ piece = ".") :
      Respells (front ++ back) (front ++ piece :: back)
  /-- A step down that is taken back at once. -/
  | detour {name : String} (front back : List String) (h : IsProper name) :
      Respells (front ++ back) (front ++ name :: ".." :: back)
  /-- One `.git` at the end. -/
  | suffixed {name : String} (front : List String) (h : IsProper name)
      (hbare : ¬ suffix.toList <:+ name.toList) :
      Respells (front ++ [name]) (front ++ [name ++ suffix])

theorem sanitize_eq_ofPieces (raw : String) : sanitize raw = ofPieces (pieces (path raw)) := by
  rw [ofPieces, pieces, path, String.toList_ofList]
  rfl

theorem addSegment_of_isProper {name : String} (h : IsProper name) (segments : List String) :
    addSegment segments name = name :: segments := by
  simp [addSegment, h.1, h.2.1, h.2.2.1]

theorem addSegment_of_trivial {piece : String} (h : piece = "" ∨ piece = ".")
    (segments : List String) : addSegment segments piece = segments := by
  rcases h with rfl | rfl <;> rfl

theorem Respells.ofPieces_eq {ps qs : List String} (h : Respells ps qs) :
    ofPieces ps = ofPieces qs := by
  cases h with
  | trivial front back h =>
    simp only [ofPieces, List.foldl_append, List.foldl_cons, addSegment_of_trivial h]
  | @detour name front back h =>
    have hback (done : List String) : addSegment (name :: done) ".." = done := by
      simp [addSegment, h.2.2.1]
    simp only [ofPieces, List.foldl_append, List.foldl_cons, addSegment_of_isProper h, hback]
  | @suffixed name front h hbare =>
    have hend : suffix.toList <:+ (name ++ suffix).toList := by
      rw [String.toList_append]
      exact List.suffix_append _ _
    have hslash : '/' ∉ (name ++ suffix).toList := by
      rw [String.toList_append, toList_suffix]
      simp [h.2.2.2]
    have hlast : bareName name = bareName (name ++ suffix) := by
      rw [bareName_of_suffix hend, bareName,
        if_neg fun hs ↦ hbare (List.isSuffixOf_iff_suffix.1 hs)]
    -- the two names have the same directory
    apply dirName_inj
    simp only [ofPieces, dirName, List.foldl_append, List.foldl_cons, List.foldl_nil,
      addSegment_of_isProper h, addSegment_of_isProper (isProper_of_suffix hend hslash),
      List.reverse_cons, dropGit_intercalate_append_suffix, hlast]

theorem ofPieces_eq_of_eqvGen {ps qs : List String} (h : Relation.EqvGen Respells ps qs) :
    ofPieces ps = ofPieces qs := by
  induction h with
  | rel _ _ h => exact h.ofPieces_eq
  | refl => rfl
  | symm _ _ _ ih => exact ih.symm
  | trans _ _ _ _ _ ih₁ ih₂ => exact ih₁.trans ih₂

/-- Arguments that are spelled alike have one name. -/
theorem sanitize_eq_of_respells {raw other : String}
    (h : Relation.EqvGen Respells (pieces (path raw)) (pieces (path other))) :
    sanitize raw = sanitize other := by
  rw [sanitize_eq_ofPieces, sanitize_eq_ofPieces]
  exact ofPieces_eq_of_eqvGen h

/-- **Names resolve as paths do.**  For every raw argument, the segments that it is named by are the
components that its path resolves to; below every root, a name that does not climb and is not empty
leads to the resolved root with its segments behind it, the last of them with a `.git` that it may
have had already; and what is spelled alike has one name, and so one path below every root. -/
theorem sanitize_resolves :
    (∀ raw, segments raw = (normalize (path raw)).map Component.text ∧
      normalize (path raw) = (segments raw).filterMap component?) ∧
    (∀ raw init last, segments raw = init ++ [last] → ".." ∉ segments raw → ∀ root,
      Confine.repoPath root (sanitize raw) =
        .ok ⟨normalize root ++ (init ++ [bareName last]).map .normal⟩) ∧
    ∀ raw other, Relation.EqvGen Respells (pieces (path raw)) (pieces (path other)) →
      sanitize raw = sanitize other := by
  refine ⟨fun raw ↦ ⟨segments_eq_normalize raw, normalize_eq_segments raw⟩, ?_, ?_⟩
  · intro raw init last h hdots root
    exact repoPath_sanitize h hdots root
  · intro raw other h
    exact sanitize_eq_of_respells h

example : sanitize " //org/./x/../lib.git/ " = sanitize "org/lib" := by decide

end GitGateway.RepoName
