import GitGateway.Proofs.Machines

/-!
# What a creation adds

On the ground of a store, a creation adds the directories on the way to its repository and things at
and below it.  Of these only one is a `HEAD`, the repository's own, and a private marker appears
exactly if the name is marked in the gateway's memory as well (`Creation.effect`).
-/

namespace GitGateway

open Disk Path

/-! ## Files of a repository -/

namespace Store

variable {d d' : Disk} {root : String} {base : List FileName} {rest names : List String}
variable {name : String}

theorem isProper_head : IsProper "HEAD" := by decide

theorem isProper_marker : IsProper marker := by decide

theorem isProper_concat (hnames : ∀ n ∈ names, IsProper n) (hname : IsProper name) :
    ∀ n ∈ names ++ [name], IsProper n := by
  intro n hn
  rcases List.mem_append.1 hn with hn | hn
  · exact hnames n hn
  · rwa [List.mem_singleton.1 hn]

theorem placeBelow_concat (base : List FileName) (names : List String) (name : String) :
    placeBelow base (names ++ [name]) = placeBelow base names ++ [.text name] := by
  rw [placeBelow, placeBelow, List.map_append, List.append_assoc]
  rfl

theorem placeBelow_inj {names' : List String}
    (h : placeBelow base names' = placeBelow base names) : names' = names :=
  (List.map_inj_right fun _ _ ↦ FileName.text.inj).1 (List.append_cancel_left h)

/-- A path along names below the root leads to a file if there is one along these names. -/
theorem kindAt_of_isFile (hground : d.IsGround root base) (hnames : ∀ n ∈ names, IsProper n)
    (hne : names ≠ []) (h : d.isFile (below root names) = true) :
    d.kindAt (placeBelow base names) = some .file := by
  obtain ⟨place, hleads, hfile⟩ := (isFile_iff hground.sound).1 h
  rwa [hground.eq_of_leadsTo hnames hne hleads] at hfile

/-- A path that leads to a file still does after growth. -/
theorem isFile_grows {p : String} {new : List FileName → Kind → Prop} (hsound : d.IsSound)
    (h : d.isFile p = true) (hgrows : Grows new d d') : d'.isFile p = true := by
  obtain ⟨place, hleads, hfile⟩ := (isFile_iff hsound).1 h
  exact (isFile_iff (hsound.grows hgrows)).2 ⟨place, hleads.grows hgrows, hgrows.kept hfile⟩

/-- The path of a name leads to a bare repository if the path of its `HEAD` leads to a file. -/
theorem isBare_iff {n : RepoName} (h : Confine.LiesAlong root n rest) :
    isBare d (below root rest) = true ↔ d.isFile (below root (rest ++ ["HEAD"])) = true := by
  rw [isBare, below_concat root h.isDirectory.1 isProper_head, Bool.and_eq_true,
    and_iff_right_iff_imp]
  exact isDir_of_isFile_join (Confine.text_ne_empty h.repoPath_eq) isProper_head

/-- Where a name leads to a bare repository, there is a file `HEAD`. -/
theorem kindAt_of_isBare {n : RepoName} (hground : d.IsGround root base)
    (h : Confine.LiesAlong root n rest) (hbare : isBare d (below root rest) = true) :
    d.kindAt (placeBelow base rest ++ [.text "HEAD"]) = some .file := by
  rw [← placeBelow_concat]
  exact kindAt_of_isFile hground (isProper_concat h.isDirectory.1 isProper_head) (by simp)
    ((isBare_iff h).1 hbare)

/-! ## What is added -/

/-- What the git program and the making of directories add for a repository along names: the
directories on the way to it, and at and below it directories and files, among them no private
marker, and a `HEAD` only where the repository has its own. -/
inductive Adds (d' : Disk) (root : String) (base : List FileName) (rest : List String)
    (place : List FileName) (k : Kind) : Prop where
  | onWay (h : IsOnWay base rest place k)
  | inside (hbelow : placeBelow base rest <+: place) (h : k = .dir true ∨ k = .file ∧
      place.getLast? ≠ some (.text "HEAD") ∧ place.getLast? ≠ some (.text marker))
  | head (hk : k = .file) (hplace : place = placeBelow base rest ++ [.text "HEAD"])
      (hleads : d'.LeadsTo true (below root (rest ++ ["HEAD"])) place)

namespace Adds

variable {place : List FileName} {k : Kind}

/-- A directory that is added can be read. -/
theorem readable {r : Bool} (h : Adds d' root base rest place (.dir r)) : r = true := by
  cases h with
  | onWay h => exact Kind.dir.inj h.1
  | inside _ h =>
    rcases h with h | ⟨h, -⟩
    · exact Kind.dir.inj h
    · cases h
  | head hk => cases hk

/-- Only the repository's own `HEAD` is added. -/
theorem eq_of_head (h : Adds d' root base rest (place ++ [.text "HEAD"]) .file) :
    place = placeBelow base rest ∧
      d'.LeadsTo true (below root (rest ++ ["HEAD"])) (place ++ [.text "HEAD"]) := by
  cases h with
  | onWay h => cases h.1
  | inside _ h =>
    rcases h with h | ⟨-, hhead, -⟩
    · cases h
    · exact absurd List.getLast?_concat hhead
  | head _ hplace hleads => exact ⟨(List.append_inj' hplace rfl).1, hleads⟩

/-- No private marker is added. -/
theorem not_marker (h : Adds d' root base rest (place ++ [.text marker]) .file) : False := by
  cases h with
  | onWay h => cases h.1
  | inside _ h =>
    rcases h with h | ⟨-, -, hmarker⟩
    · cases h
    · exact absurd List.getLast?_concat hmarker
  | head _ hplace => exact absurd (List.append_inj' hplace rfl).2 (by decide)

end Adds

/-- Making a repository on the ground of a store. -/
theorem Inits.grows {n : RepoName} (hground : d.IsGround root base)
    (halong : Confine.LiesAlong root n rest) (h : Inits (below root rest) d d') :
    Grows (Adds d' root base rest) d d' := by
  obtain ⟨hproper, init, last, rfl, -⟩ := halong.isDirectory
  obtain ⟨d₁, hmake, hgrows⟩ := h
  have hway : Grows (Adds d' root base (init ++ [last])) d d₁ := by
    rcases hmake with rfl | ⟨above, habove, hmake⟩
    · exact .refl _
    · have hinit : ∀ name ∈ init, IsProper name := fun name hname ↦
        hproper name (List.mem_append_left _ hname)
      rw [parent?_below_concat root hinit (hproper last (by simp))] at habove
      cases habove
      refine (hground.makeDirs_grows hinit hmake).mono fun place k hnew ↦ .onWay ?_
      obtain ⟨hk, front, hfront, hplace⟩ := hnew
      exact ⟨hk, front, hfront.trans (List.prefix_append _ _), hplace⟩
  have hground' := (hground.grows hway).grows hgrows
  refine hway.trans (hgrows.mono fun place k hnew ↦ ?_)
  rcases hnew with ⟨target, hleads, htarget, hk⟩ | ⟨hk, hleads⟩
  · rw [hground'.eq_of_leadsTo hproper (by simp) hleads] at htarget
    exact .inside htarget hk
  · rw [← below_concat root hproper isProper_head] at hleads
    have hplace := hground'.eq_of_leadsTo (isProper_concat hproper isProper_head) (by simp) hleads
    rw [placeBelow_concat] at hplace
    exact .head hk hplace hleads

/-! ## What a creation does -/

variable {n : RepoName} {isPrivate : Bool} {marks marks' : List String}
variable {r : Except BackendError Repository}

/-- What a creation does on the ground of a store, if the directory of the name lies along names
below the root: it grows the disk by a repository, and marks the name on the disk if it marks it in
memory. -/
structure Effect (root : String) (base : List FileName) (n : RepoName) (rest : List String)
    (d : Disk) (marks : List String) (d' : Disk) (marks' : List String) : Prop where
  grows : Grows (fun place k ↦ Adds d' root base rest place k ∨
    k = .file ∧ place = placeBelow base rest ++ [.text marker] ∧ marks' = n.text :: marks) d d'
  marks_eq : marks' = marks ∨
    marks' = n.text :: marks ∧ d'.isFile (below root (rest ++ [marker])) = true

/-- A creation does nothing, or something for a name that was accepted. -/
theorem Creation.effect (hground : d.IsGround root base)
    (h : Creation root n isPrivate d marks d' marks' r) :
    (∃ e, r = .error e) ∧ d' = d ∧ marks' = marks ∨
      n.isEmpty = false ∧ (∃ path, Confine.repoPath root n = .ok path) ∧
        ∀ rest, Confine.LiesAlong root n rest → Effect root base n rest d marks d' marks' := by
  have hmade : ∀ {path : RepoPath} {rest : List String} {d₁ : Disk}, Confine.LiesAlong root n rest →
      Confine.repoPath root n = .ok path → Inits path.text d d₁ →
      Grows (Adds d₁ root base rest) d d₁ := by
    intro path rest d₁ halong hpath hinit
    rw [halong.text_eq hpath] at hinit
    exact hinit.grows hground halong
  cases h with
  | refused e => exact .inl ⟨⟨e, rfl⟩, rfl, rfl⟩
  | failed e hname hpath hinit =>
    refine .inr ⟨hname, ⟨_, hpath⟩, fun rest halong ↦ ⟨?_, .inl rfl⟩⟩
    exact (hmade halong hpath hinit).mono fun _ _ ↦ .inl
  | made _ hname hpath hinit =>
    refine .inr ⟨hname, ⟨_, hpath⟩, fun rest halong ↦ ⟨?_, .inl rfl⟩⟩
    exact (hmade halong hpath hinit).mono fun _ _ ↦ .inl
  | @marked path d₁ _ _ hname hpath hinit hmark =>
    refine .inr ⟨hname, ⟨_, hpath⟩, fun rest halong ↦ ?_⟩
    have hgrows := hmade halong hpath hinit
    have hground₁ := hground.grows hgrows
    have hproper := isProper_concat halong.isDirectory.1 isProper_marker
    obtain ⟨place, hleads, hfile, hwrite⟩ := writeFile_eq_ok hground₁.sound hmark
    rw [halong.text_eq hpath, ← below_concat root halong.isDirectory.1 isProper_marker] at hleads
    have hplace := hground₁.eq_of_leadsTo hproper (by simp) hleads
    rw [placeBelow_concat] at hplace
    refine ⟨.trans (hgrows.mono fun other k hnew ↦ .inl ?_) (hwrite.mono fun other k hnew ↦
      .inr ⟨hnew.2, hnew.1.trans hplace, rfl⟩), .inr ⟨rfl, ?_⟩⟩
    · cases hnew with
      | onWay h => exact .onWay h
      | inside hbelow h => exact .inside hbelow h
      | head hk hplace hleads => exact .head hk hplace (hleads.grows hwrite)
    · exact (isFile_iff (hground₁.sound.grows hwrite)).2 ⟨place, hleads.grows hwrite, hfile⟩

end Store

end GitGateway
