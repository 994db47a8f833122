import GitGateway.Proofs.Creations
import GitGateway.Proofs.Readback
import GitGateway.Proofs.Scripts

/-!
# Opening a store again

A store that is opened again reads its private marks from the disk, by way of a listing: the text of
each listed name is read as a name once more, and the marker is looked for where that one leads.  So
a mark is lost if the name is not listed, because its repository lies in another one, or if its text
reads as another name.

What creations do to a store that began empty is an invariant (`Kept`): every `HEAD` and every
marker belongs to a name that was created.  From it, the marks found are compared with those in
memory (`reopened_levels_agree_iff`).
-/

namespace GitGateway

open Disk Path Confine Listing

/-! ## Levels -/

namespace Policy

variable {marks : List String} {name : RepoName}

/-- Without settings, an anonymous client may read exactly the repositories that are not marked. -/
theorem level_default (hname : name.isEmpty = false) :
    level ⟨.readOnly, true, [], [], []⟩ marks name none =
      if name.text ∈ marks then .noAccess else .readOnly := by
  have hprivate : isPrivate ⟨.readOnly, true, [], [], []⟩ marks name = decide (name.text ∈ marks) := by
    rw [isPrivate, List.contains_eq_mem]
    rfl
  by_cases hmem : name.text ∈ marks
  · simp [level, hname, hprivate, hmem, isAdmin]
  · simp [level, hname, hprivate, hmem, isAdmin, baseLevel]

end Policy

namespace Machine

variable {σ : Type}

/-- Whether two states of a machine give everybody the same level on every repository, under every
configuration. -/
def SameLevels (m : Machine σ) (root : String) (x x' : σ) : Prop :=
  ∀ settings policy, Policy.ofSettings settings = .ok policy → ∀ raw key,
    m.level ⟨root, policy⟩ (RepoName.sanitize raw) key x' =
      m.level ⟨root, policy⟩ (RepoName.sanitize raw) key x

/-- The levels are the same exactly if the same names are marked. -/
theorem IsLawful.sameLevels_iff {m : Machine σ} (hm : m.IsLawful) (root : String) (x x' : σ) :
    m.SameLevels root x x' ↔ ∀ raw, (RepoName.sanitize raw).isEmpty = false →
      ((RepoName.sanitize raw).text ∈ m.marks x' ↔ (RepoName.sanitize raw).text ∈ m.marks x) := by
  constructor
  · intro h raw hname
    have hdefault : Policy.ofSettings {} = .ok ⟨.readOnly, true, [], [], []⟩ := rfl
    have hlevel := h {} _ hdefault raw none
    rw [hm.level, hm.level, Policy.level_default hname, Policy.level_default hname] at hlevel
    split at hlevel
    · next hafter =>
      split at hlevel
      · next hbefore => exact ⟨fun _ ↦ hbefore, fun _ ↦ hafter⟩
      · cases hlevel
    · next hafter =>
      split at hlevel
      · cases hlevel
      · next hbefore => exact ⟨fun h ↦ absurd h hafter, fun h ↦ absurd h hbefore⟩
  · intro h settings policy _ raw key
    rw [hm.level, hm.level]
    exact Policy.level_congr (h raw) key

end Machine

/-! ## What creations leave behind -/

namespace Store

variable {d d' : Disk} {root : String} {base : List FileName} {names : List RepoName}
variable {marks marks' : List String}

/-- An empty directory that can be read. -/
structure IsEmptyAt (d : Disk) (base : List FileName) : Prop where
  dir : d.kindAt base = some (.dir true)
  none_below : ∀ rest, rest ≠ [] → d.kindAt (base ++ rest) = none

/-- What holds of a store that began empty after some of these names were created: every `HEAD` and
every marker is that of a name, and every marked name has its marker. -/
structure Kept (root : String) (base : List FileName) (names : List RepoName) (d : Disk)
    (marks : List String) : Prop where
  ground : d.IsGround root base
  leads : d.LeadsTo true root base
  dir : d.kindAt base = some (.dir true)
  readable : ∀ rest r, d.kindAt (base ++ rest) = some (.dir r) → r = true
  head : ∀ place, base <+: place → d.kindAt (place ++ [.text "HEAD"]) = some .file →
    ∃ n ∈ names, ∃ rest, n.isEmpty = false ∧ LiesAlong root n rest ∧
      place = placeBelow base rest ∧ isBare d (below root rest) = true
  marker : ∀ place, base <+: place → d.kindAt (place ++ [.text marker]) = some .file →
    ∃ n ∈ names, ∃ rest, LiesAlong root n rest ∧ place = placeBelow base rest ∧ n.text ∈ marks
  marked : ∀ text ∈ marks, ∃ n ∈ names, ∃ rest, n.text = text ∧ n.isEmpty = false ∧
    LiesAlong root n rest ∧ d.isFile (below root (rest ++ [Store.marker])) = true

namespace Kept

/-- An empty store has neither repositories nor marks. -/
theorem of_isEmptyAt (hground : d.IsGround root base) (hleads : d.LeadsTo true root base)
    (hempty : IsEmptyAt d base) (names : List RepoName) : Kept root base names d [] where
  ground := hground
  leads := hleads
  dir := hempty.dir
  readable rest r h := by
    by_cases hrest : rest = []
    · rw [hrest, List.append_nil, hempty.dir] at h
      cases h
      rfl
    · cases (hempty.none_below rest hrest).symm.trans h
  head := by
    rintro _ ⟨rest, rfl⟩ h
    rw [List.append_assoc] at h
    cases (hempty.none_below (rest ++ _) (by simp)).symm.trans h
  marker := by
    rintro _ ⟨rest, rfl⟩ h
    rw [List.append_assoc] at h
    cases (hempty.none_below (rest ++ _) (by simp)).symm.trans h
  marked := by simp

/-- A creation of one of the names keeps all that. -/
theorem effect {n : RepoName} {rest : List String} (h : Kept root base names d marks)
    (hn : n ∈ names) (hne : n.isEmpty = false) (halong : LiesAlong root n rest)
    (heffect : Effect root base n rest d marks d' marks') : Kept root base names d' marks' := by
  have hgrows := heffect.grows
  have hsubset : ∀ text ∈ marks, text ∈ marks' := by
    intro text htext
    rcases heffect.marks_eq with heq | ⟨heq, -⟩
    · rwa [heq]
    · rw [heq]
      exact List.mem_cons_of_mem _ htext
  have hground := h.ground.grows hgrows
  refine ⟨hground, h.leads.grows hgrows, hgrows.kept h.dir, fun rest' r hr ↦ ?_,
    fun place hplace hfile ↦ ?_, fun place hplace hfile ↦ ?_, fun text htext ↦ ?_⟩
  · cases hold : d.kindAt (base ++ rest') with
    | some k =>
      cases (hgrows.kept hold).symm.trans hr
      exact h.readable rest' r hold
    | none =>
      rcases hgrows.new_of hold hr with hadds | ⟨hk, -⟩
      · exact hadds.readable
      · cases hk
  · cases hold : d.kindAt (place ++ [.text "HEAD"]) with
    | some k =>
      cases (hgrows.kept hold).symm.trans hfile
      obtain ⟨n', hn', rest', hne', halong', rfl, hbare⟩ := h.head place hplace hold
      refine ⟨n', hn', rest', hne', halong', rfl, (isBare_iff halong').2 ?_⟩
      exact isFile_grows h.ground.sound ((isBare_iff halong').1 hbare) hgrows
    | none =>
      rcases hgrows.new_of hold hfile with hadds | ⟨-, heq, -⟩
      · obtain ⟨rfl, hleads⟩ := hadds.eq_of_head
        refine ⟨n, hn, rest, hne, halong, rfl, (isBare_iff halong).2 ?_⟩
        exact (isFile_iff hground.sound).2 ⟨_, hleads, hfile⟩
      · exact absurd (List.append_inj' heq rfl).2 (by decide)
  · cases hold : d.kindAt (place ++ [.text Store.marker]) with
    | some k =>
      cases (hgrows.kept hold).symm.trans hfile
      obtain ⟨n', hn', rest', halong', hat, hmem⟩ := h.marker place hplace hold
      exact ⟨n', hn', rest', halong', hat, hsubset _ hmem⟩
    | none =>
      rcases hgrows.new_of hold hfile with hadds | ⟨-, heq, hmarks⟩
      · exact hadds.not_marker.elim
      · refine ⟨n, hn, rest, halong, (List.append_inj' heq rfl).1, ?_⟩
        rw [hmarks]
        exact List.mem_cons_self
  · have hold : text ∈ marks → ∃ n ∈ names, ∃ rest, n.text = text ∧ n.isEmpty = false ∧
        LiesAlong root n rest ∧ d'.isFile (below root (rest ++ [Store.marker])) = true := by
      intro htext
      obtain ⟨n', hn', rest', heq, hne', halong', hfile⟩ := h.marked text htext
      exact ⟨n', hn', rest', heq, hne', halong', isFile_grows h.ground.sound hfile hgrows⟩
    rcases heffect.marks_eq with heq | ⟨heq, hfile⟩
    · exact hold (heq ▸ htext)
    · rw [heq] at htext
      rcases List.mem_cons.1 htext with rfl | htext
      · exact ⟨n, hn, rest, rfl, hne, halong, hfile⟩
      · exact hold htext

/-- Below the root, what holds a file `HEAD` is the directory of a name. -/
theorem exists_of_isRepository (h : Kept root base names d marks) {path : List FileName}
    (hpath : isRepository d (base ++ path) = true) : ∃ n ∈ names, ∃ rest, n.isEmpty = false ∧
      LiesAlong root n rest ∧ path = rest.map .text ∧ isBare d (below root rest) = true := by
  have hplain : ∀ target, d.kindAt (base ++ path ++ [.text "HEAD"]) ≠ some (.link target) := by
    intro target
    rw [List.append_assoc]
    exact h.ground.plain _ target
  have hhead := (Bool.and_eq_true_iff.1 hpath).2
  obtain ⟨n, hn, rest, hne, halong, hplace, hbare⟩ :=
    h.head _ (List.prefix_append _ _) ((holdsHead_iff hplain).1 hhead)
  exact ⟨n, hn, rest, hne, halong, List.append_cancel_left hplace, hbare⟩

/-- What is listed is the directory of a name, and a bare repository. -/
theorem exists_of_mem_names (h : Kept root base names d marks) {e : String}
    (he : e ∈ (Listing.ofDisk d root).names) : ∃ n ∈ names, ∃ rest, n.isEmpty = false ∧
      LiesAlong root n rest ∧ e = dropSuffix (shown (rest.map FileName.text).reverse) ∧
      isBare d (below root rest) = true ∧ ∀ front, front <+: rest → front ≠ [] → front ≠ rest →
        isRepository d (placeBelow base front) = false := by
  obtain ⟨path, rfl, -, hpath, hfree⟩ :=
    exists_isRepository_of_mem h.ground.sound h.leads h.dir he
  obtain ⟨n, hn, rest, hne, halong, rfl, hbare⟩ := h.exists_of_isRepository hpath
  refine ⟨n, hn, rest, hne, halong, rfl, hbare, fun front hfront hnil hother ↦ ?_⟩
  refine hfree _ (hfront.map _) (by simpa using hnil) fun heq ↦ hother ?_
  exact (List.map_inj_right fun _ _ ↦ FileName.text.inj).1 heq

/-- A listing takes a bare repository for one, if its directory has more than the suffix for its
name. -/
theorem isRepository_of_isGit (h : Kept root base names d marks) {n : RepoName} {init : List String}
    {last : String} (halong : LiesAlong root n (init ++ [last]))
    (hbare : isBare d (below root (init ++ [last])) = true)
    (hgit : (FileName.text last).isGit = true) :
    isRepository d (placeBelow base (init ++ [last])) = true := by
  have hhead := kindAt_of_isBare h.ground halong hbare
  have hplain : ∀ target, d.kindAt (placeBelow base (init ++ [last]) ++ [.text "HEAD"]) ≠
      some (.link target) := by
    intro target
    rw [hhead]
    rintro ⟨⟩
  have hholds := (holdsHead_iff hplain).2 hhead
  rw [placeBelow_concat, List.reverse_append, List.reverse_singleton,
    List.singleton_append] at hholds
  rw [placeBelow_concat, isRepository_concat, hgit, hholds, Bool.true_and]

/-- So it does with the bare repository of a name that returns. -/
theorem isRepository_of_returns (h : Kept root base names d marks) {n : RepoName} {raw : String}
    {rest : List String} (hn : n = RepoName.sanitize raw) (hne : n.isEmpty = false)
    (hreturns : n.Returns) (halong : LiesAlong root n rest)
    (hbare : isBare d (below root rest) = true) :
    isRepository d (placeBelow base rest) = true := by
  obtain ⟨rest', halong', hdir⟩ :=
    RepoName.exists_liesAlong_of_climb hn hreturns.climb_eq halong.repoPath_eq
  obtain rfl := halong.unique halong'
  obtain ⟨-, init, last, rfl, hlast⟩ := halong.isDirectory
  have hgit := RepoName.isGit_of_sanitize_eq hreturns.sanitize_eq hne hdir hlast
  exact h.isRepository_of_isGit halong hbare hgit

/-- A bare repository that lies in no other one is listed, if its directory has more than the suffix
for its name. -/
theorem mem_names (h : Kept root base names d marks) {n : RepoName} {init : List String}
    {last : String} (halong : LiesAlong root n (init ++ [last]))
    (hbare : isBare d (below root (init ++ [last])) = true)
    (hgit : (FileName.text last).isGit = true)
    (hfree : ∀ a ∈ names, ∀ front, LiesAlong root a front → isBare d (below root front) = true →
      ¬ front <+: init) :
    dropSuffix (shown ((init ++ [last]).map FileName.text).reverse) ∈
      (Listing.ofDisk d root).names := by
  have hmap : (init ++ [last]).map FileName.text = init.map .text ++ [.text last] := by simp
  have hplace : placeBelow base (init ++ [last]) = base ++ (init.map .text ++ [.text last]) := by
    rw [placeBelow, hmap]
  have hhead := kindAt_of_isBare h.ground halong hbare
  have hrepository := h.isRepository_of_isGit halong hbare hgit
  rw [hplace] at hhead hrepository
  rw [hmap]
  refine mem_names_ofDisk h.ground.sound h.leads h.dir (exists_dir_of_kindAt hhead) h.readable
    hrepository fun front hfront hne ↦ ?_
  refine Bool.eq_false_iff.2 fun hrepository ↦ ?_
  obtain ⟨a, ha, rest, -, halong', rfl, hbare'⟩ := h.exists_of_isRepository hrepository
  rw [List.prefix_map_iff_of_injective fun _ _ ↦ FileName.text.inj] at hfront
  exact hfree a ha rest halong' hbare' hfront

end Kept

/-! ## Marks that are found -/

theorem mem_marksOn_iff {text : String} : text ∈ marksOn d root ↔
    ∃ e ∈ (Listing.ofDisk d root).names, isMarked d root (RepoName.sanitize e) = true ∧
      (RepoName.sanitize e).text = text := by
  simp only [marksOn, marksAmong, List.mem_map, List.mem_filter]
  constructor
  · rintro ⟨_, ⟨⟨e, he, rfl⟩, hmarked⟩, rfl⟩
    exact ⟨e, he, hmarked, rfl⟩
  · rintro ⟨e, he, hmarked, rfl⟩
    exact ⟨_, ⟨⟨e, he, rfl⟩, hmarked⟩, rfl⟩

theorem isMarked_eq {n : RepoName} {rest : List String} (h : LiesAlong root n rest) :
    isMarked d root n = d.isFile (below root (rest ++ [marker])) := by
  rw [isMarked, h.repoPath_eq, below_concat root h.isDirectory.1 isProper_marker]
  rfl

theorem eq_of_text {n n' : RepoName} (h : n'.text = n.text) : n' = n := by
  cases n
  cases n'
  exact congrArg RepoName.mk h

namespace Kept

theorem eq_nil_of_names (h : Kept root base [] d marks) : marksOn d root = [] := by
  refine List.eq_nil_iff_forall_not_mem.2 fun text htext ↦ ?_
  obtain ⟨e, he, -⟩ := mem_marksOn_iff.1 htext
  obtain ⟨n, hn, -⟩ := h.exists_of_mem_names he
  exact List.not_mem_nil hn

/-- The marker of a name is there for a name whose directory is the same. -/
theorem exists_of_isMarked (h : Kept root base names d marks) {n : RepoName} {rest : List String}
    (halong : LiesAlong root n rest) (hmarked : isMarked d root n = true) :
    ∃ n' ∈ names, LiesAlong root n' rest ∧ n'.text ∈ marks := by
  rw [isMarked_eq halong] at hmarked
  have hfile := kindAt_of_isFile h.ground (isProper_concat halong.isDirectory.1 isProper_marker)
    (by simp) hmarked
  rw [placeBelow_concat] at hfile
  obtain ⟨n', hn', rest', halong', hplace, hmem⟩ := h.marker _ (List.prefix_append _ _) hfile
  rw [placeBelow_inj hplace]
  exact ⟨n', hn', halong', hmem⟩

/-- A mark that is found belongs to a marked name with the same path. -/
theorem exists_same_path (h : Kept root base names d marks)
    (hroot : ∃ c ∈ normalize root, c ≠ .parent) {text : String} (htext : text ∈ marksOn d root) :
    ∃ n ∈ names, n.text ∈ marks ∧ repoPath root n = repoPath root ⟨text⟩ := by
  obtain ⟨e, -, hmarked, rfl⟩ := mem_marksOn_iff.1 htext
  obtain ⟨n, hn⟩ : ∃ n, n = RepoName.sanitize e := ⟨_, rfl⟩
  rw [← hn] at hmarked ⊢
  obtain ⟨path, hpath⟩ : ∃ path, repoPath root n = .ok path := by
    unfold isMarked at hmarked
    split at hmarked
    · next path hpath => exact ⟨path, hpath⟩
    · cases hmarked
  obtain ⟨rest, halong⟩ := exists_liesAlong_of_root hroot hn hpath
  obtain ⟨n', hn', halong', hmem⟩ := h.exists_of_isMarked halong hmarked
  exact ⟨n', hn', hmem, halong'.repoPath_eq.trans halong.repoPath_eq.symm⟩

/-- A name that is in memory has its marker. -/
theorem isMarked_of_mem (h : Kept root base names d marks) {n : RepoName} (hmem : n.text ∈ marks) :
    n ∈ names ∧ n.isEmpty = false ∧ isMarked d root n = true ∧ ∃ rest, LiesAlong root n rest := by
  obtain ⟨n', hn', rest, htext, hne, halong, hfile⟩ := h.marked _ hmem
  obtain rfl := eq_of_text htext
  exact ⟨hn', hne, (isMarked_eq halong).trans hfile, rest, halong⟩

/-- A mark in memory is found if a listed text reads as the name. -/
theorem mem_marksOn_iff_listed (h : Kept root base names d marks) {n : RepoName}
    (hmem : n.text ∈ marks) : n.text ∈ marksOn d root ↔
      ∃ e ∈ (Listing.ofDisk d root).names, RepoName.sanitize e = n := by
  constructor
  · intro htext
    obtain ⟨e, he, -, htext⟩ := mem_marksOn_iff.1 htext
    exact ⟨e, he, eq_of_text htext⟩
  · rintro ⟨e, he, rfl⟩
    obtain ⟨-, -, hmarked, -⟩ := h.isMarked_of_mem hmem
    exact mem_marksOn_iff.2 ⟨e, he, hmarked, rfl⟩

/-! ### Names that return -/

section Returning

variable (h : Kept root base names d marks) (hraw : ∀ n ∈ names, ∃ raw, n = RepoName.sanitize raw)
variable (hreturns : ∀ n ∈ names, ∀ path, repoPath root n = .ok path → n.Returns)

include hraw hreturns in
theorem eq_of_liesAlong {n n' : RepoName} {rest : List String} (hn : n ∈ names) (hn' : n' ∈ names)
    (halong : LiesAlong root n rest) (halong' : LiesAlong root n' rest) : n' = n := by
  obtain ⟨raw, hraw₁⟩ := hraw n hn
  obtain ⟨raw', hraw₂⟩ := hraw n' hn'
  exact RepoName.eq_of_liesAlong hraw₁ hraw₂ (hreturns n hn _ halong.repoPath_eq).climb_eq
    (hreturns n' hn' _ halong'.repoPath_eq).climb_eq halong halong'

include hraw hreturns in
theorem dirName_eq {n : RepoName} {rest : List String} (hn : n ∈ names)
    (halong : LiesAlong root n rest) : n.dirName = render (walk 0 rest) := by
  obtain ⟨raw, hraw⟩ := hraw n hn
  have hclimb := (hreturns n hn _ halong.repoPath_eq).climb_eq
  obtain ⟨rest', halong', hdir⟩ :=
    RepoName.exists_liesAlong_of_climb hraw hclimb halong.repoPath_eq
  rwa [halong.unique halong'] at hdir

include h hraw hreturns

/-- A listing takes each bare repository that has a name for one. -/
theorem isRepository_of_isBare {a : RepoName} {front : List String} (halong : LiesAlong root a front)
    (hbare : isBare d (below root front) = true) : isRepository d (placeBelow base front) = true := by
  have hhead := kindAt_of_isBare h.ground halong hbare
  obtain ⟨n, hn, rest, hne, halong', hplace, -⟩ := h.head _ (List.prefix_append _ _) hhead
  obtain rfl := placeBelow_inj hplace
  obtain ⟨raw, hraw⟩ := hraw n hn
  exact h.isRepository_of_returns hraw hne (hreturns n hn _ halong'.repoPath_eq) halong' hbare

/-- Where all names return, a mark that is found is in memory, and its repository lies in no other
one. -/
theorem exists_of_mem_marksOn {text : String} (htext : text ∈ marksOn d root) :
    ∃ n ∈ names, ∃ rest, n.text = text ∧ n.text ∈ marks ∧ LiesAlong root n rest ∧
      isBare d (below root rest) = true ∧ ∀ a front, LiesAlong root a front →
        isBare d (below root front) = true → front <+: rest → front = rest := by
  obtain ⟨e, he, hmarked, rfl⟩ := mem_marksOn_iff.1 htext
  obtain ⟨n, hn, rest, hne, halong, rfl, hbare, hfree⟩ := h.exists_of_mem_names he
  rw [RepoName.dropSuffix_shown (dirName_eq hraw hreturns hn halong),
    (hreturns n hn _ halong.repoPath_eq).sanitize_eq] at hmarked ⊢
  obtain ⟨n', hn', halong', hmem⟩ := h.exists_of_isMarked halong hmarked
  obtain rfl := eq_of_liesAlong hraw hreturns hn hn' halong halong'
  refine ⟨n', hn', rest, rfl, hmem, halong, hbare, fun a front hfront hbare' hbegins ↦ ?_⟩
  refine Decidable.byContradiction fun hother ↦ ?_
  have hnil : front ≠ [] := by
    obtain ⟨-, init, last, rfl, -⟩ := hfront.isDirectory
    simp
  have hrepository := h.isRepository_of_isBare hraw hreturns hfront hbare'
  rw [hfree front hbegins hnil hother] at hrepository
  cases hrepository

/-- A mark in memory is found again, if its repository is there and lies in no other one. -/
theorem mem_marksOn {n : RepoName} {rest : List String} (hmem : n.text ∈ marks)
    (halong : LiesAlong root n rest) (hbare : isBare d (below root rest) = true)
    (hfree : ∀ a ∈ names, ∀ front, LiesAlong root a front → isBare d (below root front) = true →
      front <+: rest → front = rest) : n.text ∈ marksOn d root := by
  obtain ⟨hn, hne, hmarked, -⟩ := h.isMarked_of_mem hmem
  have hdir := dirName_eq hraw hreturns hn halong
  have hsanitize := (hreturns n hn _ halong.repoPath_eq).sanitize_eq
  obtain ⟨-, init, last, rfl, hlast⟩ := halong.isDirectory
  have hgit := RepoName.isGit_of_sanitize_eq hsanitize hne hdir hlast
  have hlisted := h.mem_names halong hbare hgit fun a ha front hfront hbare' hbegins ↦ by
    have heq := hfree a ha front hfront hbare' (hbegins.trans (List.prefix_append _ _))
    have hlength := hbegins.length_le
    rw [heq, List.length_append] at hlength
    exact absurd hlength (by simp)
  rw [RepoName.dropSuffix_shown hdir] at hlisted
  refine mem_marksOn_iff.2 ⟨_, hlisted, ?_⟩
  rw [hsanitize]
  exact ⟨hmarked, rfl⟩

/-- Where all names return, the same marks are found exactly if each marked name has a bare
repository that lies in no other one. -/
theorem forall_mem_marksOn_iff : (∀ text, text ∈ marksOn d root ↔ text ∈ marks) ↔
    ∀ n ∈ names, ∀ path, n.text ∈ marks → repoPath root n = .ok path →
      isBare d path.text = true ∧ ∀ a ∈ names, ∀ p, repoPath root a = .ok p →
        isBare d p.text = true → strictlyBelow p.components path.components = false := by
  constructor
  · intro hsame n hn path hmem hpath
    obtain ⟨n', hn', rest, htext, -, halong, hbare, hfree⟩ :=
      h.exists_of_mem_marksOn hraw hreturns ((hsame _).2 hmem)
    obtain rfl := eq_of_text htext
    rw [← halong.text_eq hpath] at hbare
    refine ⟨hbare, fun a ha p hp hbare' ↦ ?_⟩
    obtain ⟨raw, hraw⟩ := hraw a ha
    obtain ⟨front, hfront, -⟩ :=
      RepoName.exists_liesAlong_of_climb hraw (hreturns a ha p hp).climb_eq hp
    rw [hfront.text_eq hp] at hbare'
    refine Bool.eq_false_iff.2 fun hbelow ↦ ?_
    obtain ⟨hbegins, hne⟩ := (hfront.strictlyBelow_iff halong hp hpath).1 hbelow
    exact hne (hfree a front hfront hbare' hbegins).symm
  · intro houter text
    constructor
    · intro htext
      obtain ⟨n, -, -, rfl, hmem, -⟩ := h.exists_of_mem_marksOn hraw hreturns htext
      exact hmem
    · intro htext
      obtain ⟨n, hn, rest, rfl, -, halong, -⟩ := h.marked text htext
      obtain ⟨hbare, hfree⟩ := houter n hn _ htext halong.repoPath_eq
      refine h.mem_marksOn hraw hreturns htext halong hbare fun a ha front hfront hbare' hbegins ↦ ?_
      refine Decidable.byContradiction fun hne ↦ ?_
      have hbelow := (hfront.strictlyBelow_iff halong hfront.repoPath_eq halong.repoPath_eq).2
        ⟨hbegins, Ne.symm hne⟩
      rw [hfree a ha _ hfront.repoPath_eq hbare'] at hbelow
      cases hbelow

/-- Where all names return, it is enough to compare the marks of names. -/
theorem forall_mem_marksOn_of_names
    (hsame : ∀ raw, (RepoName.sanitize raw).isEmpty = false →
      ((RepoName.sanitize raw).text ∈ marksOn d root ↔ (RepoName.sanitize raw).text ∈ marks))
    (text : String) : text ∈ marksOn d root ↔ text ∈ marks := by
  constructor
  · intro htext
    obtain ⟨n, -, -, rfl, hmem, -⟩ := h.exists_of_mem_marksOn hraw hreturns htext
    exact hmem
  · intro htext
    obtain ⟨n, hn, rest, rfl, hne, -⟩ := h.marked text htext
    obtain ⟨raw, rfl⟩ := hraw n hn
    exact (hsame raw hne).2 htext

end Returning

/-! ### One name -/

section Single

variable {n : RepoName} {raw : String} {rest : List String}
variable (h : Kept root base [n] d marks) (hn : n = RepoName.sanitize raw)
variable (hroot : ∃ c ∈ normalize root, c ≠ .parent) (hmem : n.text ∈ marks)
variable (halong : LiesAlong root n rest)

include h hn

include hroot hmem halong in
/-- The mark of a name that was created alone is found again exactly if its repository is there and
the name returns, and then it is all that is found. -/
theorem mem_marksOn_single_iff : n.text ∈ marksOn d root ↔
    isBare d (below root rest) = true ∧ n.Returns := by
  constructor
  · intro htext
    obtain ⟨e, he, hmarked, htext⟩ := mem_marksOn_iff.1 htext
    obtain ⟨n', hn', rest', -, halong', rfl, hbare, -⟩ := h.exists_of_mem_names he
    obtain rfl := List.mem_singleton.1 hn'
    obtain rfl := halong.unique halong'
    exact ⟨hbare, RepoName.returns_of_listed hn halong.repoPath_eq (.inl hroot) halong
      (eq_of_text htext)⟩
  · rintro ⟨hbare, hreturns⟩
    refine h.mem_marksOn (by simpa using ⟨raw, hn⟩) (by simp [hreturns]) hmem halong hbare ?_
    intro a ha front hfront _ _
    obtain rfl := List.mem_singleton.1 ha
    exact halong.unique hfront

theorem eq_of_mem_marksOn_single (hreturns : n.Returns) {text : String}
    (htext : text ∈ marksOn d root) : text = n.text := by
  obtain ⟨n', hn', -, rfl, -⟩ :=
    h.exists_of_mem_marksOn (by simpa using ⟨raw, hn⟩) (by simp [hreturns]) htext
  rw [List.mem_singleton.1 hn']

include hroot hmem halong in
/-- Then the same names are marked exactly if it is. -/
theorem forall_names_single_iff : (∀ raw, (RepoName.sanitize raw).isEmpty = false →
    ((RepoName.sanitize raw).text ∈ marksOn d root ↔ (RepoName.sanitize raw).text ∈ marks)) ↔
      n.text ∈ marksOn d root := by
  constructor
  · intro hsame
    obtain ⟨-, hne, -⟩ := h.isMarked_of_mem hmem
    subst hn
    exact (hsame raw hne).2 hmem
  · intro hfound raw' _
    obtain ⟨-, hreturns⟩ := (h.mem_marksOn_single_iff hn hroot hmem halong).1 hfound
    generalize RepoName.sanitize raw' = n'
    constructor
    · intro htext
      rw [h.eq_of_mem_marksOn_single hn hreturns htext]
      exact hmem
    · intro htext
      obtain ⟨hn', -⟩ := h.isMarked_of_mem htext
      rwa [List.mem_singleton.1 hn']

end Single

end Kept

end Store

namespace Machine

variable {σ : Type} {m : Machine σ} {root : String} {base : List FileName}

/-! ## Creations one after the other -/

/-- Creates repositories for raw arguments, one after the other. -/
def createAll (m : Machine σ) (s : Store) : List (String × Bool) → σ → σ
  | [], x => x
  | (raw, isPrivate) :: calls, x =>
    m.createAll s calls (m.run (s.create (RepoName.sanitize raw) isPrivate) x).2

section Creations

variable {s : Store} {names : List RepoName}
variable (hlies : ∀ n ∈ names, ∀ path, repoPath s.root n = .ok path →
  ∃ rest, LiesAlong s.root n rest)

include hlies

/-- A creation of one of the names keeps what holds of a store that began empty. -/
theorem IsLawful.kept_create (hm : m.IsLawful) {n : RepoName} {raw : String} (isPrivate : Bool)
    {x : σ} (hn : n = RepoName.sanitize raw) (hmem : n ∈ names)
    (h : Store.Kept s.root base names (m.disk x) (m.marks x)) :
    Store.Kept s.root base names (m.disk (m.run (s.create n isPrivate) x).2)
      (m.marks (m.run (s.create n isPrivate) x).2) := by
  cases hrun : m.run (s.create n isPrivate) x with
  | mk r x' =>
    rcases (hm.create h.ground.sound hn hrun).effect h.ground with
      ⟨-, hdisk, hmarks⟩ | ⟨hne, ⟨path, hpath⟩, heffect⟩
    · rw [hdisk, hmarks]
      exact h
    · obtain ⟨rest, halong⟩ := hlies n hmem path hpath
      exact h.effect hmem hne halong (heffect rest halong)

theorem IsLawful.kept_createAll (hm : m.IsLawful) {calls : List (String × Bool)}
    (hcalls : ∀ c ∈ calls, RepoName.sanitize c.1 ∈ names) {x : σ}
    (h : Store.Kept s.root base names (m.disk x) (m.marks x)) :
    Store.Kept s.root base names (m.disk (m.createAll s calls x))
      (m.marks (m.createAll s calls x)) := by
  induction calls generalizing x with
  | nil => exact h
  | cons call calls ih =>
    obtain ⟨raw, isPrivate⟩ := call
    have hstep := hm.kept_create hlies isPrivate rfl (hcalls _ List.mem_cons_self) h
    exact ih (fun c hc ↦ hcalls c (List.mem_cons_of_mem _ hc)) hstep

end Creations

section Reopened

variable {x : σ} {settings : AccessSettings} {policy : Policy}
variable (hm : m.IsLawful) (hpolicy : Policy.ofSettings settings = .ok policy)
variable (hground : (m.disk x).IsGround root base) (hleads : (m.disk x).LeadsTo true root base)
variable (hempty : Store.IsEmptyAt (m.disk x) base)

include hm hpolicy hground hleads hempty

/-- A store that was opened over an empty root began empty. -/
theorem kept_opened (names : List RepoName) :
    Store.Kept root base names (m.disk (m.openStore root settings x).2)
      (m.marks (m.openStore root settings x).2) := by
  obtain ⟨-, hdisk, hmarks⟩ := hm.openStore hpolicy x
  have hnone := Store.Kept.eq_nil_of_names (.of_isEmptyAt hground hleads hempty [])
  rw [hdisk, hmarks, hnone]
  exact .of_isEmptyAt hground hleads hempty names

section Single

variable {n : RepoName} {raw : String} {path : RepoPath} (hn : n = RepoName.sanitize raw)
variable (hpath : repoPath root n = .ok path) (hroot : ∃ c ∈ normalize root, c ≠ .parent)

include hn hpath hroot

/-- So did one in which a single name was created. -/
theorem kept_created (isPrivate : Bool) :
    let created := (m.run (Store.create ⟨root, policy⟩ n isPrivate)
      (m.openStore root settings x).2).2
    Store.Kept root base [n] (m.disk created) (m.marks created) := by
  have hlies : ∀ a ∈ [n], ∀ path, repoPath root a = .ok path → ∃ rest, LiesAlong root a rest := by
    intro a ha path hpath
    obtain rfl := List.mem_singleton.1 ha
    exact exists_liesAlong_of_root hroot hn hpath
  exact hm.kept_create (s := ⟨root, policy⟩) hlies isPrivate hn (List.mem_singleton_self n)
    (kept_opened hm hpolicy hground hleads hempty [n])

/-- The mark of a name that does not return is not found again. -/
theorem notMem_marks_of_not_returns (hreturns : ¬ n.Returns) (isPrivate : Bool) :
    let created := (m.run (Store.create ⟨root, policy⟩ n isPrivate)
      (m.openStore root settings x).2).2
    n.text ∈ m.marks created → n.text ∉ m.marks (m.openStore root settings created).2 := by
  intro created hmem hfound
  obtain ⟨rest, halong⟩ := exists_liesAlong_of_root hroot hn hpath
  have hkept := kept_created hm hpolicy hground hleads hempty hn hpath hroot isPrivate
  obtain ⟨-, -, hmarks⟩ := hm.openStore hpolicy created
  rw [hmarks] at hfound
  exact hreturns ((hkept.mem_marksOn_single_iff hn hroot hmem halong).1 hfound).2

end Single

/-- **Marks after a restart.**  A store was opened over an empty root and repositories were created
in it, with any results.  When it is opened again, everybody has the same level on everything under
every configuration exactly if the same names are marked.

If all names that were accepted return, that is so exactly if each marked name has a bare repository
that lies in no other one that was created.  Whatever the names, below a root that resolves to more
than steps up, a name is marked again exactly if a listed text reads as it, and nothing is marked
but paths that were; and a single name keeps its mark exactly if it has a bare repository and
returns. -/
theorem reopened_levels_agree_iff (calls : List (String × Bool)) :
    let store : Store := ⟨root, policy⟩
    let opened := m.openStore root settings x
    let before := m.createAll store calls opened.2
    let reopened := m.openStore root settings before
    let names := calls.map fun c ↦ RepoName.sanitize c.1
    opened.1 = .ok store ∧ reopened.1 = .ok store ∧
    (m.SameLevels root before reopened.2 ↔ ∀ raw, (RepoName.sanitize raw).isEmpty = false →
      ((RepoName.sanitize raw).text ∈ m.marks reopened.2 ↔
        (RepoName.sanitize raw).text ∈ m.marks before)) ∧
    ((∀ n ∈ names, ∀ path, repoPath root n = .ok path → n.Returns) →
      (m.SameLevels root before reopened.2 ↔
        ∀ text, text ∈ m.marks reopened.2 ↔ text ∈ m.marks before) ∧
      (m.SameLevels root before reopened.2 ↔ ∀ n ∈ names, ∀ path, n.text ∈ m.marks before →
        repoPath root n = .ok path → Store.isBare (m.disk before) path.text = true ∧
          ∀ a ∈ names, ∀ p, repoPath root a = .ok p → Store.isBare (m.disk before) p.text = true →
            strictlyBelow p.components path.components = false)) ∧
    ((∃ c ∈ normalize root, c ≠ .parent) →
      (∀ n, n.text ∈ m.marks before → (n.text ∈ m.marks reopened.2 ↔
        ∃ e ∈ (Listing.ofDisk (m.disk before) root).names, RepoName.sanitize e = n)) ∧
      (∀ text ∈ m.marks reopened.2, ∃ n ∈ names, n.text ∈ m.marks before ∧
        repoPath root n = repoPath root ⟨text⟩) ∧
      ∀ n ∈ names, ∀ path, (∀ a ∈ names, a = n) → n.text ∈ m.marks before →
        repoPath root n = .ok path → (m.SameLevels root before reopened.2 ↔
          Store.isBare (m.disk before) path.text = true ∧ n.Returns)) := by
  intro store opened before reopened names
  have hstart := kept_opened hm hpolicy hground hleads hempty
  obtain ⟨hopened, -, -⟩ := hm.openStore hpolicy x
  obtain ⟨hreopened, hdisk, hmarks⟩ := hm.openStore hpolicy before
  have hraw : ∀ n ∈ names, ∃ raw, n = RepoName.sanitize raw := by
    intro n hn
    obtain ⟨c, -, rfl⟩ := List.mem_map.1 hn
    exact ⟨c.1, rfl⟩
  have hlevels := hm.sameLevels_iff root before reopened.2
  refine ⟨hopened, hreopened, hlevels, fun hreturns ↦ ?_, fun hroot ↦ ?_⟩
  · have hlies : ∀ n ∈ names, ∀ path, repoPath store.root n = .ok path →
        ∃ rest, LiesAlong store.root n rest := by
      intro n hn path hpath
      obtain ⟨raw, hraw⟩ := hraw n hn
      obtain ⟨rest, halong, -⟩ :=
        RepoName.exists_liesAlong_of_climb hraw (hreturns n hn path hpath).climb_eq hpath
      exact ⟨rest, halong⟩
    have hkept := hm.kept_createAll hlies (fun c hc ↦ List.mem_map_of_mem hc) (hstart names)
    have hall : m.SameLevels root before reopened.2 ↔
        ∀ text, text ∈ m.marks reopened.2 ↔ text ∈ m.marks before := by
      rw [hlevels, hmarks]
      exact ⟨hkept.forall_mem_marksOn_of_names hraw hreturns, fun hsame raw _ ↦ hsame _⟩
    refine ⟨hall, hall.trans ?_⟩
    rw [hmarks]
    exact hkept.forall_mem_marksOn_iff hraw hreturns
  · have hlies : ∀ n ∈ names, ∀ path, repoPath store.root n = .ok path →
        ∃ rest, LiesAlong store.root n rest := by
      intro n hn path hpath
      obtain ⟨raw, hraw⟩ := hraw n hn
      exact exists_liesAlong_of_root hroot hraw hpath
    have hall := hm.kept_createAll hlies (fun c hc ↦ List.mem_map_of_mem hc) (hstart names)
    rw [hlevels, hmarks]
    refine ⟨fun n hmem ↦ hall.mem_marksOn_iff_listed hmem,
      fun text htext ↦ hall.exists_same_path hroot htext, fun n hn path honly hmem hpath ↦ ?_⟩
    have hcalls : ∀ c ∈ calls, RepoName.sanitize c.1 ∈ [n] := fun c hc ↦
      List.mem_singleton.2 (honly _ (List.mem_map_of_mem hc))
    have halongs : ∀ a ∈ [n], ∀ path, repoPath store.root a = .ok path →
        ∃ rest, LiesAlong store.root a rest := fun a ha ↦ hlies a (List.mem_singleton.1 ha ▸ hn)
    have hkept := hm.kept_createAll halongs hcalls (hstart [n])
    obtain ⟨rest, halong⟩ := hlies n hn path hpath
    obtain ⟨raw, hraw⟩ := hraw n hn
    rw [halong.text_eq hpath, ← hkept.mem_marksOn_single_iff hraw hroot hmem halong]
    exact hkept.forall_names_single_iff hraw hroot hmem halong

end Reopened

end Machine

namespace Scripted

open Host

theorem isEmptyAt_fresh : Store.IsEmptyAt fresh.disk shelfPlace := ⟨rfl, fun _ ↦ kindAt_fresh⟩

/-- A private repository beside a public one in another directory stays private. -/
theorem private_repository_stays_private :
    let before := machine.createAll freshStore [("x", true), ("team/y", false)]
      (machine.openStore "/srv/repos" {} fresh).2
    let reopened := (machine.openStore "/srv/repos" {} before).2
    machine.SameLevels "/srv/repos" before reopened ∧
      machine.level freshStore (RepoName.sanitize "x") none reopened = .noAccess := by
  have hpolicy : Policy.ofSettings {} = .ok freshStore.policy := rfl
  obtain ⟨-, -, -, hreturn, -⟩ := Machine.reopened_levels_agree_iff (x := fresh) isLawful_machine
    hpolicy isGround_fresh leadsTo_fresh isEmptyAt_fresh [("x", true), ("team/y", false)]
  have hnames : ∀ n, n ∈ [("x", true), ("team/y", false)].map (fun c ↦ RepoName.sanitize c.1) ↔
      n = RepoName.sanitize "x" ∨ n = RepoName.sanitize "team/y" := by simp
  have hx : repoPath "/srv/repos" (RepoName.sanitize "x") =
      .ok ⟨[.root, .normal "srv", .normal "repos", .normal "x.git"]⟩ := rfl
  rw [openStore_fresh] at hreturn ⊢
  intro before reopened
  have hbefore : machine.level freshStore (RepoName.sanitize "x") none before = .noAccess ∧
      (RepoName.sanitize "team/y").text ∉ machine.marks before ∧
      Store.isBare (machine.disk before) "/srv/repos/x.git" = true := by decide +kernel
  have hsame : machine.SameLevels "/srv/repos" before reopened := by
    refine (hreturn ?_).2.2 ?_
    · intro n hn path _
      rcases (hnames n).1 hn with rfl | rfl <;> decide +kernel
    · intro n hn path hmem hpath
      rcases (hnames n).1 hn with rfl | rfl
      · cases hpath.symm.trans hx
        refine ⟨hbefore.2.2, fun a ha p hp _ ↦ ?_⟩
        rcases (hnames a).1 ha with rfl | rfl
        · cases hp.symm.trans hx
          decide
        · cases hp
          decide
      · exact absurd hmem hbefore.2.1
  exact ⟨hsame, (hsame {} _ hpolicy "x" none).trans hbefore.1⟩

/-- The directory of a private repository `x.git` is listed under a text that reads as `x`, so the
repository is public after a restart. -/
theorem private_repository_published :
    let name := RepoName.sanitize "x.git.git"
    let opened := machine.openStore "/srv/repos" {} fresh
    let created := machine.run (freshStore.create name true) opened.2
    let reopened := machine.openStore "/srv/repos" {} created.2
    opened.1 = .ok freshStore ∧ created.1 = .ok ⟨name, "/srv/repos/x.git.git", true⟩ ∧
      machine.level freshStore name none created.2 = .noAccess ∧
      reopened.1 = .ok freshStore ∧ machine.level freshStore name none reopened.2 = .readOnly := by
  have hpolicy : Policy.ofSettings {} = .ok freshStore.policy := rfl
  have hroot : ∃ c ∈ normalize "/srv/repos", c ≠ .parent := ⟨.root, by decide, by decide⟩
  have hreturns : ¬ (RepoName.sanitize "x.git.git").Returns := by decide +kernel
  have hne : (RepoName.sanitize "x.git.git").isEmpty = false := by decide +kernel
  have hpath : repoPath "/srv/repos" (RepoName.sanitize "x.git.git") =
      .ok ⟨[.root, .normal "srv", .normal "repos", .normal "x.git.git"]⟩ := by decide +kernel
  have hcreated : (machine.run (freshStore.create (RepoName.sanitize "x.git.git") true) fresh).1 =
      .ok ⟨RepoName.sanitize "x.git.git", "/srv/repos/x.git.git", true⟩ := by decide +kernel
  have hmem : (RepoName.sanitize "x.git.git").text ∈ machine.marks
      (machine.run (freshStore.create (RepoName.sanitize "x.git.git") true) fresh).2 := by
    decide +kernel
  generalize hname : RepoName.sanitize "x.git.git" = name at *
  rw [openStore_fresh]
  have hlost := Machine.notMem_marks_of_not_returns (x := fresh) isLawful_machine hpolicy
    isGround_fresh leadsTo_fresh isEmptyAt_fresh hname.symm hpath hroot hreturns true
  rw [openStore_fresh] at hlost
  obtain ⟨hopen, -, -⟩ := isLawful_machine.openStore hpolicy
    (machine.run (freshStore.create name true) fresh).2
  refine ⟨rfl, hcreated, ?_, hopen, ?_⟩
  · rw [isLawful_machine.level]
    exact (Policy.level_default hne).trans (if_pos hmem)
  · rw [isLawful_machine.level]
    exact (Policy.level_default hne).trans (if_neg (hlost hmem))

end Scripted

end GitGateway
