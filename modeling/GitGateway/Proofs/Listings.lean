import GitGateway.Proofs.Gathering
import GitGateway.Proofs.Grounds
import GitGateway.Store.Listing

/-!
# What a listing finds

A listing goes down from its root and stops at the first repository on each way, so what it finds
are the repositories that lie in no other one: everything found is such a repository
(`exists_isRepository_of_mem`), and each such repository that readable directories lead to is found
(`mem_names_ofDisk`).  Each is named by its path below the root, without the suffix.
-/

namespace GitGateway

open Disk

/-- One step down to what is no link reaches that. -/
theorem Disk.Reaches.eq_concat {d : Disk} {last : Bool} {links : Nat} {here place : List FileName}
    {name : FileName} (h : d.Reaches last links here [.down name] place)
    (hplain : ∀ target, d.kindAt (here.reverse ++ [name]) ≠ some (.link target)) :
    place = here.reverse ++ [name] := by
  cases h with
  | down hsize hdir h =>
    cases h
    exact List.reverse_cons
  | through hsize hlink => exact absurd hlink (hplain _)
  | stop => rfl

/-- What a step down reaches a file from is a directory. -/
theorem Disk.isDirAt_of_reaches_file {d : Disk} {links : Nat} {place file : List FileName}
    {name : FileName}
    (h : d.Reaches true links place.reverse [.down name] file) (hfile : d.kindAt file = some .file) :
    d.IsDirAt place := by
  rw [← List.reverse_reverse place]
  cases h with
  | down hsize hdir h => exact exists_dir_of_kindAt hdir
  | through hsize hlink => exact exists_dir_of_kindAt hlink
  | stop => exact exists_dir_of_kindAt hfile

namespace Listing

variable {d : Disk} {root e : String} {place below : List FileName} {name : FileName}

/-- Whether a listing takes what lies at a place for a repository. -/
def isRepository (d : Disk) (place : List FileName) : Bool :=
  place.getLast?.any FileName.isGit && holdsHead d place.reverse

theorem isRepository_concat (d : Disk) (place : List FileName) (name : FileName) :
    isRepository d (place ++ [name]) = (name.isGit && holdsHead d (name :: place.reverse)) := by
  simp [isRepository]

/-- A directory holds `HEAD` if that name leads to a file from there. -/
theorem holdsHead_iff_reaches : holdsHead d place.reverse = true ↔ ∃ file,
    d.Reaches true maxLinks place.reverse [.down (.text "HEAD")] file ∧
      d.kindAt file = some .file := by
  rw [holdsHead]
  constructor
  · intro h
    rcases follow_cases d true maxLinks place.reverse [.down (.text "HEAD")] with
      ⟨file, hto, hreaches⟩ | ⟨cause, hrefused⟩
    · refine ⟨file, hreaches, ?_⟩
      cases hlead : d.follow true maxLinks place.reverse [.down (.text "HEAD")] with
      | entry there e =>
        rw [hlead] at h hto
        rw [kindAt_of_at? hto.2]
        cases e with
        | file => rfl
        | link | dir => cases h
      | missing | refused =>
        rw [hlead] at h
        cases h
    · rw [hrefused] at h
      cases h
  · rintro ⟨file, hreaches, hfile⟩
    have hdir := isDirAt_of_reaches_file hreaches hfile
    have hto := hreaches.isTo (by rwa [List.reverse_reverse])
    cases hlead : d.follow true maxLinks place.reverse [.down (.text "HEAD")] with
    | entry there e =>
      rw [hlead] at hto
      have hkind := (kindAt_of_at? hto.2).symm.trans hfile
      cases e with
      | file => rfl
      | link | dir => cases hkind
    | missing dir name =>
      rw [hlead] at hto
      cases hto.2.symm.trans hfile
    | refused =>
      rw [hlead] at hto
      exact hto.elim

/-- Where there is no link, a directory holds `HEAD` if a file of that name lies in it. -/
theorem holdsHead_iff
    (hplain : ∀ target, d.kindAt (place ++ [.text "HEAD"]) ≠ some (.link target)) :
    holdsHead d place.reverse = true ↔ d.kindAt (place ++ [.text "HEAD"]) = some .file := by
  have hsize : (FileName.text "HEAD").size ≤ maxName := by decide +kernel
  rw [holdsHead_iff_reaches]
  constructor
  · rintro ⟨file, hreaches, hfile⟩
    obtain rfl := hreaches.eq_concat (by rwa [List.reverse_reverse])
    rwa [List.reverse_reverse] at hfile
  · intro hfile
    rw [← List.reverse_reverse place] at hfile
    refine ⟨_, .stop hsize ?_, hfile⟩
    rw [hfile]
    trivial

/-! ## Below a directory -/

theorem names_append (a b : Listing) : (a ++ b).names = a.names ++ b.names := rfl

/-- A listing gathers the directories that are repositories at their place, and looks into all that
can be read. -/
theorem names_ofEntries_append (d : Disk) (root : String) (place below names : List FileName)
    (es : List (FileName × Entry)) :
    (ofEntries d root (names ++ place) (names ++ below) es).names =
      Entry.gather (fun names ↦ isRepository d (place.reverse ++ names.reverse)) (fun _ ↦ true)
        (fun names ↦ dropSuffix (shown (names ++ below))) names es := by
  induction names, es using Entry.gather.induct with
  | case1 names => simp [ofEntries, Entry.gather]
  | case2 names name readable sub rest ihsub ihrest =>
    have hrepository : isRepository d (place.reverse ++ (name :: names).reverse) =
        (name.isGit && holdsHead d (name :: (names ++ place))) := by
      rw [List.reverse_cons, ← List.append_assoc, isRepository_concat]
      simp
    rw [ofEntries, names_append, ihrest, Entry.gather_cons, Entry.gatherDir, hrepository, ← ihsub,
      Bool.and_true]
    congr 1
    split
    · rfl
    · split <;> rfl
  | case3 names entry rest hnot ih =>
    rw [Entry.gather_cons_of_ne hnot, ofEntries, ih]
    exact hnot

theorem names_ofEntries (d : Disk) (root : String) (place below : List FileName)
    (es : List (FileName × Entry)) : (ofEntries d root place below es).names =
      Entry.gather (fun names ↦ isRepository d (place.reverse ++ names.reverse)) (fun _ ↦ true)
        (fun names ↦ dropSuffix (shown (names ++ below))) [] es :=
  names_ofEntries_append d root place below [] es

/-- Everything that is found is a repository that lies in no other one. -/
theorem exists_isRepository {es : List (FileName × Entry)}
    (h : e ∈ (ofEntries d root place below es).names) : ∃ path,
      e = dropSuffix (shown (path.reverse ++ below)) ∧ path ≠ [] ∧
      isRepository d (place.reverse ++ path) = true ∧
      ∀ front, front <+: path → front ≠ [] → front ≠ path →
        isRepository d (place.reverse ++ front) = false := by
  rw [names_ofEntries] at h
  obtain ⟨names, hnames, rfl⟩ := Entry.mem_gather_iff.1 h
  obtain ⟨path, rfl, hne, hpath, hway⟩ := hnames.exists_path
  simp only [List.append_nil, List.reverse_reverse] at hpath hway ⊢
  exact ⟨path, rfl, hne, hpath, hway⟩

/-- A listing finds a repository at a place if every directory between the root and the place can be
read and is none. -/
structure IsFound (d : Disk) (base path : List FileName) : Prop where
  ne_nil : path ≠ []
  dir : d.IsDirAt (base ++ path)
  repository : isRepository d (base ++ path) = true
  way : ∀ front, front <+: path → front ≠ [] → front ≠ path →
    d.kindAt (base ++ front) = some (.dir true) ∧ isRepository d (base ++ front) = false

/-- What is found in this way is among the findings. -/
theorem mem_names_of_isFound (hat : d.top.at? place.reverse = some (.dir r es))
    (h : IsFound d place.reverse path) :
    dropSuffix (shown (path.reverse ++ below)) ∈ (ofEntries d root place below es).names := by
  have hkind : ∀ rest, d.kindAt (place.reverse ++ rest) = (Entry.dir r es).kindAt rest := by
    intro rest
    rw [kindAt, Entry.kindAt_append, hat, Option.bind_some]
  have hleads : Entry.Leads (fun names ↦ isRepository d (place.reverse ++ names.reverse))
      (fun _ ↦ true) [] (.dir r es) path := by
    refine ⟨h.ne_nil, ?_, by simpa using h.repository, fun front hfront hne hother ↦ ?_⟩
    · obtain ⟨readable, hdir⟩ := h.dir
      exact ⟨readable, by rwa [hkind] at hdir⟩
    · obtain ⟨hdir, hnot⟩ := h.way front hfront hne hother
      rw [hkind] at hdir
      exact ⟨hdir, rfl, by simpa using hnot⟩
  rw [names_ofEntries]
  exact Entry.mem_gather_iff.2 ⟨_, hleads.gathers, by simp⟩

/-! ## Below the root -/

variable {base : List FileName}

theorem mem_names_ofDisk_iff : e ∈ (ofDisk d root).names ↔ e ∈ (find d root).names :=
  List.mem_mergeSort

/-- A root that leads to a directory is listed. -/
theorem find_eq {es : List (FileName × Entry)} (hsound : d.IsSound)
    (hroot : d.LeadsTo true root base) (hat : d.top.at? base = some (.dir true es)) :
    find d root = ofEntries d root base.reverse [] es := by
  have hto := hroot.isTo hsound
  unfold find
  cases hlead : d.lead true root with
  | entry place c =>
    rw [hlead] at hto
    obtain ⟨rfl, hat'⟩ := hto
    cases hat.symm.trans hat'
    rfl
  | missing dir name =>
    rw [hlead] at hto
    cases (kindAt_of_at? hat).symm.trans hto.2
  | refused cause =>
    rw [hlead] at hto
    exact hto.elim

section Root

variable (hsound : d.IsSound) (hroot : d.LeadsTo true root base)
variable (hbase : d.kindAt base = some (.dir true))

include hsound hroot hbase

/-- Everything that is found below a root is a repository that lies in no other one. -/
theorem exists_isRepository_of_mem (h : e ∈ (ofDisk d root).names) : ∃ path,
    e = dropSuffix (shown path.reverse) ∧ path ≠ [] ∧ isRepository d (base ++ path) = true ∧
      ∀ front, front <+: path → front ≠ [] → front ≠ path →
        isRepository d (base ++ front) = false := by
  obtain ⟨es, hat⟩ := kindAt_eq_dir_iff.1 hbase
  rw [mem_names_ofDisk_iff, find_eq hsound hroot hat] at h
  obtain ⟨path, rfl, hne, hpath, hfree⟩ := exists_isRepository h
  rw [List.reverse_reverse] at hpath
  simp only [List.reverse_reverse] at hfree
  exact ⟨path, by rw [List.append_nil], hne, hpath, hfree⟩

/-- A repository that lies in no other one is found, if all directories can be read. -/
theorem mem_names_ofDisk {path : List FileName} (hdir : d.IsDirAt (base ++ (path ++ [name])))
    (hreadable : ∀ rest r, d.kindAt (base ++ rest) = some (.dir r) → r = true)
    (hpath : isRepository d (base ++ (path ++ [name])) = true)
    (hfree : ∀ front, front <+: path → front ≠ [] → isRepository d (base ++ front) = false) :
    dropSuffix (shown (path ++ [name]).reverse) ∈ (ofDisk d root).names := by
  obtain ⟨es, hat⟩ := kindAt_eq_dir_iff.1 hbase
  rw [mem_names_ofDisk_iff, find_eq hsound hroot hat]
  have hfound : IsFound d base.reverse.reverse (path ++ [name]) := by
    rw [List.reverse_reverse]
    refine ⟨by simp, hdir, hpath, fun front hfront hne hother ↦ ?_⟩
    have hshort : front <+: path := (List.prefix_concat_iff.1 hfront).resolve_left hother
    obtain ⟨rest, rfl⟩ := hshort
    rw [List.append_assoc, ← List.append_assoc base] at hdir
    obtain ⟨r, hr⟩ := hdir.of_append
    obtain rfl := hreadable front r hr
    exact ⟨hr, hfree front (List.prefix_append _ _) hne⟩
  rw [← List.append_nil (path ++ [name]).reverse]
  exact mem_names_of_isFound (by rwa [List.reverse_reverse]) hfound

end Root

/-! ## Each once -/

/-- Where repositories are told apart by their texts, each is found once. -/
theorem nodup_names_ofEntries {es : List (FileName × Entry)} (hes : Entry.haveOwnNames es = true)
    (hinj : ∀ path path', isRepository d (place.reverse ++ path) = true →
      isRepository d (place.reverse ++ path') = true →
      dropSuffix (shown (path.reverse ++ below)) = dropSuffix (shown (path'.reverse ++ below)) →
        path = path') : (ofEntries d root place below es).names.Nodup := by
  rw [names_ofEntries]
  refine Entry.nodup_gather hes fun names names' h h' htext ↦ ?_
  obtain ⟨path, rfl, -, hpath, -⟩ := h.exists_path
  obtain ⟨path', rfl, -, hpath', -⟩ := h'.exists_path
  simp only [List.append_nil, List.reverse_reverse] at hpath hpath' htext ⊢
  rw [hinj path path' hpath hpath' htext]

/-- Below the root as well. -/
theorem nodup_names_ofDisk {base : List FileName} (hsound : d.IsSound)
    (hroot : d.LeadsTo true root base) (hbase : d.kindAt base = some (.dir true))
    (hown : d.top.hasOwnNames = true)
    (hinj : ∀ path path', isRepository d (base ++ path) = true →
      isRepository d (base ++ path') = true →
      dropSuffix (shown path.reverse) = dropSuffix (shown path'.reverse) → path = path') :
    (ofDisk d root).names.Nodup := by
  obtain ⟨es, hat⟩ := kindAt_eq_dir_iff.1 hbase
  rw [ofDisk, (List.mergeSort_perm ..).nodup_iff, find_eq hsound hroot hat]
  have hes := Entry.hasOwnNames_at? hown hat
  rw [Entry.hasOwnNames] at hes
  refine nodup_names_ofEntries hes ?_
  simpa using hinj

end Listing

end GitGateway
