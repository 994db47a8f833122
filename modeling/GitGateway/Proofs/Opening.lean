import GitGateway.Proofs.Confinement
import GitGateway.Proofs.Disks
import GitGateway.Proofs.Levels
import GitGateway.Proofs.Transcripts
import GitGateway.Store

/-!
# What opening a store finds

A store that is opened reads its settings and looks for private **marks** on the disk.  On a host
that shows one disk all along, the marks it finds are those names of its listing whose directory
holds the marker file (`ends_openAt_iff`).  A name without a directory is not among them
(`notMem_marksOn`), and a name that is not among them has the level that the settings alone give it
(`Policy.level_of_notMem`).
-/

namespace GitGateway

open Program

/-- What a host answers that shows one disk and one list of marked names, whatever else happens on
it. -/
def Showing (d : Disk) (marks : List String) : (q : HostAsk) → q.Answer → Prop
  | .disk => fun shown ↦ shown = d
  | .marks => fun names ↦ names = marks
  | _ => fun _ ↦ True

namespace Store

variable {d : Disk} {marks : List String} {root : String}

/-- Whether the directory of a name holds the marker file. -/
def isMarked (d : Disk) (root : String) (name : RepoName) : Bool :=
  match Confine.repoPath root name with
  | .ok path => d.isFile (Path.join path.text marker)
  | .error _ => false

/-- The marked names among those of a listing. -/
def marksAmong (d : Disk) (root : String) (entries : List String) : List String :=
  ((entries.map RepoName.sanitize).filter (isMarked d root)).map RepoName.text

/-- The names that are marked on a disk. -/
def marksOn (d : Disk) (root : String) : List String :=
  marksAmong d root (Listing.ofDisk d root).names

/-- Reports always come to an end. -/
theorem ends_report (events : List LogEvent) : Ends (Showing d marks) (report events) () := by
  induction events with
  | nil => exact ends_done_iff.2 rfl
  | cons e events ih => exact ends_ask_iff.2 ⟨(), trivial, ih⟩

theorem ends_listing_iff {names : List String} :
    Ends (Showing d marks) (listing root) names ↔ names = (Listing.ofDisk d root).names := by
  have hlisting : listing root = Program.ask .disk fun d ↦
      (report (Listing.ofDisk d root).events).bind fun _ ↦
        .done (Listing.ofDisk d root).names := rfl
  simp only [hlisting, ends_ask_iff, ends_bind_iff, ends_done_iff]
  constructor
  · rintro ⟨_, rfl, _, -, rfl⟩
    rfl
  · rintro rfl
    exact ⟨d, rfl, (), ends_report _, rfl⟩

theorem ends_confine_iff {name : RepoName} {r : Except BackendError RepoPath} :
    Ends (Showing d marks) (confine root name) r ↔
      r = (Confine.repoPath root name).mapError fun e ↦ .other (.ofText e.message) := by
  unfold confine
  cases Confine.repoPath root name with
  | ok path => exact ends_done_iff
  | error e =>
    refine ends_ask_iff.trans ⟨?_, ?_⟩
    · rintro ⟨_, -, h⟩
      exact ends_done_iff.1 h
    · exact fun h ↦ ⟨(), trivial, ends_done_iff.2 h⟩

theorem ends_marked_iff {entries names : List String} :
    Ends (Showing d marks) (marked root entries) names ↔ names = marksAmong d root entries := by
  induction entries generalizing names with
  | nil => exact ends_done_iff
  | cons entry entries ih =>
    have hcons : marksAmong d root (entry :: entries) =
        if isMarked d root (RepoName.sanitize entry) then
          (RepoName.sanitize entry).text :: marksAmong d root entries
        else marksAmong d root entries := by
      rw [marksAmong, List.map_cons, List.filter_cons]
      split <;> rfl
    refine ends_bind_iff.trans ?_
    simp only [ends_confine_iff, exists_eq_left]
    rw [hcons]
    unfold isMarked
    cases Confine.repoPath root (RepoName.sanitize entry) with
    | error e => exact ih
    | ok path =>
      change Ends (Showing d marks) (Program.ask .disk fun d ↦ (marked root entries).bind
        fun others ↦ .done (if d.isFile (Path.join path.text marker) then
          (RepoName.sanitize entry).text :: others else others)) names ↔ _
      simp only [ends_ask_iff, ends_bind_iff, ends_done_iff, ih, exists_eq_left]
      constructor
      · rintro ⟨_, rfl, rfl⟩
        rfl
      · rintro rfl
        exact ⟨d, rfl, rfl⟩

theorem ends_openAt_iff {settings : AccessSettings} {r : Except Failure (Store × List String)} :
    Ends (Showing d marks) (openAt root settings) r ↔
      r = match Policy.ofSettings settings with
        | .error e => .error e.failure
        | .ok policy => .ok (⟨root, policy⟩, marksOn d root) := by
  unfold openAt
  cases Policy.ofSettings settings with
  | error e => exact ends_done_iff
  | ok policy =>
    have hscan : ∀ names, Ends (Showing d marks) (scan root) names ↔ names = marksOn d root := by
      intro names
      have hscan : scan root = (listing root).bind (marked root) := rfl
      rw [hscan, ends_bind_iff]
      simp only [ends_listing_iff, exists_eq_left, ends_marked_iff]
      rfl
    refine ends_bind_iff.trans ?_
    simp only [hscan, exists_eq_left]
    exact ends_done_iff

/-- A store that was opened has the policy of its settings, and the marks found are those on the
disk. -/
theorem exists_policy {settings : AccessSettings} {store : Store} {found : List String}
    (h : Ends (Showing d marks) (openAt root settings) (.ok (store, found))) :
    ∃ policy, Policy.ofSettings settings = .ok policy ∧ store = ⟨root, policy⟩ ∧
      found = marksOn d root := by
  rw [ends_openAt_iff] at h
  cases hpolicy : Policy.ofSettings settings with
  | error e =>
    rw [hpolicy] at h
    cases h
  | ok policy =>
    rw [hpolicy] at h
    cases h
    exact ⟨policy, rfl, rfl, rfl⟩

/-- A name without a directory carries no mark. -/
theorem notMem_marksOn {name : RepoName} {path : RepoPath}
    (hpath : Confine.repoPath root name = .ok path) (hdir : d.isDir path.text = false) :
    name.text ∉ marksOn d root := by
  intro hmem
  obtain ⟨other, hother, htext⟩ := List.mem_map.1 hmem
  obtain rfl : other = name := by
    cases other
    cases name
    exact congrArg RepoName.mk htext
  have hmarked := (List.mem_filter.1 hother).2
  rw [isMarked, hpath] at hmarked
  have hisDir := Disk.isDir_of_isFile_join (Confine.text_ne_empty hpath) (by decide) hmarked
  cases hisDir.symm.trans hdir

end Store

end GitGateway
