import GitGateway.Chain.Screens
import GitGateway.Launch
import GitGateway.Proofs.Opening
import GitGateway.Proofs.Protections
import GitGateway.Proofs.Walks

/-!
# What an accepted configuration is good for

A configuration is checked in one place and used in others: the store reads the keys again and scans
its directory for marks, the listener and the welcome screen read the address again, and the store's
directory is joined to the data path.  An accepted configuration passes everywhere.  Its keys make a
policy, and the scan has nowhere to fail: a walk names whatever it finds, since what lies in a
directory has a proper name; and where the system shows the tree as it is, it opens a store as a
listing does (`ends_openWalked_iff`).
-/

namespace GitGateway

open Program

/-! ## Scans by a walk -/

namespace Store

variable {root : String} {d : Disk} {marks : List String} {t : List (Sigma HostAsk.Answer)}

/-- Where only proper names are shown below the root, a walk does not fail. -/
theorem exists_entries_of_runs {r : Except Failure (List String)} (h : Runs (walked root) t r)
    (hproper : ∀ d : Disk, ⟨.disk, d⟩ ∈ t → d.IsProperBelow root) : ∃ names, r = .ok names := by
  obtain ⟨d, t', rfl, hwalk⟩ := runs_ask_iff.1 h
  obtain ⟨l, hl, -⟩ := Listing.exists_walk_everywhere (hproper d List.mem_cons_self)
  rw [bind_done, hl] at hwalk
  obtain ⟨_, _, _, rfl, -, hdone⟩ := runs_bind_iff.1 hwalk
  exact ⟨l.names, (runs_done_iff.1 hdone).2⟩

theorem exists_marks_of_runs {r : Except Failure (List String)} (h : Runs (scanned root) t r)
    (hproper : ∀ d : Disk, ⟨.disk, d⟩ ∈ t → d.IsProperBelow root) :
    ∃ marks, r = .ok marks := by
  obtain ⟨t₁, found, t₂, rfl, hwalked, hmarked⟩ := runs_bind_iff.1 h
  obtain ⟨names, rfl⟩ := exists_entries_of_runs hwalked fun d hd ↦
    hproper d (List.mem_append_left _ hd)
  obtain ⟨_, marks, _, -, -, hdone⟩ := runs_bind_iff.1 hmarked
  exact ⟨marks, (runs_done_iff.1 hdone).2⟩

/-- A store whose settings have a policy is opened. -/
theorem exists_store_of_runs {settings : AccessSettings} {policy : Policy}
    {r : Except Failure (Store × List String)} (hpolicy : Policy.ofSettings settings = .ok policy)
    (h : Runs (openWalked root settings) t r)
    (hproper : ∀ d : Disk, ⟨.disk, d⟩ ∈ t → d.IsProperBelow root) :
    ∃ marks, r = .ok (⟨root, policy⟩, marks) := by
  rw [openWalked, hpolicy] at h
  obtain ⟨t₁, found, t₂, rfl, hscanned, hopened⟩ := runs_bind_iff.1 h
  obtain ⟨marks, rfl⟩ := exists_marks_of_runs hscanned fun d hd ↦
    hproper d (List.mem_append_left _ hd)
  exact ⟨marks, (runs_done_iff.1 hopened).2⟩

section Plain

variable (h : d.IsProperBelow root) (hplain : d.IsPlainBelow root)

include h hplain

/-- On a host that shows one disk, and that as it is, a walk finds what a listing finds. -/
theorem ends_walked_iff {r : Except Failure (List String)} :
    Ends (Showing d marks) (walked root) r ↔
      ∃ names, r = .ok names ∧ Ends (Showing d marks) (listing root) names := by
  obtain ⟨l, hl, hnames⟩ := Listing.exists_walk_of_isPlain h hplain
  simp only [ends_listing_iff, ← hnames]
  refine ends_ask_iff.trans ⟨?_, ?_⟩
  · rintro ⟨shown, rfl, hends⟩
    rw [bind_done, hl] at hends
    obtain ⟨_, -, hdone⟩ := ends_bind_iff.1 hends
    exact ⟨_, ends_done_iff.1 hdone, rfl⟩
  · rintro ⟨_, rfl, rfl⟩
    refine ⟨d, rfl, ?_⟩
    rw [bind_done, hl]
    exact ends_bind_iff.2 ⟨(), ends_report _, ends_done_iff.2 rfl⟩

theorem ends_scanned_iff {r : Except Failure (List String)} :
    Ends (Showing d marks) (scanned root) r ↔
      ∃ names, r = .ok names ∧ Ends (Showing d marks) (scan root) names := by
  have hscan : scan root = (listing root).bind (marked root) := rfl
  simp only [hscan, ends_bind_iff]
  refine ends_bind_iff.trans ?_
  simp only [ends_walked_iff h hplain]
  constructor
  · rintro ⟨_, ⟨entries, rfl, hlisting⟩, hends⟩
    obtain ⟨names, hmarked, hdone⟩ := ends_bind_iff.1 hends
    exact ⟨names, ends_done_iff.1 hdone, entries, hlisting, hmarked⟩
  · rintro ⟨names, rfl, entries, hlisting, hmarked⟩
    exact ⟨_, ⟨entries, rfl, hlisting⟩, ends_bind_iff.2 ⟨names, hmarked, ends_done_iff.2 rfl⟩⟩

/-- On such a host a store is opened by a walk as it is by a listing. -/
theorem ends_openWalked_iff {settings : AccessSettings}
    {r : Except Failure (Store × List String)} :
    Ends (Showing d marks) (openWalked root settings) r ↔
      Ends (Showing d marks) (openAt root settings) r := by
  unfold openWalked openAt
  cases Policy.ofSettings settings with
  | error e => exact Iff.rfl
  | ok policy =>
    refine ends_bind_iff.trans (Iff.trans ?_ ends_bind_iff.symm)
    simp only [ends_scanned_iff h hplain]
    constructor
    · rintro ⟨_, ⟨names, rfl, hscan⟩, hdone⟩
      exact ⟨names, hscan, hdone⟩
    · rintro ⟨names, hscan, hdone⟩
      exact ⟨_, ⟨names, rfl, hscan⟩, hdone⟩

end Plain

end Store

/-! ## Accepted settings -/

namespace Config

variable {c : Config}

theorem exists_addr_of_check (h : c.check = .ok ()) :
    ∃ a, SocketAddr.ofText? c.ssh.listenAddr = some a := by
  unfold check at h
  split_ifs at h with _ hnone
  rw [Option.isNone_iff_eq_none] at hnone
  exact Option.ne_none_iff_exists'.1 hnone

/-- The root of an accepted configuration goes on from the data path along proper names. -/
theorem exists_names_of_check (h : c.check = .ok ()) : ∃ names : List String,
    (∀ name ∈ names, Path.IsProper name) ∧
      Path.normalize c.reposPath = Path.normalize c.dataPath ++ names.map .normal := by
  obtain ⟨names, hmoves, -, hroot⟩ := Confine.normalize_reposPath h
  refine ⟨names, fun name hname ↦ ?_, hroot⟩
  have hmem : Path.Component.normal name ∈ Path.moves c.reposDir := by
    rw [hmoves]
    exact List.mem_map_of_mem hname
  rcases Path.eq_of_mem_moves hmem with hparent | ⟨other, hother, hproper⟩
  · cases hparent
  · cases hother
    exact hproper

end Config

/-- An address that can be read is bound, or refused by the system. -/
theorem Launch.listen_eq {text : String} {a : SocketAddr} (h : SocketAddr.ofText? text = some a) :
    listen text = ((bind a).map fun _ ↦ a).mapError fun e ↦
      ⟨["failed to bind SSH listener on " ++ a.text, e.message]⟩ := by
  rw [listen, h]
  cases hbind : bind a <;> simp [hbind] <;> rfl

/-- What a configuration is good for: wherever it is used, it is found in order. -/
structure Config.Opens (c : Config) : Prop where
  /-- Its store opens whatever lies below the root, as long as what lies there has proper names: its
  keys have a policy, and the scan for marks does not fail. -/
  store : ∃ policy, Policy.ofSettings c.access = .ok policy ∧
    ∀ {σ : Type} (answer : (q : HostAsk) → σ → q.Answer × σ) (x : σ),
      (∀ d : Disk, ⟨.disk, d⟩ ∈ (Store.openWalked c.reposPath c.access).transcript answer x →
        d.IsProperBelow c.reposPath) →
      ∃ marks, ((Store.openWalked c.reposPath c.access).run answer x).1 =
        .ok (⟨c.reposPath, policy⟩, marks)
  /-- Its listen address is read wherever it is used, so that only the system can refuse it. -/
  address : ∃ a, SocketAddr.ofText? c.ssh.listenAddr = some a ∧ Stage.shownPort c = a.port ∧
    Launch.listen c.ssh.listenAddr = ((Launch.bind a).map fun _ ↦ a).mapError fun e ↦
      ⟨["failed to bind SSH listener on " ++ a.text, e.message]⟩
  /-- The root of its store goes down from the data path. -/
  root : ∃ names : List String, (∀ name ∈ names, Path.IsProper name) ∧
    Path.normalize c.reposPath = Path.normalize c.dataPath ++ names.map .normal

/-- A configuration that passes its check is found in order, wherever it comes from. -/
theorem Config.Opens.of_check {c : Config} (h : c.check = .ok ()) : c.Opens := by
  obtain ⟨policy, hpolicy⟩ := exists_policy_of_check h
  obtain ⟨a, ha⟩ := exists_addr_of_check h
  refine ⟨⟨policy, hpolicy, fun answer x hproper ↦ ?_⟩, ⟨a, ha, ?_, Launch.listen_eq ha⟩,
    exists_names_of_check h⟩
  · exact Store.exists_store_of_runs hpolicy (runs_transcript answer _ x) hproper
  · rw [Stage.shownPort, ha]
    rfl

/-- **Acceptance.**  An accepted configuration opens its store whatever lies below the root, its
listen address is read wherever it is used, and the store's root goes down from the data path. -/
theorem accepted_configuration_opens {yaml : String} {c : Config} (h : Config.ofYaml yaml = .ok c) :
    c.Opens :=
  .of_check (Config.ofYaml_eq_ok_iff.1 h).2

/-- Surroundings that show one disk, and let nothing else succeed. -/
def Disk.alone (d : Disk) : (q : HostAsk) → Unit → q.Answer × Unit
  | .disk, x => (d, x)
  | .marks, x => ([], x)
  | .emit _, x | .lock, x | .unlock, x | .mark _, x => ((), x)
  | .makeDirAll _, x | .touch _, x => (.error .permissionDenied, x)
  | .runGit _, x => (.error .permissionDenied, x)
  | .exchange _ _, x => (.error .permissionDenied, x)

/-- A configuration with a data path alone opens a store in which the name of a repository is no
text. -/
theorem data_path_opens_store_with_raw_name :
    let d : Disk := { top := .dir true [(.text "srv", .dir true [(.text "repos",
      .dir true [(.raw [255, 46, 103, 105, 116], .dir true [(.text "HEAD", .file [])])])])] }
    Config.ofYaml "data_path: /srv\n" = .ok { dataPath := "/srv" } ∧
      d.IsProperBelow "/srv/repos" ∧
      ∃ policy marks, ((Store.openWalked "/srv/repos" {}).run d.alone ()).1 =
        .ok (⟨"/srv/repos", policy⟩, marks) := by
  intro d
  have hyaml : Config.ofYaml "data_path: /srv\n" = .ok { dataPath := "/srv" } :=
    Config.ofYaml_eq_ok_iff.2 ⟨by decide +kernel, rfl⟩
  have hproper : d.IsProperBelow "/srv/repos" := by
    refine Disk.isProperBelow_of_named (Entry.named_dir_iff.2 (List.forall_mem_singleton.2 ?_)) _
    refine ⟨by decide, Entry.named_dir_iff.2 (List.forall_mem_singleton.2 ?_)⟩
    refine ⟨by decide, Entry.named_dir_iff.2 (List.forall_mem_singleton.2 ?_)⟩
    refine ⟨by decide +kernel, Entry.named_dir_iff.2 (List.forall_mem_singleton.2 ?_)⟩
    exact ⟨by decide, .file _⟩
  obtain ⟨⟨policy, -, hopens⟩, -, -⟩ := accepted_configuration_opens hyaml
  have hroot : Config.reposPath { dataPath := "/srv" } = "/srv/repos" := by decide
  rw [hroot] at hopens
  obtain ⟨marks, hopened⟩ := hopens d.alone () fun shown hshown ↦ by
    obtain ⟨_, hshows⟩ := exists_of_mem_transcript hshown
    have hd : shown = d := hshows
    rwa [hd]
  exact ⟨hyaml, hproper, policy, marks, hopened⟩

end GitGateway
