import GitGateway.Proofs.Confinement
import GitGateway.Proofs.Machines
import GitGateway.Proofs.Protections
import GitGateway.Proofs.Pushes

/-!
# What git programs are called with

The git programs that a gateway runs are told which repository to work on by their last argument,
and nothing stands between it and their options (`Backing.only_runsOn`).  So only the way its path
begins keeps a repository from being read as an option.

A resolved path begins as its first component does (`IsResolved.head?_render`).  The path of a name
goes on from the resolved root, so it begins as the root does; only where the root resolves to
nothing does it begin as the name does (`Confine.isOption_text_iff`).  The root of an accepted
configuration resolves to nothing if its data path and the directory of its store both do, as `.`
does.
-/

namespace GitGateway

/-- Whether a git program reads an argument as an option. -/
def Git.IsOption (argument : String) : Prop := argument.toList.head? = some '-'

instance : DecidablePred Git.IsOption := fun argument ↦
  inferInstanceAs (Decidable (argument.toList.head? = some '-'))

open Git (IsOption)

/-! ## How paths begin -/

namespace Path

variable {cs ds : List Component}

theorem exists_intercalate_cons (t : String) (ts : List String) :
    ∃ more, String.intercalate "/" (t :: ts) = t ++ more := by
  cases ts with
  | nil => exact ⟨"", by rw [String.intercalate_singleton, String.append_empty]⟩
  | cons u us =>
    refine ⟨"/" ++ String.intercalate "/" (u :: us), ?_⟩
    rw [String.intercalate_cons_of_ne_nil (by simp), String.append_assoc]

/-- A text that is not empty decides how it begins, whatever stands behind it. -/
theorem head?_append {t : String} (h : t ≠ "") (more : String) :
    (t ++ more).toList.head? = t.toList.head? := by
  obtain ⟨c, cs, hcs⟩ := List.exists_cons_of_ne_nil fun hnil ↦ h (String.toList_eq_nil_iff.1 hnil)
  rw [String.toList_append, hcs, List.cons_append, List.head?_cons, List.head?_cons]

/-- A resolved path begins as its first component does. -/
theorem IsResolved.head?_render (h : IsResolved cs) :
    (render cs).toList.head? = cs.head?.bind fun c ↦ c.text.toList.head? := by
  cases h with
  | @absolute names =>
    rw [render_root, String.toList_append]
    rfl
  | @relative up names hnames =>
    have hne : "" ∉ (walk up names).map Component.text := text_walk_ne_empty hnames
    rw [render_walk]
    cases hwalk : walk up names with
    | nil => rfl
    | cons c cs =>
      obtain ⟨more, hmore⟩ := exists_intercalate_cons c.text (cs.map Component.text)
      have htext : c.text ≠ "" := by
        intro htext
        rw [hwalk, List.map_cons, htext] at hne
        exact hne List.mem_cons_self
      rw [List.map_cons, hmore, head?_append htext]
      rfl

/-- A resolved path that goes on from another one begins as that one does. -/
theorem IsResolved.head?_render_of_begins (h : IsResolved cs) (h' : IsResolved ds)
    (hbegins : cs <+: ds) (hne : cs ≠ []) :
    (render ds).toList.head? = (render cs).toList.head? := by
  obtain ⟨c, cs, rfl⟩ := List.exists_cons_of_ne_nil hne
  obtain ⟨rest, rfl⟩ := hbegins
  rw [h.head?_render, h'.head?_render]
  rfl

end Path

namespace Confine

open Path RepoName

variable {root raw : String} {p : RepoPath}

/-- A name begins as its directory does. -/
theorem isOption_dirName_iff (n : RepoName) : IsOption n.dirName ↔ IsOption n.text := by
  unfold IsOption
  by_cases hempty : n.text = ""
  · rw [dirName, hempty]
    decide
  · rw [dirName, head?_append hempty]

/-- Below a root that resolves to nothing, the path of a name is its directory. -/
theorem text_of_normalize_eq_nil (h : repoPath root (sanitize raw) = .ok p)
    (hroot : normalize root = []) : p.text = (sanitize raw).dirName := by
  obtain ⟨hrel, hp, -⟩ := ensureWithin_ok h
  obtain ⟨up, down, hdir, hdown⟩ := exists_dirName raw
  rw [RepoPath.text, hp, normalize_join hrel, hroot, List.nil_append, resolve_normalize, hdir,
    normalize_render_walk hdown.1]

/-- The path of a name is read as an option if its root is, or if its root resolves to nothing and
the name is. -/
theorem isOption_text_iff (h : repoPath root (sanitize raw) = .ok p) :
    IsOption p.text ↔
      if normalize root = [] then IsOption (sanitize raw).text
      else IsOption (render (normalize root)) := by
  split
  · next hroot => rw [text_of_normalize_eq_nil h hroot, isOption_dirName_iff]
  · next hroot =>
    obtain ⟨-, hp, hbelow⟩ := ensureWithin_ok h
    have hresolved : IsResolved p.components := hp ▸ isResolved_normalize _
    rw [IsOption, RepoPath.text, (isResolved_normalize root).head?_render_of_begins hresolved
      (strictlyBelow_iff.1 hbelow).1 hroot]
    exact Iff.rfl

/-- A name that does not climb has a path below every root. -/
theorem exists_repoPath (root raw : String) (h : (sanitize raw).climb = 0) :
    ∃ p, repoPath root (sanitize raw) = .ok p := by
  obtain ⟨up, down, hdir, hdown⟩ := exists_dirName raw
  obtain rfl : up = 0 := (climb_of_dirName hdir hdown).symm.trans h
  exact ⟨_, repoPath_of_directory hdir hdown⟩

/-- No name is read as an option below a root exactly if the root resolves to something that is
not. -/
theorem forall_not_isOption_iff (root : String) :
    (∀ raw p, repoPath root (sanitize raw) = .ok p → ¬ IsOption p.text) ↔
      normalize root ≠ [] ∧ ¬ IsOption (render (normalize root)) := by
  constructor
  · intro h
    obtain ⟨p, hp⟩ := exists_repoPath root "-x" (by decide)
    have hdash := h _ p hp
    rw [isOption_text_iff hp] at hdash
    split at hdash
    · exact absurd (by decide) hdash
    · next hroot => exact ⟨hroot, hdash⟩
  · rintro ⟨hroot, hdash⟩ raw p hp
    rwa [isOption_text_iff hp, if_neg hroot]

end Confine

/-! ## Calls of git programs -/

/-- A question that runs no git program, or runs one on a repository at one of some paths: the path
is its last argument, behind words that no client chooses. -/
def HostAsk.RunsOn (paths : RepoPath → Prop) : HostAsk → Prop
  | .runGit call => ∃ p, paths p ∧ call.arguments = ["init", "--bare", "--quiet", p.text]
  | .exchange call _ => ∃ p, paths p ∧ ∃ service : Git.Service,
    call.arguments = [service.subcommand, p.text]
  | _ => True

variable {paths : RepoPath → Prop} {path : RepoPath} {name : RepoName}

theorem HostAsk.IsQuiet.runsOn {q : HostAsk} (h : q.IsQuiet) : q.RunsOn paths := by
  cases q with
  | runGit | exchange => exact h.elim
  | _ => trivial

theorem HostAsk.Makes.runsOn {q : HostAsk} (h : q.Makes paths) : q.RunsOn paths := by
  cases q with
  | runGit =>
    obtain ⟨p, hp, rfl⟩ := h
    exact ⟨p, hp, rfl⟩
  | exchange => exact h.elim
  | _ => trivial

theorem HostAsk.RunsOn.mono {paths' : RepoPath → Prop} {q : HostAsk} (h : q.RunsOn paths)
    (himp : ∀ p, paths p → paths' p) : q.RunsOn paths' := by
  cases q with
  | runGit | exchange =>
    obtain ⟨p, hp, hcall⟩ := h
    exact ⟨p, himp p hp, hcall⟩
  | _ => trivial

/-- What only looks runs no git program. -/
theorem Program.IsQuiet.runsOn {α : Type} {p : OnHost α} (h : IsQuiet p) :
    p.Only (HostAsk.RunsOn paths) :=
  h.mono fun _ hq ↦ hq.runsOn

namespace Backing

/-- A question of a session about a path is answered without running a git program on any other. -/
theorem only_answer {b : Backing} {target : Option RepoPath} {q : Ask}
    (hq : q.Concerns b.store.root target) :
    (b.answer q).Only (HostAsk.RunsOn fun p ↦ target = some p) := by
  cases hq with
  | emit e => exact .ask trivial fun _ ↦ .done _
  | accessLevel name key =>
    exact (Store.isQuiet_accessLevel b.store name key).runsOn.bind fun _ ↦ .done _
  | lookup => exact (Store.isQuiet_lookup b.store _).runsOn.bind fun _ ↦ .done _
  | create hpath =>
    refine ((Store.only_create b.store _ false).mono fun q hq ↦ hq.runsOn.mono fun p hp ↦ ?_).bind
      fun _ ↦ .done _
    cases hpath.symm.trans hp
    rfl
  | @serve path service io =>
    refine .ask trivial fun d ↦ ?_
    change Program.Only _ (if Store.isBare d path.text then _ else _)
    split
    · refine .ask ⟨path, rfl, service, rfl⟩ fun r ↦ ?_
      cases r <;> exact .done _
    · exact .done _

/-- A dispatch runs git programs on the path of the repository that the session's command names. -/
theorem only_runsOn (b : Backing) (s : Session) :
    (b.carryOut (dispatch b.store.root) s).Only
      (HostAsk.RunsOn fun p ↦ s.target? b.store.root = some p) :=
  (Dispatch.only_concerns b.store.root s).interpret fun _ ↦ only_answer

end Backing

/-! ## Names and options -/

namespace Confine

open Path RepoName

/-- A configuration with an absolute data path has a root that is not read as an option. -/
theorem not_isOption_reposPath {c : Config} (hcheck : c.check = .ok ())
    (habs : isAbsolute c.dataPath = true) :
    normalize c.reposPath ≠ [] ∧ ¬ IsOption (render (normalize c.reposPath)) := by
  obtain ⟨names, -, -, hroot⟩ := normalize_reposPath hcheck
  obtain ⟨front, hdata, -⟩ := normalize_of_isAbsolute habs
  have hresolved := isResolved_normalize c.reposPath
  rw [hdata, List.cons_append] at hroot
  rw [IsOption, hresolved.head?_render, hroot, List.head?_cons, Option.bind_some]
  exact ⟨List.cons_ne_nil _ _, by decide⟩

/-- What git programs are called with on the store of a configuration. -/
structure Arguments (c : Config) (b : Backing) : Prop where
  /-- A git program that is run to create a repository gets the path of its name as its last
  argument. -/
  created : ∀ name isPrivate, (b.answer (.create name isPrivate)).Only
    (HostAsk.RunsOn fun p ↦ repoPath c.reposPath name = .ok p)
  /-- One that the dispatch of a session runs gets the path of a word of the session's command. -/
  dispatched : ∀ s : Session, (b.carryOut (dispatch c.reposPath) s).Only
    (HostAsk.RunsOn fun p ↦ ∃ raw ∈ s.command, repoPath c.reposPath (sanitize raw) = .ok p)
  /-- It reads the path as an option exactly if the resolved root is written like one, or if the
  root resolves to nothing and the name is written like one. -/
  option_iff : ∀ raw p, repoPath c.reposPath (sanitize raw) = .ok p →
    (IsOption p.text ↔
      if normalize c.reposPath = [] then IsOption (sanitize raw).text
      else IsOption (render (normalize c.reposPath)))
  never_iff : (∀ raw p, repoPath c.reposPath (sanitize raw) = .ok p → ¬ IsOption p.text) ↔
    normalize c.reposPath ≠ [] ∧ ¬ IsOption (render (normalize c.reposPath))
  /-- The root is what the data path and the store's directory resolve to. -/
  root : normalize c.reposPath = normalize c.dataPath ++ normalize c.reposDir
  absolute : isAbsolute c.dataPath = true →
    normalize c.reposPath ≠ [] ∧ ¬ IsOption (render (normalize c.reposPath))

theorem Arguments.of_check {c : Config} (h : c.check = .ok ()) {b : Backing}
    (hroot : b.store.root = c.reposPath) : Arguments c b where
  created name isPrivate := by
    rw [← hroot]
    exact ((Store.only_create b.store name isPrivate).mono fun _ hq ↦ hq.runsOn).bind
      fun _ ↦ .done _
  dispatched s := by
    rw [← hroot]
    exact (b.only_runsOn s).mono fun q hq ↦ hq.mono fun p hp ↦ Session.exists_of_target? hp
  option_iff raw p hp := isOption_text_iff hp
  never_iff := forall_not_isOption_iff c.reposPath
  root := by
    obtain ⟨names, -, hdir, hrepos⟩ := normalize_reposPath h
    rw [hrepos, hdir]
  absolute := not_isOption_reposPath h

/-- **Names and options.**  On the store of an accepted configuration, a git program that is run to
create a repository, or that the dispatch of a session runs, gets the path of the name that was
asked for as its last argument.  Names never become options exactly if the data path and the store's
directory resolve to something that is not written like an option, as they do wherever the data path
is absolute. -/
theorem names_never_options_iff {yaml : String} {c : Config} (h : Config.ofYaml yaml = .ok c)
    (b : Backing) (hroot : b.store.root = c.reposPath) : Arguments c b :=
  .of_check (Config.ofYaml_eq_ok_iff.1 h).2 hroot

/-- Below an absolute data path, a name that is written like an option is none. -/
theorem dashed_name_below_absolute_path :
    let c : Config := { dataPath := "/srv" }
    let b : Backing := { store := ⟨c.reposPath, ⟨.readOnly, true, [], [], []⟩⟩ }
    Config.ofYaml "data_path: /srv\n" = .ok c ∧ b.store.root = c.reposPath ∧
      isAbsolute c.dataPath = true ∧ IsOption (sanitize "-x").text ∧
      ∃ p, repoPath c.reposPath (sanitize "-x") = .ok p ∧ p.text = "/srv/repos/-x.git" ∧
        ¬ IsOption p.text := by
  intro c b
  have hyaml : Config.ofYaml "data_path: /srv\n" = .ok c :=
    Config.ofYaml_eq_ok_iff.2 ⟨by decide +kernel, by decide⟩
  have hpath : repoPath c.reposPath (sanitize "-x") =
      .ok ⟨[.root, .normal "srv", .normal "repos", .normal "-x.git"]⟩ := by decide
  obtain ⟨-, -, -, hnever, -, habsolute⟩ := names_never_options_iff hyaml b rfl
  have habs : isAbsolute c.dataPath = true := by decide
  exact ⟨hyaml, rfl, habs, by decide, _, hpath, by decide, hnever.2 (habsolute habs) _ _ hpath⟩

/-- In the current directory, a name that is written like an option is one: the git programs are
called with it as it is. -/
theorem dashed_name_becomes_option :
    let c : Config := { dataPath := ".", reposDir := "." }
    let p : RepoPath := ⟨[.normal "-x.git"]⟩
    Config.ofYaml "data_path: .\nrepos_dir: .\n" = .ok c ∧
      repoPath c.reposPath (sanitize "-x") = .ok p ∧
      (Store.initCall p.text).arguments = ["init", "--bare", "--quiet", "-x.git"] ∧
      (Git.PackService.call {} .uploadPack p []).arguments = ["upload-pack", "-x.git"] ∧
      IsOption p.text := by
  intro c p
  have hyaml : Config.ofYaml "data_path: .\nrepos_dir: .\n" = .ok c :=
    Config.ofYaml_eq_ok_iff.2 ⟨by decide +kernel, by decide⟩
  exact ⟨hyaml, by decide, by decide, by decide, by decide⟩

end Confine

end GitGateway
