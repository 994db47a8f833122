import GitGateway.Proofs.Creations
import GitGateway.Proofs.Scripts

/-!
# Hosts on which repositories are founded

A session that pushes changes its host by three questions only, all about the repository it names:
it makes the directory above it, runs the git program that makes it, and starts a pack operation on
it.  A host **founds** the repositories at some paths if none of these questions takes one of them
away, or the directory above it, and none of them makes one but the git program, which makes the
repository that it is asked for exactly if it says so.

What a lawful machine needs for that is asked for in three steps, since most of what is proved about
creations needs the first only.  Its git program makes the repository where it says so
(`Machine.IsReliable`); it leaves none behind where it fails, which the git program does not promise
(`Machine.IsTidy`); and its pack operations neither make repositories nor take any away
(`Machine.IsOrderly`).  An orderly machine founds the repositories below the root of a store on its
own ground (`IsLawful.founds`).
-/

namespace GitGateway

open Disk Path

namespace Store

/-- The directory above a path is there, if it has one. -/
def HasParent (d : Disk) (path : String) : Prop :=
  ∀ above, parent? path = some above → above = "" ∨ d.isDir above = true

/-- What is done to a disk keeps the repository at a path, if there is one, and the directory above
it, and makes a repository there only if it should. -/
structure Spares (made : Prop) (path : String) (d d' : Disk) : Prop where
  bare : isBare d path = true → isBare d' path = true
  own : isBare d' path = true → isBare d path = true ∨ made
  parent : HasParent d path → HasParent d' path

theorem Spares.refl (made : Prop) (path : String) (d : Disk) : Spares made path d d :=
  ⟨id, .inl, id⟩

theorem Spares.mono {made made' : Prop} {path : String} {d d' : Disk} (h : Spares made path d d')
    (himp : made → made') : Spares made' path d d' :=
  ⟨h.bare, fun hbare ↦ (h.own hbare).imp_right himp, h.parent⟩

/-- Where no repository is made, there is one afterwards if there was one before. -/
theorem Spares.isBare_eq {made : Prop} {path : String} {d d' : Disk} (h : Spares made path d d')
    (hmade : ¬ made) : isBare d' path = isBare d path :=
  Bool.eq_iff_iff.2 ⟨fun hbare ↦ (h.own hbare).resolve_right hmade, h.bare⟩

end Store

/-- A question by which a session may change its host, about the repository at a path. -/
inductive HostAsk.WorksOn (pack : Git.PackService) (d : Disk) (path : RepoPath) :
    HostAsk → Prop where
  | makeParent {above : String} (h : parent? path.text = some above) :
      WorksOn pack d path (.makeDirAll above)
  | init (h : Store.HasParent d path.text) :
      WorksOn pack d path (.runGit (Store.initCall path.text))
  | exchange (service : Git.Service) (io : PackIo) (h : Store.isBare d path.text = true) :
      WorksOn pack d path (.exchange (pack.call service path io.env) io)

/-- A question runs the git program that makes the repository at a path. -/
def HostAsk.Inits (q : HostAsk) (path : RepoPath) : Prop :=
  q = .runGit (Store.initCall path.text)

namespace Machine

variable {σ : Type} {m : Machine σ} {pack : Git.PackService} {paths : RepoPath → Prop}
variable {inv : σ → Prop}

/-- A host founds the repositories at some paths, in states with an invariant. -/
structure Founds (m : Machine σ) (pack : Git.PackService) (paths : RepoPath → Prop)
    (inv : σ → Prop) : Prop where
  looks {q : HostAsk} {answer : q.Answer} {x x' : σ} (hq : q.IsQuiet) (hx : inv x)
    (h : m.answer q x = (answer, x')) : inv x' ∧ m.disk x' = m.disk x
  shows {d : Disk} {x x' : σ} (hx : inv x) (h : m.answer .disk x = (d, x')) : d = m.disk x
  works {path : RepoPath} {q : HostAsk} {answer : q.Answer} {x x' : σ} (hpath : paths path)
    (hq : q.WorksOn pack (m.disk x) path) (hx : inv x) (h : m.answer q x = (answer, x')) :
    inv x' ∧ ∀ other, paths other →
      Store.Spares (q.Inits other) other.text (m.disk x) (m.disk x')
  /-- Where the directory above a path was made, it is there. -/
  parent {path : RepoPath} {above : String} {x x' : σ} (hpath : paths path) (hx : inv x)
    (habove : parent? path.text = some above) (h : m.answer (.makeDirAll above) x = (.ok (), x')) :
    Store.HasParent (m.disk x') path.text
  /-- The git program makes the repository that it is asked for where it says so. -/
  init {path : RepoPath} {r : Except OsError Git.Report} {x x' : σ} (hpath : paths path)
    (hx : inv x) (hparent : Store.HasParent (m.disk x) path.text)
    (h : m.answer (.runGit (Store.initCall path.text)) x = (r, x'))
    (hmade : Store.judgeInit r = .ok ()) : Store.isBare (m.disk x') path.text = true
  /-- Where it does not say so, it leaves none behind. -/
  failed {path : RepoPath} {r : Except OsError Git.Report} {x x' : σ} (hpath : paths path)
    (hx : inv x) (hparent : Store.HasParent (m.disk x) path.text)
    (h : m.answer (.runGit (Store.initCall path.text)) x = (r, x'))
    (hfailed : Store.judgeInit r ≠ .ok ()) :
    Store.isBare (m.disk x') path.text = Store.isBare (m.disk x) path.text

/-- The git program makes a repository where it says so. -/
structure IsReliable (m : Machine σ) (paths : RepoPath → Prop) (inv : σ → Prop) : Prop where
  keeps {q : HostAsk} {answer : q.Answer} {x x' : σ} (hx : inv x)
    (h : m.answer q x = (answer, x')) : inv x'
  init {path : RepoPath} {r : Except OsError Git.Report} {x x' : σ} (hpath : paths path)
    (hx : inv x) (hsound : (m.disk x).IsSound) (hparent : Store.HasParent (m.disk x) path.text)
    (h : m.answer (.runGit (Store.initCall path.text)) x = (r, x'))
    (hmade : Store.judgeInit r = .ok ()) : Store.isBare (m.disk x') path.text = true

/-- The git program makes a repository where it says so, and none where it fails. -/
structure IsTidy (m : Machine σ) (paths : RepoPath → Prop) (inv : σ → Prop) : Prop
    extends m.IsReliable paths inv where
  failed {path : RepoPath} {r : Except OsError Git.Report} {x x' : σ} (hpath : paths path)
    (hx : inv x) (hsound : (m.disk x).IsSound) (hparent : Store.HasParent (m.disk x) path.text)
    (h : m.answer (.runGit (Store.initCall path.text)) x = (r, x'))
    (hfailed : Store.judgeInit r ≠ .ok ()) :
    Store.isBare (m.disk x') path.text = Store.isBare (m.disk x) path.text

/-- Besides, pack operations make no repository at the paths and take none away. -/
structure IsOrderly (m : Machine σ) (pack : Git.PackService) (paths : RepoPath → Prop)
    (inv : σ → Prop) : Prop extends m.IsTidy paths inv where
  exchange {path : RepoPath} {service : Git.Service} {io : PackIo}
    {r : Except OsError Git.Exchange} {x x' : σ} (hx : inv x)
    (h : m.answer (.exchange (pack.call service path io.env) io) x = (r, x')) {other : RepoPath}
    (hother : paths other) : Store.Spares False other.text (m.disk x) (m.disk x')

end Machine

/-! ## Founding on the ground of a store -/

namespace Store

/-- Where making a repository succeeds there is one, and else there is one if there was. -/
theorem eq_or_isOk_judgeInit {r : Except OsError Git.Report} {before after : Bool}
    (hmade : judgeInit r = .ok () → after = true)
    (hfailed : judgeInit r ≠ .ok () → after = before) :
    after = (before || (judgeInit r).isOk) := by
  cases hjudged : judgeInit r with
  | error e =>
    rw [hfailed (by rw [hjudged]; rintro ⟨⟩)]
    exact (Bool.or_false _).symm
  | ok =>
    rw [hmade hjudged]
    exact (Bool.or_true _).symm

variable {d d' : Disk} {root : String} {base : List FileName} {rest : List String} {n : RepoName}
variable {new : List FileName → Kind → Prop}

/-- A directory that a path leads to is still there after growth. -/
theorem isDir_grows {p : String} (hsound : d.IsSound) (h : d.isDir p = true)
    (hgrows : Grows new d d') : d'.isDir p = true := by
  obtain ⟨place, hleads, hdir⟩ := (isDir_iff hsound).1 h
  exact (isDir_iff (hsound.grows hgrows)).2 ⟨place, hleads.grows hgrows, hgrows.isDirAt hdir⟩

/-- A repository is still there after growth. -/
theorem isBare_grows {p : String} (hsound : d.IsSound) (h : isBare d p = true)
    (hgrows : Grows new d d') : isBare d' p = true := by
  obtain ⟨hdir, hfile⟩ := Bool.and_eq_true_iff.1 h
  exact Bool.and_eq_true_iff.2 ⟨isDir_grows hsound hdir hgrows, isFile_grows hsound hfile hgrows⟩

/-- A path that leads to a bare repository on one ground leads to one on another ground that has the
same `HEAD`. -/
theorem isBare_of_kindAt (hground : d.IsGround root base) (hground' : d'.IsGround root base)
    (halong : Confine.LiesAlong root n rest) (hbare : isBare d' (below root rest) = true)
    (hhead : d.kindAt (placeBelow base rest ++ [.text "HEAD"]) = some .file) :
    isBare d (below root rest) = true := by
  have hproper := isProper_concat halong.isDirectory.1 isProper_head
  obtain ⟨place, hleads, -⟩ := (isFile_iff hground'.sound).1 ((isBare_iff halong).1 hbare)
  rw [← placeBelow_concat] at hhead
  refine (isBare_iff halong).2 ((isFile_iff hground.sound).2 ⟨_, ?_, hhead⟩)
  exact hground.leadsTo_of_isFile hground' hproper (by simp) hleads hhead

/-- Growth that adds no `HEAD` to a directory spares a repository there. -/
theorem spares_of_grows {made : Prop} (hground : d.IsGround root base)
    (halong : Confine.LiesAlong root n rest) (hgrows : Grows new d d')
    (hnew : new (placeBelow base rest ++ [.text "HEAD"]) .file → made) :
    Spares made (below root rest) d d' where
  bare hbare := (isBare_iff halong).2
    (isFile_grows hground.sound ((isBare_iff halong).1 hbare) hgrows)
  own hbare := by
    have hground' := hground.grows hgrows
    have hhead := kindAt_of_isBare hground' halong hbare
    cases hold : d.kindAt (placeBelow base rest ++ [.text "HEAD"]) with
    | none => exact .inr (hnew (hgrows.new_of hold hhead))
    | some k =>
      cases (hgrows.kept hold).symm.trans hhead
      exact .inl (isBare_of_kindAt hground hground' halong hbare hold)
  parent hparent above habove :=
    (hparent above habove).imp_right fun hdir ↦ isDir_grows hground.sound hdir hgrows

end Store

namespace Machine

variable {σ : Type} {m : Machine σ} {pack : Git.PackService} {paths : RepoPath → Prop}
variable {inv : σ → Prop} {root : String} {base : List FileName} {path : RepoPath} {x x' : σ}

open Store

/-- The path of a name below a root that resolves to more than steps up. -/
def IsTarget (root : String) (path : RepoPath) : Prop :=
  ∃ raw, Confine.repoPath root (RepoName.sanitize raw) = .ok path

theorem IsTarget.exists_liesAlong (hroot : ∃ c ∈ normalize root, c ≠ .parent)
    (h : IsTarget root path) :
    ∃ n rest, Confine.LiesAlong root n rest ∧ path.text = below root rest := by
  obtain ⟨raw, hpath⟩ := h
  obtain ⟨rest, halong⟩ := Confine.exists_liesAlong_of_root hroot rfl hpath
  exact ⟨_, rest, halong, halong.text_eq hpath⟩

section Lawful

variable (hm : m.IsLawful) (hroot : ∃ c ∈ normalize root, c ≠ .parent)
variable (hground : (m.disk x).IsGround root base) (htarget : IsTarget root path)

include hm hroot hground htarget

/-- Making the directory above one repository spares all. -/
theorem IsLawful.spares_makeDirAll {above : String} {r : Except OsError Unit}
    (habove : parent? path.text = some above) (h : m.answer (.makeDirAll above) x = (r, x')) :
    (m.disk x').IsGround root base ∧
      ∀ other, IsTarget root other → Spares False other.text (m.disk x) (m.disk x') := by
  obtain ⟨n, rest, halong, htext⟩ := htarget.exists_liesAlong hroot
  obtain ⟨hproper, init, last, rfl, -⟩ := halong.isDirectory
  have hinit : ∀ name ∈ init, IsProper name := fun name hname ↦
    hproper name (List.mem_append_left _ hname)
  rw [htext, parent?_below_concat root hinit (hproper last (by simp))] at habove
  cases habove
  obtain ⟨-, hkept, -⟩ | ⟨-, -, hdirs⟩ := (hm.makeDirAll h).cases
  · rw [hkept]
    exact ⟨hground, fun other _ ↦ .refl _ _ _⟩
  · have hgrows := hground.makeDirs_grows hinit hdirs
    refine ⟨hground.grows hgrows, fun other hother ↦ ?_⟩
    obtain ⟨n', rest', halong', htext'⟩ := hother.exists_liesAlong hroot
    rw [htext']
    refine spares_of_grows hground halong' hgrows ?_
    rintro ⟨hk, -⟩
    cases hk

/-- Making one repository spares all, but it makes that one. -/
theorem IsLawful.spares_runGit {r : Except OsError Git.Report}
    (hparent : HasParent (m.disk x) path.text)
    (h : m.answer (.runGit (initCall path.text)) x = (r, x')) :
    (m.disk x').IsGround root base ∧ ∀ other, IsTarget root other →
      Spares (path.text = other.text) other.text (m.disk x) (m.disk x') := by
  obtain ⟨raw, hpath⟩ := htarget
  obtain ⟨rest, halong⟩ := Confine.exists_liesAlong_of_root hroot rfl hpath
  obtain ⟨-, hgit⟩ := hm.runGit h hground.sound hpath hparent
  rw [halong.text_eq hpath] at hgit ⊢
  have hgrows := Inits.grows hground halong ⟨_, .inl rfl, hgit⟩
  refine ⟨hground.grows hgrows, fun other hother ↦ ?_⟩
  obtain ⟨n', rest', halong', htext'⟩ := hother.exists_liesAlong hroot
  rw [htext']
  refine spares_of_grows hground halong' hgrows fun hadds ↦ ?_
  rw [placeBelow_inj hadds.eq_of_head.1]

/-- A pack operation on one repository leaves the way to the store as it is. -/
theorem IsLawful.isGround_exchange {service : Git.Service} {io : PackIo}
    {r : Except OsError Git.Exchange} (hbare : isBare (m.disk x) path.text = true)
    (h : m.answer (.exchange (pack.call service path io.env) io) x = (r, x')) :
    (m.disk x').IsGround root base := by
  obtain ⟨n, rest, halong, htext⟩ := htarget.exists_liesAlong hroot
  obtain ⟨target, hleads, -⟩ := (isDir_iff hground.sound).1 (Bool.and_eq_true_iff.1 hbare).1
  obtain ⟨-, halters⟩ := hm.exchange h hleads
  obtain ⟨hproper, init, last, rfl, -⟩ := halong.isDirectory
  rw [htext] at hleads
  rw [hground.eq_of_leadsTo hproper (by simp) hleads] at halters
  exact hground.alters (halters.of_prefix (List.prefix_append _ _))

end Lawful

/-- **A lawful machine founds repositories** on the ground of a store, if it is orderly. -/
theorem IsLawful.founds (hm : m.IsLawful) (hroot : ∃ c ∈ normalize root, c ≠ .parent)
    (horderly : m.IsOrderly pack paths inv) (hpaths : ∀ path, paths path → IsTarget root path) :
    m.Founds pack paths fun x ↦ (m.disk x).IsGround root base ∧ inv x where
  looks {q answer x x'} hq hx h := by
    rw [(hm.keeps_of_answer hq h).1]
    exact ⟨⟨hx.1, horderly.keeps hx.2 h⟩, rfl⟩
  shows _ h := (hm.disk h).1
  works {path q answer x x'} hpath hq hx h := by
    have hinv := horderly.keeps hx.2 h
    have htarget := hpaths path hpath
    cases hq with
    | makeParent habove =>
      obtain ⟨hground, hspares⟩ := hm.spares_makeDirAll hroot hx.1 htarget habove h
      refine ⟨⟨hground, hinv⟩, fun other hother ↦ ?_⟩
      exact (hspares other (hpaths other hother)).mono False.elim
    | init hparent =>
      obtain ⟨hground, hspares⟩ := hm.spares_runGit hroot hx.1 htarget hparent h
      refine ⟨⟨hground, hinv⟩, fun other hother ↦ ?_⟩
      exact (hspares other (hpaths other hother)).mono fun htext ↦ by rw [HostAsk.Inits, htext]
    | exchange service io hbare =>
      refine ⟨⟨hm.isGround_exchange hroot hx.1 htarget hbare h, hinv⟩, fun other hother ↦ ?_⟩
      exact (horderly.exchange hx.2 h hother).mono False.elim
  parent {path above x x'} hpath hx habove h := by
    obtain ⟨raw, hraw⟩ := hpaths path hpath
    have hrun : m.run (Store.makeParent path.text) x = (.ok (), x') := by
      rw [Store.makeParent, habove]
      exact run_bind_iff.2 ⟨.ok (), x', h, rfl⟩
    exact (hm.makeParent hx.1.sound hraw hrun).2.2 rfl
  init hpath hx hparent h := horderly.init hpath hx.2 hx.1.sound hparent h
  failed hpath hx hparent h := horderly.failed hpath hx.2 hx.1.sound hparent h

end Machine

/-! ## The scripted host -/

namespace Scripted

open Machine

variable {d d' : Disk} {root raw : String} {path : RepoPath}

/-- A repository is there when it was made. -/
theorem isBare_makeRepository (hsound : d.IsSound)
    (hpath : Confine.repoPath root (RepoName.sanitize raw) = .ok path)
    (h : Run.makeRepository d path.text = .ok d') : Store.isBare d' path.text = true := by
  unfold Run.makeRepository at h
  cases hmade : d.makeDirAll path.text with
  | error e =>
    rw [hmade] at h
    cases h
  | ok d₁ =>
    rw [hmade] at h
    have hsound₁ := hsound.grows (makeDirAll_grows hsound hmade)
    obtain ⟨place, hleads, hhead, hgrows⟩ := writeFile_eq_ok hsound₁ h
    have hfile : d'.isFile (join path.text "HEAD") = true :=
      (isFile_iff (hsound₁.grows hgrows)).2 ⟨place, hleads.grows hgrows, hhead⟩
    have hdir := isDir_of_isFile_join (Confine.text_ne_empty hpath) Store.isProper_head hfile
    exact Bool.and_eq_true_iff.2 ⟨hdir, hfile⟩

/-- What a git program reports is judged by how it exits. -/
theorem judgeInit_eq_ok_iff {report : GitGateway.Git.Report} :
    Store.judgeInit (.ok report) = .ok () ↔ report.exit.isSuccess = true := by
  rw [Store.judgeInit]
  split <;> simp_all

/-- A git program makes a repository, or changes nothing and then does not say that it made one,
unless it is lazy. -/
theorem runInit_cases (git : Run) (d : Disk) (p : String) :
    (git.exit.isSuccess = true ∧ Run.makeRepository d p = .ok (git.runInit d p).2 ∧
        (git.runInit d p).1.exit = git.exit) ∨
      (git.runInit d p).2 = d ∧
        (git.isLazy = false → (git.runInit d p).1.exit.isSuccess = false) := by
  unfold Run.runInit
  split
  · next hworks =>
    split
    · next d' hmade => exact .inl ⟨(Bool.and_eq_true_iff.1 hworks).1, hmade, rfl⟩
    · exact .inr ⟨rfl, fun _ ↦ rfl⟩
  · next hworks =>
    refine .inr ⟨rfl, fun hlazy ↦ ?_⟩
    simpa [hlazy] using hworks

/-- A git program that is not lazy makes a repository where it says so. -/
theorem isBare_runInit {git : Run} (hlazy : git.isLazy = false) (hsound : d.IsSound)
    (hpath : Confine.repoPath root (RepoName.sanitize raw) = .ok path)
    (hmade : Store.judgeInit (.ok (git.runInit d path.text).1) = .ok ()) :
    Store.isBare (git.runInit d path.text).2 path.text = true := by
  rw [judgeInit_eq_ok_iff] at hmade
  rcases runInit_cases git d path.text with ⟨-, hrepository, -⟩ | ⟨-, hfails⟩
  · exact isBare_makeRepository hsound hpath hrepository
  · cases hmade.symm.trans (hfails hlazy)

/-- A git program that fails changes nothing. -/
theorem runInit_eq_self {git : Run} {p : String}
    (hfailed : Store.judgeInit (.ok (git.runInit d p).1) ≠ .ok ()) : (git.runInit d p).2 = d := by
  rcases runInit_cases git d p with ⟨hworks, -, hexit⟩ | ⟨hkept, -⟩
  · rw [ne_eq, judgeInit_eq_ok_iff, hexit] at hfailed
    exact absurd hworks hfailed
  · exact hkept

/-- A question leaves the git program as it is. -/
theorem git_answer (q : HostAsk) (h : Host) : (h.answer q).2.git = h.git := by
  have hchange : ∀ change, (h.change change).2.git = h.git := by
    intro change
    cases change <;> rfl
  cases q with
  | makeDirAll p => exact hchange _
  | touch p => exact hchange _
  | runGit call =>
    change (h.runGit call).2.git = h.git
    rw [Host.runGit]
    split <;> rfl
  | emit | disk | exchange | lock | unlock | marks | mark => rfl

/-- The program that is found is the git program of the host. -/
theorem git_of_find {h : Host} {call : GitGateway.Git.Call} {git : Git}
    (hfind : h.find call = .ok git) : h.git = some git := by
  unfold Host.find at hfind
  split at hfind
  · cases hfind
  split at hfind
  · split at hfind <;> cases hfind
  split at hfind
  · next hsome =>
    split at hfind
    · cases hfind
      exact hsome
    · cases hfind
  · cases hfind

/-- The git program of the scripted host is not lazy. -/
def Host.IsDiligent (h : Host) : Prop := ∀ git, h.git = some git → git.init.isLazy = false

/-- The scripted host is orderly as long as its git program is not lazy. -/
theorem isOrderly_machine (pack : GitGateway.Git.PackService) {paths : RepoPath → Prop}
    (hpaths : ∀ path, paths path → IsTarget root path) :
    machine.IsOrderly pack paths Host.IsDiligent where
  keeps {q answer h h'} hgit hanswer := by
    obtain rfl : (h.answer q).2 = h' := congrArg Prod.snd hanswer
    rwa [Host.IsDiligent, git_answer]
  init {path r h h'} hpath hgit hsound _ hanswer hmade := by
    obtain ⟨raw, hraw⟩ := hpaths path hpath
    replace hanswer : h.runGit (Store.initCall path.text) = (r, h') := hanswer
    rw [Host.runGit] at hanswer
    split at hanswer
    · cases hanswer
      cases hmade
    · next git hfind =>
      cases hanswer
      exact isBare_runInit (hgit git (git_of_find hfind)) hsound hraw hmade
  failed {path r h h'} _ _ _ _ hanswer hfailed := by
    replace hanswer : h.runGit (Store.initCall path.text) = (r, h') := hanswer
    rw [Host.runGit] at hanswer
    split at hanswer
    · cases hanswer
      rfl
    · cases hanswer
      exact congrArg (Store.isBare · path.text) (runInit_eq_self hfailed)
  exchange _ hanswer other _ := by
    cases hanswer
    exact .refl _ _ _

end Scripted

end GitGateway
