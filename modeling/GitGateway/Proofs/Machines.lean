import GitGateway.Gateway.Backing
import GitGateway.Proofs.Grounds
import GitGateway.Proofs.Opening
import GitGateway.Scripted.Host

/-!
# Machines

A **machine** is a host as a state that answers one question after the other, with a disk and a list
of marked names that can be seen in each state.  It is lawful if it keeps the gateway's own memory
and makes directories and writes files as a disk does, and if the git program that it runs keeps to
itself: making a repository adds things at and below its path only, among them one file `HEAD` and
neither a link nor a private marker, and a pack operation changes nothing outside the repository
that it serves and adds no link.  This much is assumed of the program.  What else it does, whether
it fails and what it leaves behind then, is left open; a pack operation may also make more
repositories below the one that it serves, as one does that writes a reference whose name ends in
`HEAD`.

On a lawful machine a creation does one of four things (`IsLawful.create`), what only looks changes
nothing and sees one state (`IsLawful.quiet`), and a session has a transcript whose questions the
machine answers in order (`exists_follows`).
-/

namespace GitGateway

open Disk Path

/-- A host as a state. -/
structure Machine (σ : Type) where
  answer : (q : HostAsk) → σ → q.Answer × σ
  /-- Everything that lies on the disk in a state. -/
  disk : σ → Disk
  /-- The names that are marked private in a state. -/
  marks : σ → List String
  /-- The gateway starts anew, with these names marked. -/
  restart : List String → σ → σ

namespace Store

/-- What making a repository may add to a disk: things at and below the place of its path, and a
file `HEAD` where that file's path leads. -/
def InitAdds (d' : Disk) (path : String) (place : List FileName) (k : Kind) : Prop :=
  (∃ target, d'.LeadsTo true path target ∧ target <+: place ∧
    (k = .dir true ∨ k = .file ∧ place.getLast? ≠ some (.text "HEAD") ∧
      place.getLast? ≠ some (.text marker))) ∨
  k = .file ∧ d'.LeadsTo true (join path "HEAD") place

/-- What making a repository may do to a disk: the directory above its path is made first. -/
def Inits (path : String) (d d' : Disk) : Prop :=
  ∃ d₁, (d₁ = d ∨ ∃ above, parent? path = some above ∧ d.makeDirAll above = .ok d₁) ∧
    Grows (InitAdds d' path) d₁ d'

/-- What a creation does to a disk and to the marked names, and what it answers. -/
inductive Creation (root : String) (name : RepoName) (isPrivate : Bool) (d : Disk)
    (marks : List String) : Disk → List String → Except BackendError Repository → Prop where
  | refused (e : BackendError) : Creation root name isPrivate d marks d marks (.error e)
  | failed {path : RepoPath} {d' : Disk} (e : BackendError) (hname : name.isEmpty = false)
      (hpath : Confine.repoPath root name = .ok path) (hinit : Inits path.text d d') :
      Creation root name isPrivate d marks d' marks (.error e)
  | made {path : RepoPath} {d' : Disk} (hpublic : isPrivate = false) (hname : name.isEmpty = false)
      (hpath : Confine.repoPath root name = .ok path) (hinit : Inits path.text d d') :
      Creation root name isPrivate d marks d' marks (.ok ⟨name, path.text, false⟩)
  | marked {path : RepoPath} {d₁ d' : Disk} (hprivate : isPrivate = true)
      (hname : name.isEmpty = false) (hpath : Confine.repoPath root name = .ok path)
      (hinit : Inits path.text d d₁)
      (hmark : d₁.writeFile (join path.text marker) [] = .ok d') :
      Creation root name isPrivate d marks d' (name.text :: marks) (.ok ⟨name, path.text, true⟩)

/-- Where a pack operation may change what lies in the repository at a place. -/
def ServeAdds (target place : List FileName) (_ : Kind) : Prop := target <+: place ∧ place ≠ target

end Store

namespace Machine

variable {σ α β : Type}

/-- Runs a program on a machine. -/
def run (m : Machine σ) (p : OnHost α) (x : σ) : α × σ := p.run m.answer x

/-- Neither the disk nor the marked names change. -/
def Keeps (m : Machine σ) (x x' : σ) : Prop := m.disk x' = m.disk x ∧ m.marks x' = m.marks x

/-- A change of the disk alone, which is made or refused as the disk says. -/
def Makes (m : Machine σ) (change : Except OsError Disk) (x : σ) (r : Except OsError Unit)
    (x' : σ) : Prop :=
  m.marks x' = m.marks x ∧
    match change with
    | .ok d => r = .ok () ∧ m.disk x' = d
    | .error e => r = .error e ∧ m.disk x' = m.disk x

/-- What a machine keeps to. -/
structure IsLawful (m : Machine σ) : Prop where
  emit {e : LogEvent} {x x' : σ} (h : m.answer (.emit e) x = ((), x')) : m.Keeps x x'
  disk {d : Disk} {x x' : σ} (h : m.answer .disk x = (d, x')) : d = m.disk x ∧ m.Keeps x x'
  marks {names : List String} {x x' : σ} (h : m.answer .marks x = (names, x')) :
    names = m.marks x ∧ m.Keeps x x'
  lock {x x' : σ} (h : m.answer .lock x = ((), x')) : m.Keeps x x'
  unlock {x x' : σ} (h : m.answer .unlock x = ((), x')) : m.Keeps x x'
  mark {name : String} {x x' : σ} (h : m.answer (.mark name) x = ((), x')) :
    m.disk x' = m.disk x ∧ m.marks x' = name :: m.marks x
  restart (names : List String) (x : σ) :
    m.disk (m.restart names x) = m.disk x ∧ m.marks (m.restart names x) = names
  makeDirAll {path : String} {r : Except OsError Unit} {x x' : σ}
    (h : m.answer (.makeDirAll path) x = (r, x')) : m.Makes ((m.disk x).makeDirAll path) x r x'
  touch {path : String} {r : Except OsError Unit} {x x' : σ}
    (h : m.answer (.touch path) x = (r, x')) : m.Makes ((m.disk x).writeFile path []) x r x'
  /-- Where the directory above its path is there, making a repository keeps to that path. -/
  runGit {root raw : String} {path : RepoPath} {r : Except OsError Git.Report} {x x' : σ}
    (h : m.answer (.runGit (Store.initCall path.text)) x = (r, x')) (hsound : (m.disk x).IsSound)
    (hpath : Confine.repoPath root (RepoName.sanitize raw) = .ok path)
    (hparent : ∀ above, parent? path.text = some above →
      above = "" ∨ (m.disk x).isDir above = true) :
    m.marks x' = m.marks x ∧ Grows (Store.InitAdds (m.disk x') path.text) (m.disk x) (m.disk x')
  /-- A pack operation keeps to the repository that it serves, in which it may do anything but make
  links. -/
  exchange {pack : Git.PackService} {service : Git.Service} {path : RepoPath} {io : PackIo}
    {r : Except OsError Git.Exchange} {x x' : σ} {target : List FileName}
    (h : m.answer (.exchange (pack.call service path io.env) io) x = (r, x'))
    (htarget : (m.disk x).LeadsTo true path.text target) :
    m.marks x' = m.marks x ∧ Alters target (Store.ServeAdds target) (m.disk x) (m.disk x')

variable {m : Machine σ} {x x' : σ}

theorem Keeps.trans {x'' : σ} (h : m.Keeps x x') (h' : m.Keeps x' x'') : m.Keeps x x'' :=
  ⟨h'.1.trans h.1, h'.2.trans h.2⟩

/-- A change of the disk alone is refused, or made as the disk says. -/
theorem Makes.cases {change : Except OsError Disk} {r : Except OsError Unit}
    (h : m.Makes change x r x') : (∃ e, r = .error e) ∧ m.Keeps x x' ∨
      r = .ok () ∧ m.marks x' = m.marks x ∧ change = .ok (m.disk x') := by
  obtain ⟨hmarks, hmake⟩ := h
  cases change with
  | error e => exact .inl ⟨⟨e, hmake.1⟩, hmake.2, hmarks⟩
  | ok d => exact .inr ⟨hmake.1, hmarks, by rw [hmake.2]⟩

theorem run_pure_iff {a b : α} : m.run (pure a) x = (b, x') ↔ b = a ∧ x' = x := by
  rw [run, ← Prod.mk.injEq, eq_comm]
  rfl

theorem run_bind_iff {p : OnHost α} {f : α → OnHost β} {b : β} : m.run (p >>= f) x = (b, x') ↔
    ∃ a x₁, m.run p x = (a, x₁) ∧ m.run (f a) x₁ = (b, x') := by
  have hrun : m.run (p >>= f) x = m.run (f (m.run p x).1) (m.run p x).2 :=
    Program.run_bind m.answer p f x
  rw [hrun]
  constructor
  · exact fun h ↦ ⟨_, _, rfl, h⟩
  · rintro ⟨a, x₁, hp, h⟩
    rw [hp]
    exact h

/-! ## Creating -/

namespace IsLawful

variable {root raw : String} {path : RepoPath}

/-- Making the directory above a path changes nothing else, and it is there then. -/
theorem makeParent (hm : m.IsLawful) {r : Except Failure Unit} (hsound : (m.disk x).IsSound)
    (hpath : Confine.repoPath root (RepoName.sanitize raw) = .ok path)
    (h : m.run (Store.makeParent path.text) x = (r, x')) :
    m.marks x' = m.marks x ∧
      (m.disk x' = m.disk x ∨ ∃ above, parent? path.text = some above ∧
        (m.disk x).makeDirAll above = .ok (m.disk x')) ∧
      (r = .ok () → ∀ above, parent? path.text = some above →
        above = "" ∨ (m.disk x').isDir above = true) := by
  obtain ⟨cs, name, hcs, hname, hcomponents⟩ := Confine.exists_concat hpath
  have hparent : parent? path.text = some (render cs) := by
    rw [RepoPath.text, hcomponents]
    exact hcs.parent?_concat hname
  rw [Store.makeParent, hparent] at h
  obtain ⟨answer, x₁, hask, h⟩ := run_bind_iff.1 h
  obtain ⟨⟨e, rfl⟩, hdisk, hmarks⟩ | ⟨rfl, hmarks, hdirs⟩ := (hm.makeDirAll hask).cases
  · obtain ⟨rfl, rfl⟩ := run_pure_iff.1 h
    exact ⟨hmarks, .inl hdisk, by rintro ⟨⟩⟩
  · obtain ⟨rfl, rfl⟩ := run_pure_iff.1 h
    refine ⟨hmarks, .inr ⟨_, hparent, hdirs⟩, fun _ above habove ↦ ?_⟩
    cases hparent.symm.trans habove
    by_cases hempty : render cs = ""
    · exact .inl hempty
    · exact .inr (isDir_of_makeDirs hsound hempty (trimSlashes_render hcs) hdirs)

/-- The disk stays sound when a directory is made on it. -/
theorem isSound_of_makeDirAll {d d' : Disk} {above? : Option String} (hsound : d.IsSound)
    (h : d' = d ∨ ∃ above, above? = some above ∧ d.makeDirAll above = .ok d') : d'.IsSound := by
  rcases h with rfl | ⟨above, -, hmake⟩
  · exact hsound
  · exact hsound.grows (makeDirAll_grows hsound hmake)

/-- Making a repository, whether it works out or not. -/
theorem init (hm : m.IsLawful) {r : Except Failure Unit} (hsound : (m.disk x).IsSound)
    (hpath : Confine.repoPath root (RepoName.sanitize raw) = .ok path)
    (h : m.run (Store.init path.text) x = (r, x')) :
    m.marks x' = m.marks x ∧ Store.Inits path.text (m.disk x) (m.disk x') := by
  rw [Store.init] at h
  obtain ⟨made, x₁, hmade, h⟩ := run_bind_iff.1 h
  obtain ⟨hmarks, hdisk, hdir⟩ := hm.makeParent hsound hpath hmade
  cases made with
  | error e =>
    obtain ⟨rfl, rfl⟩ := run_pure_iff.1 h
    exact ⟨hmarks, _, hdisk, .refl _⟩
  | ok =>
    obtain ⟨report, x₂, hgit, h⟩ := run_bind_iff.1 h
    obtain ⟨rfl, rfl⟩ := run_pure_iff.1 h
    have hsound₁ := isSound_of_makeDirAll hsound hdisk
    obtain ⟨hmarks', hgrows⟩ := hm.runGit hgit hsound₁ hpath (hdir rfl)
    exact ⟨hmarks'.trans hmarks, _, hdisk, hgrows⟩

/-- Marking a repository private, on the disk first. -/
theorem markPrivate (hm : m.IsLawful) {name : RepoName} {r : Except Failure Unit}
    (h : m.run (Store.markPrivate name path) x = (r, x')) :
    m.Keeps x x' ∧ (∃ e, r = .error e) ∨
      r = .ok () ∧ m.marks x' = name.text :: m.marks x ∧
        (m.disk x).writeFile (join path.text Store.marker) [] = .ok (m.disk x') := by
  rw [Store.markPrivate] at h
  obtain ⟨touched, x₁, htouch, h⟩ := run_bind_iff.1 h
  obtain ⟨⟨e, rfl⟩, hkeeps⟩ | ⟨rfl, hmarks, hfile⟩ := (hm.touch htouch).cases
  · obtain ⟨rfl, rfl⟩ := run_pure_iff.1 h
    exact .inl ⟨hkeeps, _, rfl⟩
  · obtain ⟨_, x₂, hask, h⟩ := run_bind_iff.1 h
    obtain ⟨rfl, rfl⟩ := run_pure_iff.1 h
    obtain ⟨hdisk, hmarks'⟩ := hm.mark hask
    exact .inr ⟨rfl, by rw [hmarks', hmarks], by rw [hdisk, hfile]⟩

variable {name : RepoName} {isPrivate : Bool} {r : Except BackendError Repository}

/-- Making a repository that is not there. -/
theorem make (hm : m.IsLawful) (hsound : (m.disk x).IsSound) (hname : name = RepoName.sanitize raw)
    (hne : name.isEmpty = false) (hpath : Confine.repoPath root name = .ok path)
    (h : m.run (Store.make name path isPrivate) x = (r, x')) :
    Store.Creation root name isPrivate (m.disk x) (m.marks x) (m.disk x') (m.marks x') r := by
  subst hname
  rw [Store.make] at h
  obtain ⟨furnished, x₃, hfurnish, h⟩ := run_bind_iff.1 h
  rw [Store.furnish] at hfurnish
  obtain ⟨made, x₁, hinit, hfurnish⟩ := run_bind_iff.1 hfurnish
  obtain ⟨hmarks, hinits⟩ := hm.init hsound hpath hinit
  cases made with
  | error e =>
    obtain ⟨rfl, rfl⟩ := run_pure_iff.1 hfurnish
    obtain ⟨rfl, rfl⟩ := run_pure_iff.1 h
    rw [hmarks]
    exact .failed _ hne hpath hinits
  | ok =>
    cases isPrivate with
    | false =>
      obtain ⟨rfl, rfl⟩ := run_pure_iff.1 hfurnish
      obtain ⟨_, x₂, hemit, h⟩ := run_bind_iff.1 h
      obtain ⟨rfl, rfl⟩ := run_pure_iff.1 h
      obtain ⟨hdisk, hmarks'⟩ := hm.emit hemit
      rw [hmarks', hmarks, hdisk]
      exact .made rfl hne hpath hinits
    | true =>
      rcases hm.markPrivate hfurnish with ⟨⟨hdisk, hmarks'⟩, e, rfl⟩ | ⟨rfl, hmarks', hmark⟩
      · obtain ⟨rfl, rfl⟩ := run_pure_iff.1 h
        rw [hmarks', hmarks, hdisk]
        exact .failed _ hne hpath hinits
      · obtain ⟨_, x₂, hemit, h⟩ := run_bind_iff.1 h
        obtain ⟨rfl, rfl⟩ := run_pure_iff.1 h
        obtain ⟨hdisk, hkept⟩ := hm.emit hemit
        rw [hkept, hmarks', hmarks, hdisk]
        exact .marked rfl hne hpath hinits hmark

/-- A creation finds the repository there or is refused, and changes nothing, or makes it where it
was not once it has the lock and has looked. -/
theorem create_cases (hm : m.IsLawful) {s : Store}
    (h : m.run (s.create name isPrivate) x = (r, x')) :
    m.Keeps x x' ∧ (r = .error .alreadyExists ∨ ∃ e, r = .error (.other e)) ∨
      ∃ path d x₁ x₂, Confine.repoPath s.root name = .ok path ∧ name.isEmpty = false ∧
        Store.isBare (m.disk x) path.text = false ∧
        m.run (OnHost.ask .lock >>= fun _ ↦ OnHost.ask .disk) x = (d, x₁) ∧ m.Keeps x x₁ ∧
        m.run (Store.make name path isPrivate) x₁ = (r, x₂) ∧ m.Keeps x₂ x' := by
  rw [Store.create] at h
  split at h
  · obtain ⟨rfl, rfl⟩ := run_pure_iff.1 h
    exact .inl ⟨⟨rfl, rfl⟩, .inr ⟨_, rfl⟩⟩
  next hname =>
  obtain ⟨confined, x₁, hconfine, hrest⟩ := run_bind_iff.1 h
  rw [Store.confine] at hconfine
  cases hpath : Confine.repoPath s.root name with
  | error e =>
    rw [hpath] at hconfine
    obtain ⟨_, x₂, hemit, hconfine⟩ := run_bind_iff.1 hconfine
    obtain ⟨rfl, rfl⟩ := run_pure_iff.1 hconfine
    obtain ⟨rfl, rfl⟩ := run_pure_iff.1 hrest
    exact .inl ⟨hm.emit hemit, .inr ⟨_, rfl⟩⟩
  | ok path =>
    rw [hpath] at hconfine
    obtain ⟨rfl, rfl⟩ := run_pure_iff.1 hconfine
    obtain ⟨_, x₂, hlock, hrest⟩ := run_bind_iff.1 hrest
    obtain ⟨result, x₃, hcreate, hrest⟩ := run_bind_iff.1 hrest
    obtain ⟨_, x₄, hunlock, hrest⟩ := run_bind_iff.1 hrest
    obtain ⟨rfl, rfl⟩ := run_pure_iff.1 hrest
    rw [Store.createLocked] at hcreate
    obtain ⟨d, x₅, hask, hcreate⟩ := run_bind_iff.1 hcreate
    obtain ⟨hd, hlook⟩ := hm.disk hask
    have hkeeps := (hm.lock hlock).trans hlook
    split at hcreate
    · obtain ⟨rfl, rfl⟩ := run_pure_iff.1 hcreate
      exact .inl ⟨hkeeps.trans (hm.unlock hunlock), .inl rfl⟩
    · next hbare =>
      rw [hd, (hm.lock hlock).1] at hbare
      exact .inr ⟨path, d, x₅, x₃, rfl, Bool.eq_false_iff.2 hname, Bool.eq_false_iff.2 hbare,
        run_bind_iff.2 ⟨_, x₂, hlock, hask⟩, hkeeps, hcreate, hm.unlock hunlock⟩

/-- **What a creation does.**  It is refused, or fails after the git program was asked, or makes a
repository, and then marks it if it is private. -/
theorem create (hm : m.IsLawful) {s : Store} (hsound : (m.disk x).IsSound)
    (hname : name = RepoName.sanitize raw) (h : m.run (s.create name isPrivate) x = (r, x')) :
    Store.Creation s.root name isPrivate (m.disk x) (m.marks x) (m.disk x') (m.marks x') r := by
  rcases hm.create_cases h with ⟨⟨hdisk, hmarks⟩, hrefused⟩ |
    ⟨path, d, x₁, x₂, hpath, hne, -, -, ⟨hdisk, hmarks⟩, hmake, hdisk', hmarks'⟩
  · rw [hdisk, hmarks]
    obtain rfl | ⟨e, rfl⟩ := hrefused
    · exact .refused _
    · exact .refused _
  · rw [hdisk', hmarks', ← hdisk, ← hmarks]
    exact hm.make (by rwa [hdisk]) hname hne hpath hmake

end IsLawful

end Machine

/-! ## Looking -/

/-- Questions that change neither the disk nor the marked names. -/
def HostAsk.IsQuiet : HostAsk → Prop
  | .emit _ | .disk | .lock | .unlock | .marks => True
  | .makeDirAll _ | .touch _ | .runGit _ | .exchange _ _ | .mark _ => False

namespace Program

variable {α β : Type}

/-- A program on a host that asks only such questions. -/
abbrev IsQuiet (p : OnHost α) : Prop := p.Only HostAsk.IsQuiet

theorem isQuiet_pure (a : α) : IsQuiet (pure a : OnHost α) := .done a

theorem isQuiet_ask_bind {q : HostAsk} {f : q.Answer → OnHost α} (hq : q.IsQuiet)
    (hf : ∀ answer, IsQuiet (f answer)) : IsQuiet (OnHost.ask q >>= f) :=
  .ask hq hf

theorem isQuiet_bind {p : OnHost α} {f : α → OnHost β} (hp : IsQuiet p)
    (hf : ∀ a, IsQuiet (f a)) : IsQuiet (p >>= f) :=
  Only.bind hp hf

end Program

namespace Store

open Program

theorem isQuiet_report (events : List LogEvent) : IsQuiet (report events) := by
  induction events with
  | nil => exact isQuiet_pure ()
  | cons e events ih => exact isQuiet_ask_bind trivial fun _ ↦ ih

theorem isQuiet_confine (root : String) (name : RepoName) : IsQuiet (confine root name) := by
  unfold confine
  cases Confine.repoPath root name with
  | ok path => exact isQuiet_pure _
  | error e => exact isQuiet_ask_bind trivial fun _ ↦ isQuiet_pure _

theorem isQuiet_accessLevel (s : Store) (name : RepoName) (key : Option ClientKey) :
    IsQuiet (s.accessLevel name key) :=
  isQuiet_ask_bind trivial fun _ ↦ isQuiet_pure _

theorem isQuiet_lookup (s : Store) (name : RepoName) : IsQuiet (s.lookup name) := by
  refine isQuiet_bind (isQuiet_confine s.root name) fun confined ↦ ?_
  cases confined with
  | error e => exact isQuiet_pure _
  | ok path =>
    refine isQuiet_ask_bind trivial fun d ↦ ?_
    split
    · exact isQuiet_ask_bind trivial fun _ ↦ isQuiet_pure _
    · exact isQuiet_pure _

theorem isQuiet_listing (root : String) : IsQuiet (listing root) :=
  isQuiet_ask_bind trivial fun _ ↦ isQuiet_bind (isQuiet_report _) fun _ ↦ isQuiet_pure _

theorem isQuiet_list (s : Store) : IsQuiet s.list :=
  isQuiet_bind (isQuiet_listing s.root) fun _ ↦ isQuiet_pure _

theorem isQuiet_marked (root : String) (entries : List String) :
    IsQuiet (marked root entries) := by
  induction entries with
  | nil =>
    rw [marked]
    exact isQuiet_pure _
  | cons entry entries ih =>
    rw [marked]
    refine isQuiet_bind (isQuiet_confine root _) fun confined ↦ ?_
    cases confined with
    | error e => exact ih
    | ok path =>
      exact isQuiet_ask_bind trivial fun _ ↦ isQuiet_bind ih fun _ ↦ isQuiet_pure _

theorem isQuiet_openAt (root : String) (settings : AccessSettings) :
    IsQuiet (openAt root settings) := by
  unfold openAt
  cases Policy.ofSettings settings with
  | error e => exact isQuiet_pure _
  | ok policy =>
    refine isQuiet_bind (isQuiet_bind (isQuiet_listing root) fun names ↦ ?_) fun _ ↦
      isQuiet_pure _
    exact isQuiet_marked root names

end Store

/-! ## Making -/

/-- Questions that run no git program but one that makes a repository at one of some paths. -/
def HostAsk.Makes (paths : RepoPath → Prop) : HostAsk → Prop
  | .runGit call => ∃ p, paths p ∧ call = Store.initCall p.text
  | .exchange _ _ => False
  | _ => True

namespace Store

variable {paths : RepoPath → Prop} {path : RepoPath}

theorem only_makeParent (text : String) : (makeParent text).Only (HostAsk.Makes paths) := by
  unfold makeParent
  split
  · exact .done _
  · exact .ask trivial fun made ↦ by cases made <;> exact .done _

theorem only_init (h : paths path) : (init path.text).Only (HostAsk.Makes paths) := by
  refine (only_makeParent path.text).bind fun made ↦ ?_
  cases made with
  | error e => exact .done _
  | ok => exact .ask ⟨path, h, rfl⟩ fun _ ↦ .done _

theorem only_markPrivate (name : RepoName) (path : RepoPath) :
    (markPrivate name path).Only (HostAsk.Makes paths) := by
  refine .ask trivial fun touched ↦ ?_
  cases touched with
  | error e => exact .done _
  | ok => exact .ask trivial fun _ ↦ .done _

theorem only_furnish (h : paths path) (name : RepoName) (isPrivate : Bool) :
    (furnish name path isPrivate).Only (HostAsk.Makes paths) := by
  refine (only_init h).bind fun made ↦ ?_
  cases made with
  | error e => exact .done _
  | ok =>
    cases isPrivate with
    | false => exact .done _
    | true => exact only_markPrivate name path

theorem only_createLocked (h : paths path) (name : RepoName) (isPrivate : Bool) :
    (createLocked name path isPrivate).Only (HostAsk.Makes paths) := by
  refine .ask trivial fun d ↦ ?_
  change Program.Only _ (if isBare d path.text then _ else _)
  split
  · exact .done _
  · refine (only_furnish h name isPrivate).bind fun furnished ↦ ?_
    cases furnished with
    | error e => exact .done _
    | ok => exact .ask trivial fun _ ↦ .done _

/-- A creation runs the git program on the path of its name. -/
theorem only_create (s : Store) (name : RepoName) (isPrivate : Bool) :
    (s.create name isPrivate).Only
      (HostAsk.Makes fun p ↦ Confine.repoPath s.root name = .ok p) := by
  rw [create, confine]
  split
  · exact .done _
  · cases hpath : Confine.repoPath s.root name with
    | error e => exact .ask trivial fun _ ↦ .done _
    | ok path =>
      simp only [Except.ok.injEq]
      have hlocked : (createLocked name path isPrivate).Only (HostAsk.Makes (path = ·)) :=
        only_createLocked rfl name isPrivate
      exact .ask trivial fun _ ↦ hlocked.bind fun _ ↦ .ask trivial fun _ ↦ .done _

end Store

namespace Machine

open Program

variable {σ α β : Type} {m : Machine σ} {x x' : σ}

/-- What only looks leaves a lawful machine as it is, and gives what a host gives that shows one
disk and one list of marked names. -/
theorem IsLawful.quiet (hm : m.IsLawful) {p : OnHost α} {a : α} (hp : IsQuiet p)
    (h : m.run p x = (a, x')) :
    m.Keeps x x' ∧ Ends (Showing (m.disk x) (m.marks x)) p a := by
  induction hp generalizing x with
  | done b =>
    obtain ⟨rfl, rfl⟩ := run_pure_iff.1 h
    exact ⟨⟨rfl, rfl⟩, ends_done_iff.2 rfl⟩
  | @ask q next hquiet hnext ih =>
    cases hanswer : m.answer q x with
    | mk answer x₁ =>
      have hrun : m.run (next answer) x₁ = (a, x') := by
        rw [run, Program.run_ask, hanswer] at h
        exact h
      have hstep : m.Keeps x x₁ ∧ Showing (m.disk x) (m.marks x) q answer := by
        cases q with
        | emit e => exact ⟨hm.emit hanswer, trivial⟩
        | lock => exact ⟨hm.lock hanswer, trivial⟩
        | unlock => exact ⟨hm.unlock hanswer, trivial⟩
        | disk =>
          obtain ⟨hshown, hkeeps⟩ := hm.disk hanswer
          exact ⟨hkeeps, hshown⟩
        | marks =>
          obtain ⟨hshown, hkeeps⟩ := hm.marks hanswer
          exact ⟨hkeeps, hshown⟩
        | makeDirAll | touch | runGit | exchange | mark => exact hquiet.elim
      obtain ⟨hkeeps, hends⟩ := ih answer hrun
      rw [hstep.1.1, hstep.1.2] at hends
      exact ⟨hstep.1.trans hkeeps, ends_ask_iff.2 ⟨answer, hstep.2, hends⟩⟩

theorem IsLawful.keeps_of_answer (hm : m.IsLawful) {q : HostAsk} (hq : q.IsQuiet)
    {answer : q.Answer} (h : m.answer q x = (answer, x')) : m.Keeps x x' :=
  (hm.quiet (p := OnHost.ask q) (.ask hq fun _ ↦ .done _) h).1

/-- Opens a store, whose marked names are then the machine's. -/
def openStore (m : Machine σ) (root : String) (settings : AccessSettings) (x : σ) :
    Except Failure Store × σ :=
  match m.run (Store.openAt root settings) x with
  | (.ok (store, marks), x) => (.ok store, m.restart marks x)
  | (.error e, x) => (.error e, x)

/-- Opening a store finds the marks that lie on the disk, and changes nothing there. -/
theorem IsLawful.openStore (hm : m.IsLawful) {root : String} {settings : AccessSettings}
    {policy : Policy} (hpolicy : Policy.ofSettings settings = .ok policy) (x : σ) :
    (m.openStore root settings x).1 = .ok ⟨root, policy⟩ ∧
      m.disk (m.openStore root settings x).2 = m.disk x ∧
      m.marks (m.openStore root settings x).2 = Store.marksOn (m.disk x) root := by
  cases hrun : m.run (Store.openAt root settings) x with
  | mk r x₁ =>
    obtain ⟨⟨hdisk, -⟩, hends⟩ := hm.quiet (Store.isQuiet_openAt root settings) hrun
    rw [Store.ends_openAt_iff, hpolicy] at hends
    subst hends
    obtain ⟨hdisk', hmarks⟩ := hm.restart (Store.marksOn (m.disk x) root) x₁
    rw [Machine.openStore, hrun]
    exact ⟨rfl, hdisk'.trans hdisk, hmarks⟩

/-- The level that a store gives on a machine. -/
def level (m : Machine σ) (s : Store) (name : RepoName) (key : Option ClientKey) (x : σ) :
    AccessLevel :=
  (m.run (s.accessLevel name key) x).1

theorem IsLawful.level (hm : m.IsLawful) (s : Store) (name : RepoName) (key : Option ClientKey)
    (x : σ) : m.level s name key x = s.policy.level (m.marks x) name key := by
  cases hrun : m.run (s.accessLevel name key) x with
  | mk level x₁ =>
    obtain ⟨-, hends⟩ := hm.quiet (Store.isQuiet_accessLevel s name key) hrun
    obtain ⟨marks, hshown, hdone⟩ := ends_ask_iff.1 hends
    rw [Machine.level, hrun]
    obtain rfl : marks = m.marks x := hshown
    exact ends_done_iff.1 hdone

/-! ## Sessions -/

/-- A machine answers a list of questions to a store and a pack service, one after the other. -/
inductive Follows (m : Machine σ) (b : Backing) : List Call → σ → σ → Prop where
  | nil (x : σ) : Follows m b [] x x
  | cons {q : Ask} {answer : q.Answer} {t : List Call} {x x₁ x' : σ}
      (h : m.run (b.answer q) x = (answer, x₁)) (ht : Follows m b t x₁ x') :
      Follows m b (⟨q, answer⟩ :: t) x x'

variable {b : Backing}

theorem follows_nil_iff : m.Follows b [] x x' ↔ x' = x := by
  constructor
  · intro h
    cases h
    rfl
  · rintro rfl
    exact .nil x'

theorem follows_cons_iff {q : Ask} {answer : q.Answer} {t : List Call} :
    m.Follows b (⟨q, answer⟩ :: t) x x' ↔
      ∃ x₁, m.run (b.answer q) x = (answer, x₁) ∧ m.Follows b t x₁ x' := by
  constructor
  · intro h
    cases h with
    | cons hanswer ht => exact ⟨_, hanswer, ht⟩
  · rintro ⟨x₁, hanswer, ht⟩
    exact .cons hanswer ht

/-- A session on a machine has a transcript whose questions the machine answered in order. -/
theorem exists_follows {h : Handler α} {s s' : Session} {o : Except Crash α}
    (hrun : m.run (b.carryOut h s) x = ((o, s'), x')) :
    ∃ t, Handler.Does h s t o s' ∧ m.Follows b t x x' := by
  unfold Backing.carryOut at hrun
  unfold Handler.Does
  generalize h.run.run s = p at hrun
  generalize (o, s') = r at hrun
  induction p generalizing x with
  | done value =>
    obtain ⟨rfl, rfl⟩ := run_pure_iff.1 hrun
    exact ⟨[], .done _, .nil _⟩
  | ask q next ih =>
    obtain ⟨answer, x₁, hanswer, hrest⟩ := run_bind_iff.1 hrun
    obtain ⟨t, hruns, hfollows⟩ := ih answer hrest
    exact ⟨_, .ask answer hruns, .cons hanswer hfollows⟩

/-- What looks for a repository or asks for a level changes nothing. -/
theorem IsLawful.keeps_of_isQuiet (hm : m.IsLawful) {p : OnHost α} {f : α → β} {c : β}
    (hp : IsQuiet p) (h : m.run (do return f (← p)) x = (c, x')) : m.Keeps x x' := by
  obtain ⟨a, x₁, hrun, hrest⟩ := run_bind_iff.1 h
  obtain ⟨rfl, rfl⟩ := run_pure_iff.1 hrest
  exact (hm.quiet hp hrun).1

end Machine

end GitGateway
