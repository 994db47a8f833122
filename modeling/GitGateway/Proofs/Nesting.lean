import GitGateway.Proofs.Aliases
import GitGateway.Proofs.Creations
import GitGateway.Proofs.Scripts

/-!
# Repositories inside repositories

A creation looks at its own path only, so it may put a repository below another one, or around
others.  What sessions and creations may do to a disk is told by the place that the name they are
about leads to: they add directories on the way to it and change things below it (`Touched`).  A
creation makes no other `HEAD` than its own; in a repository that a session is let into, the git
program may make any.  So the repositories that are there in the end are those that were there,
those that were asked for, and those that git made inside one that it worked in, and if the first
two kinds lie apart, only the last one is nested (`repositories_lie_apart_iff`).
-/

namespace GitGateway

open Disk Path Confine

namespace Store

variable {d d' : Disk} {root : String} {base target place : List FileName} {rest : List String}
variable {creates creates' serves serves' : Prop} {k : Kind}

/-- A directory at or below a place that holds a file `HEAD`. -/
def Holds (d : Disk) (base place : List FileName) : Prop :=
  base <+: place ∧ d.kindAt (place ++ [.text "HEAD"]) = some .file

/-- None of the places lies strictly below another one. -/
def Apart (places : List FileName → Prop) : Prop :=
  ∀ p q, places p → places q → p <+: q → p = q

/-- The place that a name leads to below the place of a root. -/
def LiesAt (root : String) (base : List FileName) (n : RepoName) (place : List FileName) : Prop :=
  ∃ rest, LiesAlong root n rest ∧ place = placeBelow base rest

/-- What may change about a repository at a place: things at and below it and, if it may be created,
directories on the way to it and its own `HEAD`.  Those below it may get one if git works in it. -/
def Touched (creates serves : Prop) (target place : List FileName) (k : Kind) : Prop :=
  (target <+: place ∨ creates ∧ k = .dir true ∧ place <+: target) ∧
    (k = .file → ∀ holder, place = holder ++ [.text "HEAD"] →
      creates ∧ holder = target ∨ serves ∧ target <+: holder ∧ holder ≠ target)

theorem Touched.mono (h : Touched creates serves target place k) (hcreates : creates → creates')
    (hserves : serves → serves') : Touched creates' serves' target place k :=
  ⟨h.1.imp_right fun ⟨hc, hk⟩ ↦ ⟨hcreates hc, hk⟩, fun hk holder hplace ↦
    (h.2 hk holder hplace).imp (And.imp_left hcreates) (And.imp_left hserves)⟩

/-- A pack operation touches its repository, whose own `HEAD` is there already. -/
theorem ServeAdds.touched (h : ServeAdds target place k)
    (hnew : k = .file → place ≠ target ++ [.text "HEAD"]) : Touched creates True target place k := by
  refine ⟨.inl h.1, fun hk holder hplace ↦ .inr ⟨trivial, ?_⟩⟩
  subst hplace
  rcases List.prefix_concat_iff.1 h.1 with heq | hbelow
  · exact absurd heq.symm h.2
  · exact ⟨hbelow, fun heq ↦ hnew hk (by rw [heq])⟩

/-- A creation touches its repository. -/
theorem Effect.alters {n : RepoName} {marks marks' : List String}
    (h : Effect root base n rest d marks d' marks') :
    Alters (placeBelow base rest) (Touched True False (placeBelow base rest)) d d' := by
  refine (h.grows.mono fun place k hnew ↦ ?_).alters _
  rcases hnew with hadds | ⟨rfl, rfl, -⟩
  · refine ⟨?_, fun hk holder hplace ↦ ?_⟩
    · cases hadds with
      | onWay h =>
        obtain ⟨hk, front, hfront, rfl⟩ := h
        exact .inr ⟨trivial, hk, (List.prefix_append_right_inj base).2 (hfront.map _)⟩
      | inside hbelow _ => exact .inl hbelow
      | head _ hplace => exact .inl (hplace ▸ List.prefix_append _ _)
    · subst hk hplace
      exact .inl ⟨trivial, hadds.eq_of_head.1⟩
  · refine ⟨.inl (List.prefix_append _ _), fun _ holder hplace ↦ ?_⟩
    exact absurd (List.append_inj' hplace rfl).2 (by decide)

/-- No repository appears but the one that is touched, where it is created, and those that git makes
below it. -/
theorem holds_of_alters (h : Alters target (Touched creates serves target) d d')
    (hholds : Holds d' base place) : Holds d base place ∨ creates ∧ place = target ∨
      serves ∧ target <+: place ∧ place ≠ target := by
  obtain ⟨hbase, hhead⟩ := hholds
  rcases h.new_of hhead with hold | ⟨-, hnew⟩
  · exact .inl ⟨hbase, hold⟩
  · exact .inr (hnew rfl place rfl)

/-- Nothing changes at or below a place that lies apart from the one that is touched. -/
theorem kindAt_of_alters {r : List FileName} (h : Alters target (Touched creates serves target) d d')
    (hr : ¬ r <+: target) (htarget : ¬ target <+: r) (hplace : r <+: place) :
    d'.kindAt place = d.kindAt place := by
  have hbelow : ¬ target <+: place := fun hbelow ↦
    (List.prefix_or_prefix_of_prefix hplace hbelow).elim hr htarget
  cases hafter : d'.kindAt place with
  | some k =>
    rcases h.new_of hafter with hold | ⟨hin | ⟨-, -, hway⟩, -⟩
    · exact hold.symm
    · exact absurd hin hbelow
    · exact absurd (hplace.trans hway) hr
  | none =>
    cases hold : d.kindAt place with
    | none => rfl
    | some k => exact hafter.symm.trans (h.kept (fun hin ↦ hbelow hin.1) hold)

end Store

/-! ## Sessions -/

/-- A question about one repository, which may be created if that is allowed. -/
inductive Ask.IsAbout (creates : Prop) (name : RepoName) (path : RepoPath) : Ask → Prop where
  | emit (e : LogEvent) : IsAbout creates name path (.emit e)
  | accessLevel (key : Option ClientKey) : IsAbout creates name path (.accessLevel name key)
  | lookup : IsAbout creates name path (.lookup name)
  | create (isPrivate : Bool) (h : creates) : IsAbout creates name path (.create name isPrivate)
  | serve (service : Git.Service) (io : PackIo) : IsAbout creates name path (.serve service path io)

namespace Dispatch

variable {service : Git.Service} {name : RepoName} {path : RepoPath} {s s' : Session}
variable {t : List Call}

theorem Ensures.isAbout {creates : Prop} {o : Except Crash (Except SessionError Unit)}
    (h : Ensures name t o) (hcreates : creates) : ∀ c ∈ t, c.1.IsAbout creates name path := by
  intro c hc
  rcases h.asks hc with hq | hq | ⟨r, hq⟩
  · exact hq ▸ .lookup
  · exact hq ▸ .create false hcreates
  · exact hq ▸ .emit _

/-- What is done for a request that was granted is about its repository, which only a push may
create. -/
theorem Carries.isAbout {o : Verdict} (h : Carries service name path s t o s') :
    ∀ c ∈ t, c.1.IsAbout (service = .receivePack) name path := by
  intro c hc
  cases h with
  | fetched _ served =>
    obtain rfl := List.mem_singleton.1 hc
    exact .serve service _
  | pushed h ht served =>
    rcases List.mem_append.1 hc with hc | hc
    · exact ht.isAbout h c hc
    · obtain rfl := List.mem_singleton.1 hc
      exact .serve service _
  | unprepared h ht | crashed h ht => exact ht.isAbout h c hc

end Dispatch

namespace Machine

variable {σ : Type} {m : Machine σ} {b : Backing} {x x' : σ} {base : List FileName}
variable {name : RepoName} {path : RepoPath} {rest : List String} {creates : Prop}

open Store Dispatch

section Touching

variable (hm : m.IsLawful) {raw : String} (hname : name = RepoName.sanitize raw)
variable (hpath : repoPath b.store.root name = .ok path)
variable (halong : LiesAlong b.store.root name rest)

include hm hpath halong

/-- A pack operation touches the repository that it serves. -/
theorem IsLawful.alters_serve {service : Git.Service} {io : PackIo} {served : Served}
    (hground : (m.disk x).IsGround b.store.root base)
    (h : m.run (b.pack.serve service path io) x = (served, x')) :
    Alters (placeBelow base rest) (Touched creates True (placeBelow base rest)) (m.disk x)
      (m.disk x') := by
  rw [Git.PackService.serve] at h
  obtain ⟨d, x₁, hdisk, h⟩ := run_bind_iff.1 h
  obtain ⟨rfl, hkept, -⟩ := hm.disk hdisk
  rw [← hkept] at hground ⊢
  split at h
  · next hbare =>
    obtain ⟨r, x₂, hexchange, h⟩ := run_bind_iff.1 h
    have hdir : (m.disk x₁).isDir path.text = true := by
      rw [hkept]
      exact (Bool.and_eq_true_iff.1 hbare).1
    obtain ⟨target, hleads, -⟩ := (isDir_iff hground.sound).1 hdir
    obtain ⟨-, halters⟩ := hm.exchange hexchange hleads
    rw [halong.text_eq hpath] at hleads hbare
    rw [← hkept] at hbare
    have hhead := kindAt_of_isBare hground halong hbare
    obtain ⟨hproper, init, last, rfl, -⟩ := halong.isDirectory
    rw [hground.eq_of_leadsTo hproper (by simp) hleads] at halters
    have hend : x' = x₂ := by
      cases r with
      | error e | ok exchange => exact (run_pure_iff.1 h).2
    rw [hend]
    refine halters.fresh.mono fun place k hadds ↦ hadds.1.touched ?_
    rintro rfl rfl
    exact hadds.2 hhead
  · obtain ⟨-, rfl⟩ := run_pure_iff.1 h
    exact .refl _ _ _

include hname

/-- Answering a question about a repository touches that repository. -/
theorem IsLawful.alters_answer {q : Ask} {answer : q.Answer} (hq : q.IsAbout creates name path)
    (hground : (m.disk x).IsGround b.store.root base)
    (h : m.run (b.answer q) x = (answer, x')) :
    Alters (placeBelow base rest) (Touched creates True (placeBelow base rest)) (m.disk x)
      (m.disk x') := by
  have hkeeps : m.Keeps x x' → Alters (placeBelow base rest)
      (Touched creates True (placeBelow base rest)) (m.disk x) (m.disk x') := by
    rintro ⟨hdisk, -⟩
    rw [hdisk]
    exact .refl _ _ _
  cases hq with
  | emit e => exact hkeeps (hm.emit h)
  | accessLevel key => exact hkeeps (hm.keeps_of_isQuiet (isQuiet_accessLevel b.store name key) h)
  | lookup => exact hkeeps (hm.keeps_of_isQuiet (isQuiet_lookup b.store name) h)
  | create isPrivate hcreates =>
    obtain ⟨r, x₁, hcreate, h⟩ := run_bind_iff.1 h
    obtain ⟨-, rfl⟩ := run_pure_iff.1 h
    rcases (hm.create hground.sound hname hcreate).effect hground with ⟨-, hdisk, hmarks⟩ | h
    · exact hkeeps ⟨hdisk, hmarks⟩
    · exact (h.2.2 rest halong).alters.mono fun _ _ htouched ↦
        htouched.mono (fun _ ↦ hcreates) fun _ ↦ trivial
  | serve service io => exact hm.alters_serve hpath halong hground h

/-- So do the answers to questions about it, one after the other. -/
theorem IsLawful.alters_follows {t : List Call} (ht : ∀ c ∈ t, c.1.IsAbout creates name path)
    (hground : (m.disk x).IsGround b.store.root base) (h : m.Follows b t x x') :
    Alters (placeBelow base rest) (Touched creates True (placeBelow base rest)) (m.disk x)
      (m.disk x') := by
  induction h with
  | nil x => exact .refl _ _ _
  | cons h _ ih =>
    have hfirst := hm.alters_answer hname hpath halong (ht _ List.mem_cons_self) hground h
    have hground' := hground.alters (hfirst.of_prefix (List.prefix_append _ _))
    exact hfirst.trans (ih (fun c hc ↦ ht c (List.mem_cons_of_mem _ hc)) hground')

end Touching

/-- **What a session touches.**  A session changes nothing, or it was granted the level that its
operation needs on the repository it names, and touches that one; only a push may create it. -/
theorem IsLawful.session (hm : m.IsLawful) (hroot : ∃ c ∈ normalize b.store.root, c ≠ .parent)
    (hground : (m.disk x).IsGround b.store.root base) (s : Session) :
    let x' := (m.run (b.carryOut (dispatch b.store.root) s) x).2
    m.Keeps x x' ∨ ∃ service name rest, Git.Request.ofWords s.command = .pack service name ∧
      LiesAlong b.store.root name rest ∧
      needed service ≤ b.store.policy.level (m.marks x) name s.key ∧
      Alters (placeBelow base rest) (Touched (service = .receivePack) True (placeBelow base rest))
        (m.disk x) (m.disk x') := by
  obtain ⟨⟨⟨o, s'⟩, x'⟩, hrun⟩ : ∃ r, m.run (b.carryOut (dispatch b.store.root) s) x = r := ⟨_, rfl⟩
  rw [hrun]
  obtain ⟨t, hdoes, hfollows⟩ := exists_follows hrun
  cases does_dispatch_iff.1 hdoes with
  | passed | unnamed =>
    rw [follows_nil_iff] at hfollows
    exact .inl (hfollows ▸ ⟨rfl, rfl⟩)
  | escaped =>
    obtain ⟨x₁, hemit, hnil⟩ := follows_cons_iff.1 hfollows
    rw [follows_nil_iff] at hnil
    exact .inl (hnil ▸ hm.emit hemit)
  | crashed | denied =>
    obtain ⟨x₁, hlevel, hnil⟩ := follows_cons_iff.1 hfollows
    rw [follows_nil_iff] at hnil
    exact .inl (hnil ▸ hm.keeps_of_isQuiet (isQuiet_accessLevel b.store _ s.key) hlevel)
  | @granted service name path level t o s' hwords hpath hne hlevel hcarries =>
    obtain ⟨x₁, hasked, hrest⟩ := follows_cons_iff.1 hfollows
    obtain ⟨answer, x₂, haccess, hdone⟩ := run_bind_iff.1 hasked
    obtain ⟨hanswer, rfl⟩ := run_pure_iff.1 hdone
    cases hanswer
    have hgiven : m.level b.store name s.key x = level := by rw [Machine.level, haccess]
    rw [hm.level] at hgiven
    obtain ⟨hdisk, -⟩ := (hm.quiet (isQuiet_accessLevel b.store name s.key) haccess).1
    obtain ⟨raw, -, hraw⟩ := Git.Request.exists_raw hwords
    obtain ⟨rest, halong⟩ := exists_liesAlong_of_root hroot hraw hpath
    refine .inr ⟨service, name, rest, hwords, halong, hgiven ▸ hlevel, ?_⟩
    have halters := hm.alters_follows hraw hpath halong hcarries.isAbout (hdisk ▸ hground) hrest
    rwa [hdisk] at halters

end Machine

/-! ## Sequences of actions -/

/-- What a gateway does that may make a repository. -/
inductive Action where
  | create (raw : String) (isPrivate : Bool)
  | session (s : Session)

/-- The repository that an action may make. -/
def Action.target? : Action → Option RepoName
  | .create raw _ => some (RepoName.sanitize raw)
  | .session s =>
    match Git.Request.ofWords s.command with
    | .pack .receivePack name => some name
    | _ => none

/-- The repository that an action may let git work in. -/
def Action.served? : Action → Option RepoName
  | .create _ _ => none
  | .session s =>
    match Git.Request.ofWords s.command with
    | .pack _ name => some name
    | _ => none

/-- A place strictly below that of a repository that git may have worked in for some actions. -/
def Store.LiesInside (root : String) (base : List FileName) (actions : List Action)
    (place : List FileName) : Prop :=
  ∃ a ∈ actions, ∃ name target, a.served? = some name ∧ Store.LiesAt root base name target ∧
    target <+: place ∧ place ≠ target

namespace Machine

variable {σ : Type} {m : Machine σ} {b : Backing} {x : σ} {base : List FileName}

open Store Dispatch

/-- Carries out an action on the store of a backing. -/
def act (m : Machine σ) (b : Backing) : Action → σ → σ
  | .create raw isPrivate, x => (m.run (b.store.create (RepoName.sanitize raw) isPrivate) x).2
  | .session s, x => (m.run (b.carryOut (dispatch b.store.root) s) x).2

/-- Carries out actions, one after the other. -/
def acts (m : Machine σ) (b : Backing) : List Action → σ → σ
  | [], x => x
  | a :: actions, x => m.acts b actions (m.act b a x)

section Actions

variable (hm : m.IsLawful) (hroot : ∃ c ∈ normalize b.store.root, c ≠ .parent)
variable (hground : (m.disk x).IsGround b.store.root base)

include hm hroot hground

/-- A creation adds to the disk and touches its repository, if it does anything. -/
theorem IsLawful.act_create (raw : String) (isPrivate : Bool) :
    let x' := m.act b (.create raw isPrivate) x
    m.disk x' = m.disk x ∨ ∃ rest, LiesAlong b.store.root (RepoName.sanitize raw) rest ∧
      (∃ new, Grows new (m.disk x) (m.disk x')) ∧
      Alters (placeBelow base rest) (Touched True False (placeBelow base rest)) (m.disk x)
        (m.disk x') := by
  intro x'
  cases hrun : m.run (b.store.create (RepoName.sanitize raw) isPrivate) x with
  | mk r x₁ =>
    have hx' : x' = x₁ := congrArg Prod.snd hrun
    rw [hx']
    rcases (hm.create hground.sound rfl hrun).effect hground with
      ⟨-, hdisk, -⟩ | ⟨-, ⟨path, hpath⟩, heffect⟩
    · exact .inl hdisk
    · obtain ⟨rest, halong⟩ := exists_liesAlong_of_root hroot rfl hpath
      have h := heffect rest halong
      exact .inr ⟨rest, halong, ⟨_, h.grows⟩, h.alters⟩

/-- **What an action touches**: nothing, or one repository, which it may create only if it is the
action's target, and in which git works only if it is let in. -/
theorem IsLawful.act_alters (a : Action) : m.disk (m.act b a x) = m.disk x ∨
    ∃ name rest, LiesAlong b.store.root name rest ∧
      Alters (placeBelow base rest)
        (Touched (a.target? = some name) (a.served? = some name) (placeBelow base rest))
        (m.disk x) (m.disk (m.act b a x)) := by
  cases a with
  | create raw isPrivate =>
    rcases hm.act_create hroot hground raw isPrivate with hdisk | ⟨rest, halong, -, halters⟩
    · exact .inl hdisk
    · exact .inr ⟨_, rest, halong, halters.mono fun _ _ h ↦ h.mono (fun _ ↦ rfl) False.elim⟩
  | session s =>
    rcases hm.session hroot hground s with ⟨hdisk, -⟩ | ⟨service, name, rest, hwords, halong, -, h⟩
    · exact .inl hdisk
    · refine .inr ⟨name, rest, halong, h.mono fun _ _ h ↦ h.mono ?_ fun _ ↦ ?_⟩
      · rintro rfl
        rw [Action.target?, hwords]
      · rw [Action.served?, hwords]

theorem IsLawful.isGround_act (a : Action) : (m.disk (m.act b a x)).IsGround b.store.root base := by
  rcases hm.act_alters hroot hground a with hdisk | ⟨name, rest, -, halters⟩
  · rwa [hdisk]
  · exact hground.alters (halters.of_prefix (List.prefix_append _ _))

/-- The repositories after an action were there, are its target, or lie inside the one that git
worked in. -/
theorem IsLawful.holds_act (a : Action) {place : List FileName}
    (h : Holds (m.disk (m.act b a x)) base place) : Holds (m.disk x) base place ∨
      (∃ name, a.target? = some name ∧ LiesAt b.store.root base name place) ∨
        LiesInside b.store.root base [a] place := by
  rcases hm.act_alters hroot hground a with hdisk | ⟨name, rest, halong, halters⟩
  · rw [hdisk] at h
    exact .inl h
  · rcases holds_of_alters halters h with h | ⟨htarget, rfl⟩ | ⟨hserved, hinside⟩
    · exact .inl h
    · exact .inr (.inl ⟨name, htarget, rest, halong, rfl⟩)
    · exact .inr (.inr ⟨a, List.mem_cons_self, name, _, hserved, ⟨rest, halong, rfl⟩, hinside⟩)

/-- The repositories after some actions were there, are targets of them, or lie inside those that
git worked in. -/
theorem IsLawful.holds_acts (actions : List Action) :
    (m.disk (m.acts b actions x)).IsGround b.store.root base ∧
      ∀ {place}, Holds (m.disk (m.acts b actions x)) base place →
        (Holds (m.disk x) base place ∨
          ∃ a ∈ actions, ∃ name, a.target? = some name ∧ LiesAt b.store.root base name place) ∨
        LiesInside b.store.root base actions place := by
  induction actions generalizing x with
  | nil => exact ⟨hground, fun h ↦ .inl (.inl h)⟩
  | cons a actions ih =>
    obtain ⟨hground', hrest⟩ := ih (hm.isGround_act hroot hground a)
    refine ⟨hground', fun {place} h ↦ ?_⟩
    rcases hrest h with (h | ⟨a', ha', hname⟩) | ⟨a', ha', hinside⟩
    · rcases hm.holds_act hroot hground a h with h | hname | ⟨a', ha', hinside⟩
      · exact .inl (.inl h)
      · exact .inl (.inr ⟨a, List.mem_cons_self, hname⟩)
      · exact .inr ⟨a', List.mem_cons.2 (.inl (List.mem_singleton.1 ha')), hinside⟩
    · exact .inl (.inr ⟨a', List.mem_cons_of_mem _ ha', hname⟩)
    · exact .inr ⟨a', List.mem_cons_of_mem _ ha', hinside⟩

/-- Where a creation leaves a repository, there are the old ones and this one. -/
theorem IsLawful.holds_act_create_iff {raw : String} {isPrivate : Bool} {rest : List String}
    (halong : LiesAlong b.store.root (RepoName.sanitize raw) rest)
    (hbare : isBare (m.disk (m.act b (.create raw isPrivate) x)) (below b.store.root rest) = true)
    (place : List FileName) :
    Holds (m.disk (m.act b (.create raw isPrivate) x)) base place ↔
      Holds (m.disk x) base place ∨ place = placeBelow base rest := by
  have hground' := hm.isGround_act hroot hground (.create raw isPrivate)
  constructor
  · intro h
    refine (hm.holds_act hroot hground _ h).imp_right ?_
    rintro (⟨name, hname, rest', halong', rfl⟩ | ⟨a, ha, name, -, hserved, -⟩)
    · have hsame : RepoName.sanitize raw = name := Option.some.inj hname
      rw [hsame] at halong
      rw [halong.unique halong']
    · obtain rfl := List.mem_singleton.1 ha
      cases hserved
  · rintro (h | rfl)
    · rcases hm.act_create hroot hground raw isPrivate with hdisk | ⟨-, -, ⟨new, hgrows⟩, -⟩
      · rw [hdisk]
        exact h
      · exact ⟨h.1, hgrows.kept h.2⟩
    · exact ⟨List.prefix_append _ _, kindAt_of_isBare hground' halong hbare⟩

/-- **Repositories inside repositories.**  After any actions, the repositories below the root were
there, are targets of the actions, or lie inside a repository that git worked in for a session.  If
all of the first two kinds lie apart, then a repository that lies below another one is of the third
kind: the gateway nests none of its own.

They need not lie apart.  When a creation leaves a repository in a store whose repositories lie
apart, they still do exactly if none of them lies strictly below or above the new one.  And a
session that changes anything was granted the level that its operation needs on the repository it
names, adds things at and below it only or, for a push, directories on the way to it, and changes
nothing below any directory that lies apart from it; whose repositories are passed on that way is
not asked. -/
theorem repositories_lie_apart_iff (actions : List Action) :
    let root := b.store.root
    let y := m.acts b actions x
    let held := Holds (m.disk y) base
    let expected place := Holds (m.disk x) base place ∨
      ∃ a ∈ actions, ∃ name, a.target? = some name ∧ LiesAt root base name place
    (∀ place, held place → expected place ∨ LiesInside root base actions place) ∧
    (Apart expected → ∀ p q, held p → held q → p <+: q → p = q ∨ LiesInside root base actions q) ∧
    (∀ raw isPrivate rest, LiesAlong root (RepoName.sanitize raw) rest →
      let z := m.act b (.create raw isPrivate) y
      isBare (m.disk z) (below root rest) = true → Apart held →
        (Apart (Holds (m.disk z) base) ↔ ∀ place, held place →
          place <+: placeBelow base rest ∨ placeBelow base rest <+: place →
            place = placeBelow base rest)) ∧
    ∀ s, let z := m.act b (.session s) y
      m.disk z = m.disk y ∨ ∃ service name rest, Git.Request.ofWords s.command = .pack service name ∧
        LiesAlong root name rest ∧
        needed service ≤ b.store.policy.level (m.marks y) name s.key ∧
        (∀ place k, (m.disk z).kindAt place = some k → (m.disk y).kindAt place = some k ∨
          placeBelow base rest <+: place ∨
            service = .receivePack ∧ k = .dir true ∧ place <+: placeBelow base rest) ∧
        ∀ r, ¬ r <+: placeBelow base rest → ¬ placeBelow base rest <+: r →
          ∀ place, r <+: place → (m.disk z).kindAt place = (m.disk y).kindAt place := by
  intro root y held expected
  obtain ⟨hground', hholds⟩ := hm.holds_acts hroot hground actions
  refine ⟨fun place ↦ hholds, fun h p q hp hq hpq ↦ ?_, ?_, fun s ↦ ?_⟩
  · rcases hholds hq with hq | hq
    · rcases hholds hp with hp | ⟨a, ha, name, target, hserved, hlies, hbelow, hne⟩
      · exact .inl (h p q hp hq hpq)
      · -- what lies below a place inside a repository lies inside it, too
        refine .inr ⟨a, ha, name, target, hserved, hlies, hbelow.trans hpq, ?_⟩
        rintro rfl
        exact hne (hpq.eq_of_length (Nat.le_antisymm hpq.length_le hbelow.length_le))
    · exact .inr hq
  · intro raw isPrivate rest halong z hbare hapart
    have hiff := hm.holds_act_create_iff hroot hground' halong hbare
    constructor
    · intro h place hplace hcomparable
      have hold := (hiff place).2 (.inl hplace)
      have hnew := (hiff _).2 (.inr rfl)
      rcases hcomparable with hbelow | habove
      · exact h _ _ hold hnew hbelow
      · exact (h _ _ hnew hold habove).symm
    · intro h p q hp hq hpq
      rcases (hiff p).1 hp with hp | rfl <;> rcases (hiff q).1 hq with hq | rfl
      · exact hapart p q hp hq hpq
      · exact h p hp (.inl hpq)
      · exact (h q hq (.inr hpq)).symm
      · rfl
  · rcases hm.session hroot hground' s with
      ⟨hdisk, -⟩ | ⟨service, name, rest, hwords, halong, hlevel, halters⟩
    · exact .inl hdisk
    · refine .inr ⟨service, name, rest, hwords, halong, hlevel, fun place k hafter ↦ ?_, ?_⟩
      · exact (halters.new_of hafter).imp_right And.left
      · exact fun r hr htarget place hplace ↦ kindAt_of_alters halters hr htarget hplace

end Actions

end Machine

namespace Scripted

open Host Store

theorem not_holds_fresh {place : List FileName} : ¬ Holds fresh.disk shelfPlace place := by
  rintro ⟨⟨rest, rfl⟩, hhead⟩
  rw [List.append_assoc, kindAt_fresh (by simp)] at hhead
  cases hhead

/-- A store that everybody may push to. -/
def Host.sharedBacking : Backing := ⟨⟨"/srv/repos", ⟨.readWrite, true, [], [], []⟩⟩, {}⟩

/-- A push to one directory makes a repository beside a private one in another directory.  Nothing
is nested then but what git may make inside the repository that it was pushed to. -/
theorem repositories_beside_each_other :
    let push : Session := { command := ["git-receive-pack", "team/y"] }
    let actions := [.create "x" true, .session push]
    let z := machine.acts sharedBacking actions fresh
    let held := Holds (machine.disk z) shelfPlace
    isBare z.disk "/srv/repos/x.git" = true ∧ isBare z.disk "/srv/repos/team/y.git" = true ∧
      ∀ p q, held p → held q → p <+: q → p = q ∨ LiesInside "/srv/repos" shelfPlace actions q := by
  intro push actions z held
  obtain ⟨-, hapart, -⟩ := Machine.repositories_lie_apart_iff (b := sharedBacking) (x := fresh)
    isLawful_machine ⟨.root, by decide, by decide⟩ isGround_fresh actions
  have hmade : isBare z.disk "/srv/repos/x.git" = true ∧
      isBare z.disk "/srv/repos/team/y.git" = true := by decide +kernel
  refine ⟨hmade.1, hmade.2, hapart ?_⟩
  have hx : LiesAlong "/srv/repos" (RepoName.sanitize "x") ["x.git"] :=
    ⟨⟨by decide, [], "x.git", rfl, by decide⟩, by decide +kernel⟩
  have hy : LiesAlong "/srv/repos" (RepoName.sanitize "team/y") ["team", "y.git"] :=
    ⟨⟨by decide, ["team"], "y.git", rfl, by decide⟩, by decide +kernel⟩
  have hcreate : (Action.create "x" true).target? = some (RepoName.sanitize "x") := rfl
  have hpush : (Action.session push).target? = some (RepoName.sanitize "team/y") := by
    decide +kernel
  have hplaces : ∀ place, (Holds fresh.disk shelfPlace place ∨
      ∃ a ∈ actions, ∃ name, Action.target? a = some name ∧
        LiesAt "/srv/repos" shelfPlace name place) →
      place = placeBelow shelfPlace ["x.git"] ∨ place = placeBelow shelfPlace ["team", "y.git"] := by
    rintro place (h | ⟨a, ha, name, hname, rest, halong, rfl⟩)
    · exact absurd h not_holds_fresh
    · rcases List.mem_cons.1 ha with rfl | ha
      · rw [hcreate] at hname
        rw [← Option.some.inj hname] at halong
        exact .inl (by rw [hx.unique halong])
      · obtain rfl := List.mem_singleton.1 ha
        rw [hpush] at hname
        rw [← Option.some.inj hname] at halong
        exact .inr (by rw [hy.unique halong])
  intro p q hp hq hpq
  rcases hplaces p hp with rfl | rfl <;> rcases hplaces q hq with rfl | rfl
  · rfl
  · exact absurd hpq (by decide)
  · exact absurd hpq (by decide)
  · rfl

/-- Everybody may push to a new repository inside a private one that nobody else may read. -/
theorem pushed_inside_private_repository :
    let push : Session := { command := ["git-receive-pack", "a.git/b"] }
    let y := machine.acts sharedBacking [.create "a" true] fresh
    let z := machine.acts sharedBacking [.create "a" true, .session push] fresh
    Apart (Holds (machine.disk fresh) shelfPlace) ∧
      machine.level sharedBacking.store (RepoName.sanitize "a") push.key y = .noAccess ∧
      y.disk.exists? "/srv/repos/a.git/b.git" = false ∧
      isBare z.disk "/srv/repos/a.git" = true ∧ isBare z.disk "/srv/repos/a.git/b.git" = true ∧
      ¬ Apart (Holds (machine.disk z) shelfPlace) := by
  intro push y z
  have hbefore : machine.level sharedBacking.store (RepoName.sanitize "a") push.key y = .noAccess ∧
      y.disk.exists? "/srv/repos/a.git/b.git" = false := by decide +kernel
  have hafter : isBare z.disk "/srv/repos/a.git" = true ∧
      isBare z.disk "/srv/repos/a.git/b.git" = true ∧
      (machine.disk z).kindAt (placeBelow shelfPlace ["a.git"] ++ [.text "HEAD"]) = some .file ∧
      (machine.disk z).kindAt (placeBelow shelfPlace ["a.git", "b.git"] ++ [.text "HEAD"]) =
        some .file := by
    decide +kernel
  obtain ⟨houter, hinner, hhead, hhead'⟩ := hafter
  refine ⟨fun p q hp ↦ absurd hp not_holds_fresh, hbefore.1, hbefore.2, houter, hinner, fun h ↦ ?_⟩
  have hnested := h (placeBelow shelfPlace ["a.git"]) (placeBelow shelfPlace ["a.git", "b.git"])
    ⟨by decide, hhead⟩ ⟨by decide, hhead'⟩ (by decide)
  exact absurd hnested (by decide)

end Scripted

end GitGateway
