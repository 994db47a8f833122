import GitGateway.Proofs.Foundings
import GitGateway.Proofs.Pushes

/-!
# What a session knows

Between two questions of a session others act on its host, so what it was shown need not be so any
more.  What it **knows** of the repository it names is what stays so whatever they do: that it holds
the lock of creations, that its repository is there, and, as long as it holds the lock, that it is
not.  What it is answered adds to that (`Knowledge.learn`).

A program is **guarded** if it asks nothing that its knowledge does not allow: it runs the git
program only while it holds the lock and knows that nothing is there, and starts a pack operation
only where it knows that there is a repository.  Others are no part of this; that knowledge stays
true among them is another matter.
-/

namespace GitGateway

open Path

/-- A question to the host with the answer it got. -/
abbrev HostCall := Sigma HostAsk.Answer

namespace HostCall

/-- Whether the git program made a repository. -/
def founds : HostCall → Bool
  | ⟨.runGit _, r⟩ => (Store.judgeInit r).isOk
  | _ => false

/-- Whether a step of a creation failed. -/
def fails : HostCall → Bool
  | ⟨.makeDirAll _, r⟩ => !r.isOk
  | ⟨.runGit _, r⟩ => !(Store.judgeInit r).isOk
  | _ => false

end HostCall

/-- Whether the repository that a session names is there. -/
def Store.isBareAt (d : Disk) (target : Option RepoPath) : Bool :=
  target.any fun path ↦ isBare d path.text

theorem Store.isBareAt_some (d : Disk) (path : RepoPath) :
    isBareAt d (some path) = isBare d path.text := rfl

/-- What a session knows, and what became of its own creation. -/
structure Knowledge where
  /-- It holds the lock of creations. -/
  holds : Bool := false
  /-- Whether its repository is there, if it knows. -/
  bare? : Option Bool := none
  /-- The directory above its repository is there. -/
  hasParent : Bool := false
  /-- It made its repository. -/
  founded : Bool := false
  /-- A step of its creation failed. -/
  failed : Bool := false
deriving DecidableEq, Repr

namespace Knowledge

/-- What is known after an answer.  That nothing is there is known only under the lock. -/
def learn (target : Option RepoPath) (k : Knowledge) : HostCall → Knowledge
  | ⟨.disk, d⟩ =>
    if Store.isBareAt d target then { k with bare? := some true }
    else if k.holds then { k with bare? := some false }
    else k
  | ⟨.lock, _⟩ => { k with holds := true }
  | ⟨.unlock, _⟩ => { k with holds := false, bare? := k.bare?.filter id }
  | ⟨.makeDirAll _, r⟩ =>
    { k with hasParent := k.hasParent || r.isOk, failed := k.failed || !r.isOk }
  | ⟨.runGit _, r⟩ =>
    let made := (Store.judgeInit r).isOk
    { k with
      bare? := if made then some true else k.bare?
      founded := k.founded || made
      failed := k.failed || !made }
  | _ => k

/-- What may be asked, for a creation or not. -/
def Allows (pack : Git.PackService) (target : Option RepoPath) (creates : Prop) (k : Knowledge) :
    HostAsk → Prop
  | .emit _ | .disk | .marks => True
  | .lock => k.holds = false
  | .unlock => k.holds = true
  | .makeDirAll above => ∃ path, target = some path ∧ parent? path.text = some above
  | .runGit call => creates ∧ k.holds = true ∧ k.bare? = some false ∧
    ∃ path, target = some path ∧ call = Store.initCall path.text ∧
      (k.hasParent = true ∨ parent? path.text = none)
  | .exchange call io => k.bare? = some true ∧
    ∃ service path, target = some path ∧ call = pack.call service path io.env
  | .touch _ | .mark _ => False

/-- An answer does not contradict what is known. -/
def Admits (target : Option RepoPath) (k : Knowledge) : HostCall → Prop
  | ⟨.disk, d⟩ => ∀ v, k.bare? = some v → Store.isBareAt d target = v
  | _ => True

variable {pack : Git.PackService} {target : Option RepoPath} {creates : Prop} {k : Knowledge}

theorem learn_disk_of_bare {d : Disk} (h : Store.isBareAt d target = true) :
    k.learn target ⟨.disk, d⟩ = { k with bare? := some true } := if_pos h

theorem learn_disk_of_idle {d : Disk} (h : Store.isBareAt d target = false)
    (hidle : k.holds = false) : k.learn target ⟨.disk, d⟩ = k := by
  simp [learn, h, hidle]

theorem learn_disk_of_holds {d : Disk} (h : Store.isBareAt d target = false)
    (hholds : k.holds = true) : k.learn target ⟨.disk, d⟩ = { k with bare? := some false } := by
  simp [learn, h, hholds]

theorem holds_learn_disk (d : Disk) : (k.learn target ⟨.disk, d⟩).holds = k.holds := by
  simp only [learn]
  split
  · rfl
  · split <;> rfl

theorem founded_learn (c : HostCall) : (k.learn target c).founded = (k.founded || c.founds) := by
  obtain ⟨q, answer⟩ := c
  cases q with
  | disk =>
    simp only [learn, HostCall.founds, Bool.or_false]
    split
    · rfl
    · split <;> rfl
  | _ => simp [learn, HostCall.founds]

theorem failed_learn (c : HostCall) : (k.learn target c).failed = (k.failed || c.fails) := by
  obtain ⟨q, answer⟩ := c
  cases q with
  | disk =>
    simp only [learn, HostCall.fails, Bool.or_false]
    split
    · rfl
    · split <;> rfl
  | _ => simp [learn, HostCall.fails]

theorem founded_foldl (events : List HostCall) :
    (events.foldl (learn target) k).founded = (k.founded || events.any HostCall.founds) := by
  induction events generalizing k with
  | nil => exact (Bool.or_false _).symm
  | cons c events ih => rw [List.foldl_cons, ih, founded_learn, List.any_cons, Bool.or_assoc]

theorem failed_foldl (events : List HostCall) :
    (events.foldl (learn target) k).failed = (k.failed || events.any HostCall.fails) := by
  induction events generalizing k with
  | nil => exact (Bool.or_false _).symm
  | cons c events ih => rw [List.foldl_cons, ih, failed_learn, List.any_cons, Bool.or_assoc]

/-- That a repository is there is not forgotten. -/
theorem bare?_learn {c : HostCall} (h : k.bare? = some true) (hadmits : k.Admits target c) :
    (k.learn target c).bare? = some true := by
  obtain ⟨q, answer⟩ := c
  cases q with
  | disk =>
    rw [learn_disk_of_bare (hadmits true h)]
  | unlock =>
    rw [learn, h]
    rfl
  | runGit =>
    rw [learn]
    simp [h]
  | _ => exact h

end Knowledge

/-! ## Guarded programs -/

section Guarded

variable (pack : Git.PackService) (target : Option RepoPath) (creates : Prop)

/-- A program asks only what is allowed by what is known, and ends as said, whatever it is answered
that does not contradict what is known. -/
def Guarded {α : Type} (post : α → Knowledge → Prop) :
    Program HostAsk HostAsk.Answer α → Knowledge → Prop
  | .done a, k => post a k
  | .ask q next, k => k.Allows pack target creates q ∧
    ∀ answer, k.Admits target ⟨q, answer⟩ →
      Guarded post (next answer) (k.learn target ⟨q, answer⟩)

variable {pack target creates} {α β : Type} {k : Knowledge}

theorem guarded_pure_iff {post : α → Knowledge → Prop} {a : α} :
    Guarded pack target creates post (pure a) k ↔ post a k := Iff.rfl

theorem guarded_ask_bind_iff {post : α → Knowledge → Prop} {q : HostAsk}
    {f : q.Answer → OnHost α} :
    Guarded pack target creates post (OnHost.ask q >>= f) k ↔
      k.Allows pack target creates q ∧ ∀ answer, k.Admits target ⟨q, answer⟩ →
        Guarded pack target creates post (f answer) (k.learn target ⟨q, answer⟩) := Iff.rfl

theorem guarded_bind_iff {post : β → Knowledge → Prop} {p : OnHost α} {f : α → OnHost β} :
    Guarded pack target creates post (p >>= f) k ↔
      Guarded pack target creates
        (fun a k' ↦ Guarded pack target creates post (f a) k') p k := by
  change Guarded pack target creates post (p.bind f) k ↔ _
  induction p generalizing k with
  | done a => exact Iff.rfl
  | ask q next ih =>
    exact and_congr_right fun _ ↦ forall_congr' fun answer ↦ imp_congr_right fun _ ↦ ih answer

theorem Guarded.mono {post post' : α → Knowledge → Prop} {p : OnHost α}
    (h : Guarded pack target creates post p k) (himp : ∀ a k', post a k' → post' a k') :
    Guarded pack target creates post' p k := by
  induction p generalizing k with
  | done a => exact himp a k h
  | ask q next ih => exact ⟨h.1, fun answer hadmits ↦ ih answer (h.2 answer hadmits)⟩

/-- A program goes on behind another one that ends as said. -/
theorem Guarded.bind {post : α → Knowledge → Prop} {post' : β → Knowledge → Prop} {p : OnHost α}
    {f : α → OnHost β} (h : Guarded pack target creates post p k)
    (hf : ∀ a k', post a k' → Guarded pack target creates post' (f a) k') :
    Guarded pack target creates post' (p >>= f) k :=
  guarded_bind_iff.2 (h.mono hf)

end Guarded

namespace Call

/-- How the knowledge behind an answer fits it and the knowledge before the question. -/
structure Fits (k : Knowledge) (c : Call) (k' : Knowledge) : Prop where
  idle : k'.holds = false
  finds : c.finds = true → k'.bare? = some true
  founded : k'.founded = (k.founded || c.founds)
  ends : c.1.creates = true → c.finds = true ∨ k'.failed = true
  plain : c.IsPlain
  firm : k.bare? = some true → c.IsFirm

end Call

/-! ## How questions are answered -/

section Answers

variable {pack : Git.PackService} {path : RepoPath} {creates : Prop} {k : Knowledge}

namespace Store

variable {name : RepoName}

theorem guarded_makeParent :
    Guarded pack (some path) creates (fun r k' ↦ k'.holds = k.holds ∧ k'.bare? = k.bare? ∧
      k'.founded = k.founded ∧ match r with
        | .ok () => k'.hasParent = true ∨ parent? path.text = none
        | .error _ => k'.failed = true) (makeParent path.text) k := by
  rw [makeParent]
  split
  · next hnone => exact ⟨rfl, rfl, rfl, .inr hnone⟩
  · next above habove =>
    refine ⟨⟨path, rfl, habove⟩, fun answer _ ↦ ?_⟩
    cases answer with
    | ok => exact ⟨rfl, rfl, rfl, .inl (Bool.or_true _)⟩
    | error e => exact ⟨rfl, rfl, rfl, Bool.or_true _⟩

/-- The git program is run only under the lock, where nothing is there. -/
theorem guarded_init (hcreates : creates) (hholds : k.holds = true) (hbare : k.bare? = some false) :
    Guarded pack (some path) creates (fun r k' ↦ k'.holds = true ∧ match r with
      | .ok () => k'.bare? = some true ∧ k'.founded = true
      | .error _ => k'.founded = k.founded ∧ k'.failed = true) (init path.text) k := by
  refine guarded_makeParent.bind fun made k₁ ⟨hholds₁, hbare₁, hfounded₁, hmade⟩ ↦ ?_
  cases made with
  | error e => exact ⟨hholds₁.trans hholds, hfounded₁, hmade⟩
  | ok =>
    refine guarded_ask_bind_iff.2 ⟨⟨hcreates, hholds₁.trans hholds, hbare₁.trans hbare, path, rfl,
      rfl, hmade⟩, fun report _ ↦ guarded_pure_iff.2 ⟨hholds₁.trans hholds, ?_⟩⟩
    cases hjudged : judgeInit report with
    | ok => simp [Knowledge.learn, hjudged, Except.isOk, Except.toBool]
    | error e => simp [Knowledge.learn, hjudged, hfounded₁, Except.isOk, Except.toBool]

theorem guarded_furnish (hcreates : creates) (hholds : k.holds = true)
    (hbare : k.bare? = some false) :
    Guarded pack (some path) creates (fun r k' ↦ k'.holds = true ∧ match r with
      | .ok () => k'.bare? = some true ∧ k'.founded = true
      | .error _ => k'.founded = k.founded ∧ k'.failed = true) (furnish name path false) k := by
  refine (guarded_init hcreates hholds hbare).bind fun made k' hmade ↦ ?_
  cases made with
  | error e => exact hmade
  | ok => exact hmade

/-- Under the lock a repository is made, or found, or a step of its creation fails. -/
theorem guarded_createLocked (hcreates : creates) (hholds : k.holds = true) :
    Guarded pack (some path) creates (fun r k' ↦ k'.holds = true ∧ match r with
      | .ok _ => k'.bare? = some true ∧ k'.founded = true
      | .error .alreadyExists => k'.bare? = some true ∧ k'.founded = k.founded
      | .error _ => k'.founded = k.founded ∧ k'.failed = true)
      (createLocked name path false) k := by
  refine guarded_ask_bind_iff.2 ⟨trivial, fun d hadmits ↦ ?_⟩
  rw [← isBareAt_some]
  cases hbare : isBareAt d (some path) with
  | true =>
    rw [if_pos rfl, Knowledge.learn_disk_of_bare hbare]
    exact ⟨hholds, rfl, rfl⟩
  | false =>
    rw [if_neg Bool.false_ne_true, Knowledge.learn_disk_of_holds hbare hholds]
    refine Guarded.bind (guarded_furnish (k := { k with bare? := some false }) hcreates hholds rfl)
      fun furnished k' hfurnished ↦ ?_
    cases furnished with
    | error e => exact hfurnished
    | ok => exact ⟨trivial, fun _ _ ↦ hfurnished⟩

end Store

namespace Backing

variable {b : Backing} {name : RepoName}

open Call (Fits)

theorem guarded_create (hcreates : creates) (hname : name.isEmpty = false)
    (hpath : Confine.repoPath b.store.root name = .ok path) (hidle : k.holds = false) :
    Guarded b.pack (some path) creates (fun answer k' ↦ Fits k ⟨.create name false, answer⟩ k')
      (b.answer (.create name false)) k := by
  have hcreate : b.store.create name false = (do
      OnHost.ask .lock
      let result ← Store.createLocked name path false
      OnHost.ask .unlock
      return result) := by
    rw [Store.create, hname, if_neg Bool.false_ne_true, Store.confine, hpath]
    rfl
  refine guarded_bind_iff.2 ?_
  rw [hcreate]
  refine guarded_ask_bind_iff.2 ⟨hidle, fun _ _ ↦ ?_⟩
  refine (Store.guarded_createLocked hcreates rfl).bind fun r k' hafter ↦ ?_
  obtain ⟨hholds, hr⟩ := hafter
  refine guarded_ask_bind_iff.2 ⟨hholds, fun _ _ ↦ ?_⟩
  rcases r with (_ | _ | cause) | r
  · exact ⟨rfl, by rintro ⟨⟩, hr.1.trans (Bool.or_false _).symm, fun _ ↦ .inr hr.2, trivial, fun _ ↦ trivial⟩
  · refine ⟨rfl, fun _ ↦ ?_, hr.2.trans (Bool.or_false _).symm, fun _ ↦ .inl rfl, trivial, fun _ ↦ trivial⟩
    simp [Knowledge.learn, hr.1]
  · exact ⟨rfl, by rintro ⟨⟩, hr.1.trans (Bool.or_false _).symm, fun _ ↦ .inr hr.2, trivial,
      fun _ ↦ trivial⟩
  · refine ⟨rfl, fun _ ↦ ?_, hr.2.trans (Bool.or_true _).symm, fun _ ↦ .inl rfl, trivial, fun _ ↦ trivial⟩
    simp [Knowledge.learn, hr.1]

theorem guarded_lookup (hpath : Confine.repoPath b.store.root name = .ok path)
    (hidle : k.holds = false) :
    Guarded b.pack (some path) creates (fun answer k' ↦ Fits k ⟨.lookup name, answer⟩ k')
      (b.answer (.lookup name)) k := by
  have hlookup : b.store.lookup name = (do
      if Store.isBare (← OnHost.ask .disk) path.text then
        return .ok ⟨name, path.text, b.store.policy.isPrivate (← OnHost.ask .marks) name⟩
      else return .error .notFound) := by
    rw [Store.lookup, Store.confine, hpath]
    rfl
  refine guarded_bind_iff.2 ?_
  rw [hlookup]
  refine guarded_ask_bind_iff.2 ⟨trivial, fun d hadmits ↦ ?_⟩
  rw [← Store.isBareAt_some]
  cases hbare : Store.isBareAt d (some path) with
  | true =>
    rw [if_pos rfl, Knowledge.learn_disk_of_bare hbare]
    exact ⟨trivial, fun _ _ ↦ ⟨hidle, fun _ ↦ rfl, (Bool.or_false _).symm, by rintro ⟨⟩,
      .inl ⟨_, rfl⟩, fun _ ↦ ⟨_, rfl⟩⟩⟩
  | false =>
    rw [if_neg Bool.false_ne_true, Knowledge.learn_disk_of_idle hbare hidle]
    refine ⟨hidle, by rintro ⟨⟩, (Bool.or_false _).symm, by rintro ⟨⟩, .inr rfl, fun hk ↦ ?_⟩
    cases hbare.symm.trans (hadmits true hk)

theorem guarded_serve {service : Git.Service} {io : PackIo} (hidle : k.holds = false) :
    Guarded b.pack (some path) creates (fun answer k' ↦ Fits k ⟨.serve service path io, answer⟩ k')
      (b.answer (.serve service path io)) k := by
  refine guarded_ask_bind_iff.2 ⟨trivial, fun d hadmits ↦ ?_⟩
  rw [← Store.isBareAt_some]
  cases hbare : Store.isBareAt d (some path) with
  | true =>
    rw [if_pos rfl, Knowledge.learn_disk_of_bare hbare]
    refine guarded_ask_bind_iff.2 ⟨⟨rfl, service, path, rfl, rfl⟩, fun r _ ↦ ?_⟩
    cases r with
    | error e => exact ⟨hidle, nofun, (Bool.or_false _).symm, nofun, trivial,
      fun _ ↦ ⟨.error e, rfl⟩⟩
    | ok x => exact ⟨hidle, nofun, (Bool.or_false _).symm, nofun, trivial,
      fun _ ↦ ⟨.ok x, rfl⟩⟩
  | false =>
    rw [if_neg Bool.false_ne_true, Knowledge.learn_disk_of_idle hbare hidle]
    refine ⟨hidle, nofun, (Bool.or_false _).symm, nofun, trivial, fun hk ↦ ?_⟩
    cases hbare.symm.trans (hadmits true hk)

/-- **Questions about a repository are answered by guarded programs**, and what is known afterwards
fits the answer. -/
theorem guarded_answer {target : Option RepoPath} {q : Ask} (hq : q.Concerns b.store.root target)
    (hidle : k.holds = false) :
    Guarded b.pack target (q.creates = true) (fun answer k' ↦ Fits k ⟨q, answer⟩ k')
      (b.answer q) k := by
  cases hq with
  | emit e =>
    exact ⟨trivial, fun _ _ ↦
      ⟨hidle, nofun, (Bool.or_false _).symm, nofun, trivial, fun _ ↦ trivial⟩⟩
  | accessLevel name key =>
    exact ⟨trivial, fun _ _ ↦
      ⟨hidle, nofun, (Bool.or_false _).symm, nofun, trivial, fun _ ↦ trivial⟩⟩
  | lookup hpath => exact guarded_lookup hpath hidle
  | create hpath hname => exact guarded_create rfl hname hpath hidle
  | serve service io => exact guarded_serve hidle

end Backing

end Answers

end GitGateway
