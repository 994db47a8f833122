import GitGateway.Proofs.Crews
import GitGateway.Proofs.Removals

/-!
# Exposures of private repositories

A repository that is created private is made first and marked afterwards, on the disk and then in
the gateway's memory, and whoever looks a name up or asks for a level does not wait for the lock of
creations.  So work on a host is followed question by question here, with any number of others
looking at the host in between (`Machine.UnderWay`).  The host may refuse each change of its disk,
also for reasons that the disk does not show (`Machine.Replies`).

What such work has come to can be read off its transcript (`Machine.Advances`): a repository is
there if it was or the git program left it, whatever that program reported, and its name is marked
if it was or the work marked it.  Both add up along a transcript, so rules like those for triples
carry them through a program (`Machine.Proceeds`), one for an end, one for a question and one for a
sequence.  Links may lie anywhere in the store: the directories that are made above a repository are
new and empty, so no repository comes about through them (`Store.isBare_makeDirAll`).

At every point of a private creation the repository is **exposed** to an identity that neither is an
administrator nor collaborates exactly if it is there, the name has not been marked and the identity
had a level on it before (`Machine.private_creation_exposes_iff`).  A creation that succeeds marks
the name, so it hides the repository in the end; one that fails never does.
-/

namespace GitGateway

open Disk Path

/-! ## Making directories where there are links -/

/-- A resolved path ends in a name, is the root alone, or goes up only. -/
theorem Path.IsResolved.cases_concat {cs : List Component} (h : IsResolved cs) :
    (∃ above name, IsResolved above ∧ IsProper name ∧ cs = above ++ [.normal name]) ∨
      cs = [.root] ∨ ∃ up, cs = List.replicate up .parent := by
  cases h with
  | @absolute names hnames =>
    rcases names.eq_nil_or_concat' with rfl | ⟨init, name, rfl⟩
    · exact .inr (.inl rfl)
    · have hinit : ∀ n ∈ init, IsProper n := fun n hn ↦ hnames n (List.mem_append_left _ hn)
      exact .inl ⟨_, name, .absolute hinit, hnames name (by simp), by simp⟩
  | @relative up names hnames =>
    rcases names.eq_nil_or_concat' with rfl | ⟨init, name, rfl⟩
    · exact .inr (.inr ⟨up, by simp [walk]⟩)
    · have hinit : ∀ n ∈ init, IsProper n := fun n hn ↦ hnames n (List.mem_append_left _ hn)
      have habove : IsResolved (walk up init) := .relative hinit
      exact .inl ⟨_, name, habove, hnames name (by simp), by simp [walk]⟩

namespace Disk

variable {d d' : Disk} {last : Bool} {links : Nat} {here place : List FileName} {todo : List Step}
variable {cs : List Component} {name : String}

/-- Steps up reach a directory. -/
theorem exists_reaches_of_replicate (hhere : d.IsDirAt here.reverse) (up : Nat) :
    ∃ place, d.Reaches last links here (List.replicate up .up) place ∧ d.IsDirAt place := by
  induction up generalizing here with
  | zero => exact ⟨_, .here, hhere⟩
  | succ up ih =>
    obtain ⟨place, hreaches, hdir⟩ := ih hhere.tail
    exact ⟨place, .up hreaches, hdir⟩

/-- Resolved paths are read as they were written, and the root as staying there. -/
theorem reaches_render_iff (h : IsResolved cs) (hne : cs ≠ []) :
    d.Reaches last links here (steps (render cs)) place ↔
      d.Reaches last links here (cs.filterMap step?) place := by
  by_cases hroot : cs = [.root]
  · subst hroot
    have hstay : steps (render [.root]) = [.stay] := by decide
    rw [hstay]
    refine ⟨fun hreaches ↦ ?_, .stay⟩
    cases hreaches with
    | stay hreaches => exact hreaches
  · rw [steps_render h hne hroot]

/-- A directory that a path leads to holds nothing. -/
def LeadsToEmpty (d : Disk) (p : String) : Prop :=
  ∃ place, d.LeadsTo true p place ∧ d.IsDirAt place ∧ ∀ name, d.kindAt (place ++ [name]) = none

/-- Below an empty directory there is no directory. -/
theorem LeadsToEmpty.isDir_eq_false (h : d.LeadsToEmpty (render cs)) (hsound : d.IsSound)
    (hcs : IsResolved cs) (hname : IsProper name) :
    d.isDir (render (cs ++ [.normal name])) = false := by
  obtain ⟨place, hleads, hdir, hempty⟩ := h
  refine Bool.eq_false_iff.2 fun hthere ↦ ?_
  obtain ⟨other, hother, r, hr⟩ := (isDir_iff hsound).1 hthere
  have hne : cs ≠ [] := by
    rintro rfl
    exact hleads.ne_empty rfl
  have hconcat := hcs.concat hname
  have hstart : d.start (render (cs ++ [.normal name])) = d.start (render cs) := by
    rw [Disk.start, Disk.start, isAbsolute_render hcs, isAbsolute_render hconcat,
      List.head?_append_of_ne_nil _ hne]
  have hreaches := (reaches_render_iff hconcat (by simp)).1 hother.reaches
  obtain ⟨n, hn⟩ := ((reaches_render_iff hcs hne).1 hleads.reaches).append_iff hdir
  rw [hstart, List.filterMap_append] at hreaches
  -- behind the empty directory there is one step down, and nothing that it could lead to
  generalize hrest : [Component.normal name].filterMap step? = rest at hreaches
  have hdown : rest = [.down (.text name)] := hrest.symm
  subst hdown
  have hlast := (hn true _ other (by simp)).1 hreaches
  have hnone := hempty (.text name)
  rw [← List.reverse_reverse place] at hnone
  cases hlast with
  | down _ hkind => cases hnone.symm.trans hkind
  | through _ hkind => cases hnone.symm.trans hkind
  | stop => cases hnone.symm.trans hr

/-- A directory that was just made is empty. -/
theorem leadsToEmpty_of_makeDir {p : String} (hsound : d.IsSound) (htrim : trimSlashes p = p)
    (h : d.makeDir p = .ok d') : d'.LeadsToEmpty p := by
  obtain ⟨place, hleads, hnone, ⟨r, hr⟩, hgrows⟩ := makeDir_eq_ok hsound h
  rw [htrim] at hleads
  have hafter := hleads.grows hgrows
  refine ⟨place, ⟨hafter.nul_notMem, hafter.ne_empty, hafter.size_lt,
    hafter.reaches.last_true ?_⟩, ⟨r, hr⟩, fun name ↦ ?_⟩
  · rw [hr]
    rintro target ⟨⟩
  · have hbefore : d.kindAt (place ++ [name]) = none := by
      by_contra hsome
      obtain ⟨k, hk⟩ := Option.ne_none_iff_exists'.1 hsome
      obtain ⟨r, hr⟩ := exists_dir_of_kindAt hk
      cases hnone.symm.trans hr
    by_contra hsome
    obtain ⟨k, hk⟩ := Option.ne_none_iff_exists'.1 hsome
    have hlength := congrArg List.length (hgrows.new_of hbefore hk).1
    simp at hlength

/-- The root, and what a path leads to that goes up only, are there already. -/
theorem makeDirs_eq_self_of_nameless {fuel : Nat} (hsound : d.IsSound) (hcs : IsResolved cs)
    (hnameless : cs = [.root] ∨ ∃ up, cs = List.replicate up .parent)
    (h : d.makeDirs (render cs) fuel = .ok d') : d' = d := by
  by_cases hempty : cs = []
  · subst hempty
    cases fuel with
    | zero => cases h
    | succ fuel => exact (Except.ok.inj h).symm
  obtain ⟨place, hreaches, hdir⟩ : ∃ place, d.Reaches true maxLinks (d.start (render cs))
      (cs.filterMap step?) place ∧ d.IsDirAt place := by
    rcases hnameless with rfl | ⟨up, rfl⟩
    · exact ⟨_, .here, hsound.start⟩
    · have hstep : step? .parent = some .up := rfl
      rw [List.filterMap_replicate_of_some hstep]
      exact exists_reaches_of_replicate hsound.start up
  have hread := (reaches_render_iff hcs hempty).2 hreaches
  exact makeDirs_eq_self hsound hread hdir (trimSlashes_render hcs) h

/-- Making a directory and those above it changes nothing, or leads to an empty directory. -/
theorem makeDirs_cases {fuel : Nat} (hsound : d.IsSound) (hcs : IsResolved cs)
    (h : d.makeDirs (render cs) fuel = .ok d') : d' = d ∨ d'.LeadsToEmpty (render cs) := by
  induction fuel generalizing d d' cs with
  | zero => cases h
  | succ fuel ih =>
    have htrim := trimSlashes_render hcs
    obtain ⟨above, name, habove, hname, rfl⟩ | hnameless := hcs.cases_concat
    · rw [makeDirs] at h
      split at h
      · exact .inl (Except.ok.inj h).symm
      split at h
      · next hmake =>
        cases h
        exact .inr (leadsToEmpty_of_makeDir hsound htrim hmake)
      · rw [habove.parent?_concat hname] at h
        simp only at h
        split at h
        · cases h
        next d₁ hmakeAbove =>
        have hsound₁ := hsound.grows (makeDirs_grows hsound hmakeAbove)
        split at h
        · next hmake =>
          cases h
          exact .inr (leadsToEmpty_of_makeDir hsound₁ htrim hmake)
        · split at h
          · next hdir =>
            -- the directory is there, so the one above it is not a new one
            cases h
            refine (ih hsound habove hmakeAbove).imp_right fun hempty ↦ ?_
            cases hdir.symm.trans (hempty.isDir_eq_false hsound₁ habove hname)
          · cases h
      · split at h
        · exact .inl (Except.ok.inj h).symm
        · cases h
    · exact .inl (makeDirs_eq_self_of_nameless hsound hcs hnameless h)

end Disk

namespace Store

/-- Making the directory above a repository makes no repository there. -/
theorem isBare_makeDirAll {d d' : Disk} {root raw : String} {path : RepoPath} {above : String}
    (hsound : d.IsSound) (hpath : Confine.repoPath root (RepoName.sanitize raw) = .ok path)
    (habove : parent? path.text = some above) (h : d.makeDirAll above = .ok d') :
    isBare d' path.text = isBare d path.text := by
  obtain ⟨cs, name, hcs, hname, hcomponents⟩ := Confine.exists_concat hpath
  rw [RepoPath.text, hcomponents] at habove ⊢
  cases (hcs.parent?_concat hname).symm.trans habove
  have hgrows := makeDirAll_grows hsound h
  obtain rfl | hempty := makeDirs_cases hsound hcs h
  · rfl
  · have hnone := hempty.isDir_eq_false (hsound.grows hgrows) hcs hname
    have hbefore : d.isDir (render (cs ++ [.normal name])) = false := by
      refine Bool.eq_false_iff.2 fun hdir ↦ ?_
      cases hnone.symm.trans (isDir_grows hsound hdir hgrows)
    rw [isBare, isBare, hnone, hbefore, Bool.false_and, Bool.false_and]

end Store

/-! ## Work under way -/

/-- A host may refuse to change its disk, for a reason of its own. -/
def HostAsk.Refuses : (q : HostAsk) → q.Answer → Prop
  | .makeDirAll _, r => ∃ e, r = .error e
  | .touch _, r => ∃ e, r = .error e
  | .runGit _, r => ∃ e, r = .error e
  | _, _ => False

namespace HostCall

/-- Whether a name was marked private. -/
def marksName (name : String) : HostCall → Bool
  | ⟨.mark other, _⟩ => other == name
  | _ => false

theorem marksName_of_isQuiet {q : HostAsk} {name : String} (hq : q.IsQuiet) (answer : q.Answer) :
    marksName name ⟨q, answer⟩ = false := by
  cases q with
  | mark => exact hq.elim
  | _ => rfl

end HostCall

namespace Machine

open Relation (ReflTransGen)

variable {σ α β : Type} {m : Machine σ} {x x' y : σ}

/-- A reply to a question, and the state of the machine behind it. -/
structure Reply (σ : Type) where
  call : HostCall
  after : σ

/-- Whether a name was marked private. -/
def Reply.marks (name : String) (c : Reply σ) : Bool := c.call.marksName name

/-- Whether the git program was run for the repository at a path and left one there, whatever it
reported. -/
def leaves (m : Machine σ) (path : String) (c : Reply σ) : Bool :=
  match c.call with
  | ⟨.runGit call, _⟩ => call == Store.initCall path && Store.isBare (m.disk c.after) path
  | _ => false

theorem leaves_of_isQuiet {q : HostAsk} {path : String} (hq : q.IsQuiet) (answer : q.Answer) :
    m.leaves path ⟨⟨q, answer⟩, y⟩ = false := by
  cases q with
  | runGit => exact hq.elim
  | _ => rfl

variable {t : List (Reply σ)}

/-- Somebody looks at a machine, as those do who look a repository up or ask for a level
(`Store.isQuiet_lookup`, `Store.isQuiet_accessLevel`). -/
def Looks (m : Machine σ) (x x' : σ) : Prop := ∃ q : HostAsk, q.IsQuiet ∧ (m.answer q x).2 = x'

/-- A machine replies to a question: it answers it, or refuses a change and stays as it is. -/
inductive Replies (m : Machine σ) (q : HostAsk) (x : σ) : q.Answer → σ → Prop where
  | answers {answer : q.Answer} {y : σ} (h : m.answer q x = (answer, y)) : Replies m q x answer y
  | refuses {answer : q.Answer} (h : q.Refuses answer) : Replies m q x answer x

/-- Work is under way that was begun in a state: it has got the replies of a transcript, has a
program still to do, and the machine is in another state.  Others look at the machine meanwhile. -/
inductive UnderWay (m : Machine σ) :
    OnHost α → σ → List (Reply σ) → OnHost α → σ → Prop where
  | wait {p : OnHost α} {x y : σ} (h : ReflTransGen m.Looks x y) : UnderWay m p x [] p y
  | ask {q : HostAsk} {next : q.Answer → OnHost α} {answer : q.Answer} {x x₁ x₂ y : σ}
      {t : List (Reply σ)} {p : OnHost α} (h : ReflTransGen m.Looks x x₁)
      (hreply : m.Replies q x₁ answer x₂) (ht : UnderWay m (next answer) x₂ t p y) :
      UnderWay m (Program.ask q next) x (⟨⟨q, answer⟩, x₂⟩ :: t) p y

/-- Work that nobody looks at, and nothing is refused to, comes to its end. -/
theorem exists_underWay_run (p : OnHost α) (x : σ) :
    ∃ t, m.UnderWay p x t (.done (m.run p x).1) (m.run p x).2 := by
  induction p generalizing x with
  | done a => exact ⟨[], .wait .refl⟩
  | ask q next ih =>
    obtain ⟨t, ht⟩ := ih (m.answer q x).1 (m.answer q x).2
    exact ⟨_, .ask .refl (.answers rfl) ht⟩

/-- Work that goes on with the value of other work is still at that, or has gone on. -/
theorem UnderWay.of_bind {p : OnHost α} {f : α → OnHost β} {p' : OnHost β}
    (h : m.UnderWay (p.bind f) x t p' y) :
    (∃ p₁, m.UnderWay p x t p₁ y ∧ ∀ b, p' ≠ .done b) ∨
      ∃ a t₁ t₂ z, t = t₁ ++ t₂ ∧ m.UnderWay p x t₁ (.done a) z ∧ m.UnderWay (f a) z t₂ p' y := by
  induction p generalizing x t with
  -- where the first program is over, the rest of the transcript is the second one's
  | done a => exact .inr ⟨a, [], t, x, rfl, .wait .refl, h⟩
  | ask q next ih =>
    cases h with
    | wait h => exact .inl ⟨_, .wait h, nofun⟩
    | ask h hreply ht =>
      rcases ih _ ht with ⟨p₁, hfirst, hopen⟩ | ⟨a, t₁, t₂, z, rfl, hfirst, hrest⟩
      · exact .inl ⟨p₁, .ask h hreply hfirst, hopen⟩
      · exact .inr ⟨a, _, t₂, z, rfl, .ask h hreply hfirst, hrest⟩

/-! ### Replies of a lawful machine -/

namespace IsLawful

theorem reply_makeDirAll (hm : m.IsLawful) {above : String} {r : Except OsError Unit}
    (h : m.Replies (.makeDirAll above) x r y) : (∃ e, r = .error e) ∧ m.Keeps x y ∨
      r = .ok () ∧ m.marks y = m.marks x ∧ (m.disk x).makeDirAll above = .ok (m.disk y) := by
  cases h with
  | answers h => exact (hm.makeDirAll h).cases
  | refuses h => exact .inl ⟨h, rfl, rfl⟩

theorem reply_touch (hm : m.IsLawful) {file : String} {r : Except OsError Unit}
    (h : m.Replies (.touch file) x r y) : (∃ e, r = .error e) ∧ m.Keeps x y ∨
      r = .ok () ∧ m.marks y = m.marks x ∧ (m.disk x).writeFile file [] = .ok (m.disk y) := by
  cases h with
  | answers h => exact (hm.touch h).cases
  | refuses h => exact .inl ⟨h, rfl, rfl⟩

theorem reply_mark (hm : m.IsLawful) {name : String} {r : Unit}
    (h : m.Replies (.mark name) x r y) :
    m.disk y = m.disk x ∧ m.marks y = name :: m.marks x := by
  cases h with
  | answers h => exact hm.mark h
  | refuses h => exact h.elim

theorem reply_quiet (hm : m.IsLawful) {q : HostAsk} (hq : q.IsQuiet) {answer : q.Answer}
    (h : m.Replies q x answer y) : m.Keeps x y := by
  cases h with
  | answers h => exact hm.keeps_of_answer hq h
  | refuses => exact ⟨rfl, rfl⟩

/-- Looking changes nothing. -/
theorem keeps_of_looks (hm : m.IsLawful) (h : ReflTransGen m.Looks x y) : m.Keeps x y := by
  induction h with
  | refl => exact ⟨rfl, rfl⟩
  | tail _ hlook ih =>
    obtain ⟨q, hq, rfl⟩ := hlook
    exact ih.trans (hm.keeps_of_answer hq rfl)

end IsLawful

/-! ## Rules for work under way -/

/-- A state that work can start from. -/
structure IsFit (m : Machine σ) (inv : σ → Prop) (x : σ) : Prop where
  sound : (m.disk x).IsSound
  inv : inv x

/-- What work on a repository has come to: the repository is there if it was or the git program left
it, and its name is marked if it was or the work marked it. -/
structure Advances (m : Machine σ) (inv : σ → Prop) (path : RepoPath) (name : String) (x : σ)
    (t : List (Reply σ)) (y : σ) : Prop where
  fit : m.IsFit inv y
  bare : Store.isBare (m.disk y) path.text =
    (Store.isBare (m.disk x) path.text || t.any (m.leaves path.text))
  marks : (m.marks y).contains name = ((m.marks x).contains name || t.any (Reply.marks name))

variable {inv : σ → Prop} {path : RepoPath} {name : String}

theorem Advances.trans {x y z : σ} {t t' : List (Reply σ)} (h : m.Advances inv path name x t y)
    (h' : m.Advances inv path name y t' z) : m.Advances inv path name x (t ++ t') z where
  fit := h'.fit
  bare := by rw [h'.bare, h.bare, List.any_append, Bool.or_assoc]
  marks := by rw [h'.marks, h.marks, List.any_append, Bool.or_assoc]

/-- Where neither the disk nor the marks change, nothing comes of a transcript. -/
theorem Keeps.advances (h : m.Keeps x y) (hfit : m.IsFit inv y)
    (hleaves : t.any (m.leaves path.text) = false)
    (hmarks : t.any (Reply.marks name) = false) : m.Advances inv path name x t y where
  fit := hfit
  bare := by rw [h.1, hleaves, Bool.or_false]
  marks := by rw [h.2, hmarks, Bool.or_false]

/-- Work advances as it should from a state on, and at its end something holds of its value, its
transcript and the state. -/
def Proceeds (m : Machine σ) (inv : σ → Prop) (path : RepoPath) (name : String) (p : OnHost α)
    (x : σ) (post : α → List (Reply σ) → σ → Prop) : Prop :=
  ∀ ⦃t p' y⦄, m.UnderWay p x t p' y →
    m.Advances inv path name x t y ∧ ∀ a, p' = .done a → post a t y

/-- One piece of work after another. -/
theorem Proceeds.bind {p : OnHost α} {f : α → OnHost β} {post : α → List (Reply σ) → σ → Prop}
    {post' : β → List (Reply σ) → σ → Prop} (h : m.Proceeds inv path name p x post)
    (hf : ∀ a t y, m.IsFit inv y → post a t y →
      m.Proceeds inv path name (f a) y fun b t' z ↦ post' b (t ++ t') z) :
    m.Proceeds inv path name (p >>= f) x post' := by
  intro t p' y hway
  obtain ⟨p₁, hfirst, hopen⟩ | ⟨a, t₁, t₂, z, rfl, hfirst, hrest⟩ := UnderWay.of_bind hway
  · exact ⟨(h hfirst).1, fun b hb ↦ absurd hb (hopen b)⟩
  · obtain ⟨hadvances, hpost⟩ := h hfirst
    obtain ⟨hmore, hpost'⟩ := hf a t₁ z hadvances.fit (hpost a rfl) hrest
    exact ⟨hadvances.trans hmore, hpost'⟩

section Rules

variable {paths : RepoPath → Prop} {post : α → List (Reply σ) → σ → Prop}
variable (hm : m.IsLawful) (hreliable : m.IsReliable paths inv)

include hreliable in
theorem inv_of_reply {q : HostAsk} {answer : q.Answer} (hinv : inv x)
    (h : m.Replies q x answer y) : inv y := by
  cases h with
  | answers h => exact hreliable.keeps hinv h
  | refuses => exact hinv

variable (hfit : m.IsFit inv x)

include hm hreliable hfit

theorem isFit_of_looks (h : ReflTransGen m.Looks x y) : m.IsFit inv y := by
  refine ⟨by rw [(hm.keeps_of_looks h).1]; exact hfit.sound, ?_⟩
  induction h with
  | refl => exact hfit.inv
  | tail _ hlook ih =>
    obtain ⟨q, -, rfl⟩ := hlook
    exact hreliable.keeps ih rfl

/-- At its end work has done nothing more. -/
theorem proceeds_done {a : α} (h : ∀ y, m.Keeps x y → post a [] y) :
    m.Proceeds inv path name (.done a) x post := by
  intro t p' y hway
  cases hway with
  | wait hlooks =>
    have hkeeps := hm.keeps_of_looks hlooks
    refine ⟨hkeeps.advances (isFit_of_looks hm hreliable hfit hlooks) rfl rfl, fun b hb ↦ ?_⟩
    cases hb
    exact h y hkeeps

/-- One question, and what comes of the reply. -/
theorem proceeds_ask {q : HostAsk} {next : q.Answer → OnHost α}
    (h : ∀ x₁ answer x₂, m.Keeps x x₁ → m.IsFit inv x₁ → m.Replies q x₁ answer x₂ →
      m.Advances inv path name x₁ [⟨⟨q, answer⟩, x₂⟩] x₂ ∧
        m.Proceeds inv path name (next answer) x₂ fun a t y ↦ post a (⟨⟨q, answer⟩, x₂⟩ :: t) y) :
    m.Proceeds inv path name (OnHost.ask q >>= next) x post := by
  intro t p' y hway
  change m.UnderWay (Program.ask q next) x t p' y at hway
  cases hway with
  | wait hlooks =>
    have hfit' := isFit_of_looks hm hreliable hfit hlooks
    exact ⟨(hm.keeps_of_looks hlooks).advances hfit' rfl rfl, nofun⟩
  | @ask _ _ answer _ x₁ x₂ _ t _ hlooks hreply hrest =>
    have hkeeps := hm.keeps_of_looks hlooks
    have hfit' := isFit_of_looks hm hreliable hfit hlooks
    have hfirst : m.Advances inv path name x [] x₁ := hkeeps.advances hfit' rfl rfl
    obtain ⟨hstep, hnext⟩ := h _ _ _ hkeeps hfit' hreply
    obtain ⟨hadvances, hpost⟩ := hnext hrest
    exact ⟨hfirst.trans (hstep.trans hadvances), hpost⟩

/-- A question that changes nothing. -/
theorem proceeds_quiet {q : HostAsk} (hq : q.IsQuiet) {next : q.Answer → OnHost α}
    (h : ∀ answer x₂, m.IsFit inv x₂ →
      m.Proceeds inv path name (next answer) x₂ fun a t y ↦ post a (⟨⟨q, answer⟩, x₂⟩ :: t) y) :
    m.Proceeds inv path name (OnHost.ask q >>= next) x post := by
  refine proceeds_ask hm hreliable hfit fun x₁ answer x₂ _ hfit₁ hreply ↦ ?_
  have hkeeps := hm.reply_quiet hq hreply
  have hsound : (m.disk x₂).IsSound := by
    rw [hkeeps.1]
    exact hfit₁.sound
  have hfit₂ : m.IsFit inv x₂ := ⟨hsound, inv_of_reply hreliable hfit₁.inv hreply⟩
  refine ⟨hkeeps.advances hfit₂ ?_ ?_, h answer x₂ hfit₂⟩
  · rw [List.any_cons, leaves_of_isQuiet hq, List.any_nil, Bool.or_self]
  · rw [List.any_cons, Reply.marks, HostCall.marksName_of_isQuiet hq, List.any_nil, Bool.or_self]

end Rules

/-! ## Creating in private -/

section Private

variable {s : Store} {raw : String}
variable (hm : m.IsLawful) (hreliable : m.IsReliable (IsTarget s.root) inv)
variable (hfit : m.IsFit inv x)
variable (hpath : Confine.repoPath s.root (RepoName.sanitize raw) = .ok path)

include hm hreliable hfit hpath

/-- Making the directory above a repository marks nothing. -/
theorem proceeds_makeParent : m.Proceeds inv path name (Store.makeParent path.text) x
    fun r t y ↦ (r = .ok () → Store.HasParent (m.disk y) path.text) ∧
      t.any (Reply.marks name) = false := by
  obtain ⟨cs, last, hcs, hlast, hcomponents⟩ := Confine.exists_concat hpath
  have habove : parent? path.text = some (render cs) := by
    rw [RepoPath.text, hcomponents]
    exact hcs.parent?_concat hlast
  rw [Store.makeParent, habove]
  refine proceeds_ask hm hreliable hfit fun x₁ answer x₂ _ hfit₁ hreply ↦ ?_
  have hinv₂ := inv_of_reply hreliable hfit₁.inv hreply
  obtain ⟨⟨e, rfl⟩, hkeeps⟩ | ⟨rfl, hmarks, hmake⟩ := hm.reply_makeDirAll hreply
  · have hfit₂ : m.IsFit inv x₂ := ⟨by rw [hkeeps.1]; exact hfit₁.sound, hinv₂⟩
    refine ⟨hkeeps.advances hfit₂ rfl rfl, ?_⟩
    exact proceeds_done hm hreliable hfit₂ fun y _ ↦ ⟨by rintro ⟨⟩, rfl⟩
  · have hfit₂ : m.IsFit inv x₂ := ⟨hfit₁.sound.grows (makeDirAll_grows hfit₁.sound hmake), hinv₂⟩
    refine ⟨⟨hfit₂, ?_, ?_⟩, ?_⟩
    · rw [Store.isBare_makeDirAll hfit₁.sound hpath habove hmake]
      exact (Bool.or_false _).symm
    · rw [hmarks]
      exact (Bool.or_false _).symm
    · refine proceeds_done hm hreliable hfit₂ fun y hkeeps ↦ ⟨fun _ above habove' ↦ ?_, rfl⟩
      cases habove.symm.trans habove'
      rw [hkeeps.1]
      by_cases hempty : render cs = ""
      · exact .inl hempty
      · exact .inr (isDir_of_makeDirs hfit₁.sound hempty (trimSlashes_render hcs) hmake)

/-- The git program may leave the repository whatever it reports, and does where it says so. -/
theorem advances_runGit {r : Except OsError Git.Report} {y : σ}
    (hparent : Store.HasParent (m.disk x) path.text)
    (hreply : m.Replies (.runGit (Store.initCall path.text)) x r y) :
    m.Advances inv path name x [⟨⟨.runGit (Store.initCall path.text), r⟩, y⟩] y ∧
      (Store.judgeInit r = .ok () → Store.isBare (m.disk y) path.text = true) := by
  have hinv := inv_of_reply hreliable hfit.inv hreply
  have hleaves : m.leaves path.text ⟨⟨.runGit (Store.initCall path.text), r⟩, y⟩ =
      Store.isBare (m.disk y) path.text := by
    simp only [leaves, beq_self_eq_true, Bool.true_and]
  cases hreply with
  | answers hanswer =>
    obtain ⟨hmarks, hgrows⟩ := hm.runGit hanswer hfit.sound hpath hparent
    have hmade := hreliable.init ⟨raw, hpath⟩ hfit.inv hfit.sound hparent hanswer
    refine ⟨⟨⟨hfit.sound.grows hgrows, hinv⟩, ?_, ?_⟩, hmade⟩
    · rw [List.any_cons, List.any_nil, Bool.or_false, hleaves]
      cases hbefore : Store.isBare (m.disk x) path.text with
      | false => rfl
      | true => exact Store.isBare_grows hfit.sound hbefore hgrows
    · rw [hmarks]
      exact (Bool.or_false _).symm
  | refuses hrefuses =>
    obtain ⟨e, rfl⟩ := hrefuses
    refine ⟨⟨hfit, ?_, (Bool.or_false _).symm⟩, by rintro ⟨⟩⟩
    rw [List.any_cons, List.any_nil, Bool.or_false, hleaves, Bool.or_self]

/-- A repository that was made is there, and not marked yet. -/
theorem proceeds_init : m.Proceeds inv path name (Store.init path.text) x fun r t y ↦
    (r = .ok () → Store.isBare (m.disk y) path.text = true) ∧
      t.any (Reply.marks name) = false := by
  refine (proceeds_makeParent hm hreliable hfit hpath).bind fun made t y hfit hmade ↦ ?_
  obtain ⟨hparent, hmarks⟩ := hmade
  cases made with
  | error e =>
    exact proceeds_done hm hreliable hfit fun y _ ↦ ⟨by rintro ⟨⟩, by simpa using hmarks⟩
  | ok =>
    refine proceeds_ask hm hreliable hfit fun x₁ r x₂ hkeeps hfit₁ hreply ↦ ?_
    have hparent₁ : Store.HasParent (m.disk x₁) path.text := by
      rw [hkeeps.1]
      exact hparent rfl
    obtain ⟨hadvances, hbare⟩ := advances_runGit hm hreliable hfit₁ hpath hparent₁ hreply
    refine ⟨hadvances, proceeds_done hm hreliable hadvances.fit fun y hkeeps ↦ ⟨fun hok ↦ ?_, ?_⟩⟩
    · rw [hkeeps.1]
      exact hbare hok
    · rw [List.any_append, hmarks]
      rfl

omit hpath in
/-- The mark on the disk changes no repository, wherever a link in its place may lead: at this point
the repository is there.  The name is marked exactly if that mark was written. -/
theorem proceeds_markPrivate {n : RepoName} (hbare : Store.isBare (m.disk x) path.text = true) :
    m.Proceeds inv path n.text (Store.markPrivate n path) x
      fun r t _ ↦ r.isOk = t.any (Reply.marks n.text) := by
  refine proceeds_ask hm hreliable hfit fun x₁ r x₂ hkeeps hfit₁ hreply ↦ ?_
  have hinv₂ := inv_of_reply hreliable hfit₁.inv hreply
  obtain ⟨⟨e, rfl⟩, hkeeps⟩ | ⟨rfl, hmarks, hwrite⟩ := hm.reply_touch hreply
  · have hfit₂ : m.IsFit inv x₂ := ⟨by rw [hkeeps.1]; exact hfit₁.sound, hinv₂⟩
    refine ⟨hkeeps.advances hfit₂ rfl rfl, proceeds_done hm hreliable hfit₂ fun y _ ↦ rfl⟩
  rw [← hkeeps.1] at hbare
  obtain ⟨place, -, -, hgrows⟩ := writeFile_eq_ok hfit₁.sound hwrite
  have hfit₂ : m.IsFit inv x₂ := ⟨hfit₁.sound.grows hgrows, hinv₂⟩
  have hbare₂ : Store.isBare (m.disk x₂) path.text = true :=
    Store.isBare_grows hfit₁.sound hbare hgrows
  refine ⟨⟨hfit₂, by rw [hbare, hbare₂, Bool.true_or], ?_⟩, ?_⟩
  · rw [hmarks]
    exact (Bool.or_false _).symm
  refine proceeds_ask hm hreliable hfit₂ fun x₃ _ x₄ _ hfit₃ hreply ↦ ?_
  obtain ⟨hdisk, hmarked⟩ := hm.reply_mark hreply
  have hfit₄ : m.IsFit inv x₄ :=
    ⟨by rw [hdisk]; exact hfit₃.sound, inv_of_reply hreliable hfit₃.inv hreply⟩
  refine ⟨⟨hfit₄, ?_, ?_⟩, proceeds_done hm hreliable hfit₄ fun y _ ↦ ?_⟩
  · rw [hdisk]
    exact (Bool.or_false _).symm
  · rw [hmarked]
    simp [Reply.marks, HostCall.marksName]
  · simp [Reply.marks, HostCall.marksName, Except.isOk, Except.toBool]

/-- A private repository is furnished exactly if its name is marked. -/
theorem proceeds_furnish {n : RepoName} : m.Proceeds inv path n.text (Store.furnish n path true) x
    fun r t _ ↦ r.isOk = t.any (Reply.marks n.text) := by
  refine (proceeds_init hm hreliable hfit hpath).bind fun made t y hfit hmade ↦ ?_
  obtain ⟨hbare, hmarks⟩ := hmade
  simp only [List.any_append, hmarks, Bool.false_or]
  cases made with
  | error e => exact proceeds_done hm hreliable hfit fun y _ ↦ rfl
  | ok => exact proceeds_markPrivate hm hreliable hfit (hbare rfl)

theorem proceeds_make {n : RepoName} : m.Proceeds inv path n.text (Store.make n path true) x
    fun r t _ ↦ r.isOk = t.any (Reply.marks n.text) := by
  refine (proceeds_furnish hm hreliable hfit hpath).bind fun furnished t y hfit hmarks ↦ ?_
  simp only [List.any_append, ← hmarks]
  cases furnished with
  | error e => exact proceeds_done hm hreliable hfit fun y _ ↦ rfl
  | ok =>
    refine proceeds_quiet hm hreliable hfit (q := .emit _) trivial fun _ x₂ hfit₂ ↦ ?_
    exact proceeds_done hm hreliable hfit₂ fun y _ ↦ rfl

theorem proceeds_createLocked {n : RepoName} :
    m.Proceeds inv path n.text (Store.createLocked n path true) x
      fun r t _ ↦ r.isOk = t.any (Reply.marks n.text) := by
  refine proceeds_quiet hm hreliable hfit (q := .disk) trivial fun d x₂ hfit₂ ↦ ?_
  split
  · exact proceeds_done hm hreliable hfit₂ fun y _ ↦ rfl
  · exact proceeds_make hm hreliable hfit₂ hpath

/-- A private creation succeeds exactly if it marks the name. -/
theorem proceeds_create : m.Proceeds inv path (RepoName.sanitize raw).text
    (s.create (RepoName.sanitize raw) true) x
      fun r t _ ↦ r.isOk = t.any (Reply.marks (RepoName.sanitize raw).text) := by
  rw [Store.create]
  split
  · exact proceeds_done hm hreliable hfit fun y _ ↦ rfl
  rw [Store.confine, hpath]
  refine proceeds_quiet hm hreliable hfit (q := .lock) trivial fun _ x₁ hfit₁ ↦ ?_
  refine (proceeds_createLocked hm hreliable hfit₁ hpath).bind fun r t y hfit₂ hmarks ↦ ?_
  refine proceeds_quiet hm hreliable hfit₂ (q := .unlock) trivial fun _ x₃ hfit₃ ↦ ?_
  refine proceeds_done hm hreliable hfit₃ fun y _ ↦ ?_
  simpa [Reply.marks, HostCall.marksName] using hmarks

end Private

/-! ## Exposures -/

/-- A repository is found under a name, and an identity has a level on it. -/
def Exposes (m : Machine σ) (s : Store) (n : RepoName) (key : Option ClientKey) (x : σ) : Prop :=
  (m.run (s.lookup n) x).1.isOk = true ∧ m.level s n key x ≠ .noAccess

/-- A repository was there under a name when some work began, or the git program has left it. -/
def IsThere (m : Machine σ) (s : Store) (n : RepoName) (x : σ) (t : List (Reply σ)) : Prop :=
  ∃ path, Confine.repoPath s.root n = .ok path ∧
    (Store.isBare (m.disk x) path.text = true ∨ t.any (m.leaves path.text) = true)

theorem IsLawful.exposes_iff (hm : m.IsLawful) {s : Store} {n : RepoName}
    {key : Option ClientKey} : m.Exposes s n key x ↔
      (∃ path, Confine.repoPath s.root n = .ok path ∧ Store.isBare (m.disk x) path.text = true) ∧
        s.policy.level (m.marks x) n key ≠ .noAccess := by
  rw [Exposes, hm.level, hm.run_lookup]
  refine and_congr_left fun _ ↦ ?_
  cases hpath : Confine.repoPath s.root n with
  | error e => simp [Store.found, hpath, Except.isOk, Except.toBool]
  | ok path =>
    cases hbare : Store.isBare (m.disk x) path.text with
    | true => simp [Store.found_of_isBare hpath hbare, hbare, Except.isOk, Except.toBool]
    | false => simp [Store.found_of_not_isBare hpath hbare, hbare, Except.isOk, Except.toBool]

/-- An identity that is no administrator's and does not collaborate loses its level on a name when
work marks that name, and only then. -/
theorem Advances.level_ne_noAccess_iff {p : Policy} {n : RepoName} {key : Option ClientKey}
    (h : m.Advances inv path n.text x t y)
    (hname : t.any (Reply.marks n.text) = true → n.isEmpty = false)
    (hadmin : p.isAdmin key = false) (hcollab : p.isCollaborator n key = false) :
    p.level (m.marks y) n key ≠ .noAccess ↔
      t.any (Reply.marks n.text) = false ∧ p.level (m.marks x) n key ≠ .noAccess := by
  have hmarks := h.marks
  cases hmarked : t.any (Reply.marks n.text) with
  | true =>
    rw [hmarked, Bool.or_true] at hmarks
    have hprivate : p.isPrivate (m.marks y) n = true := by
      rw [Policy.isPrivate, hmarks, Bool.or_true]
    have hlevel := (Policy.verdict_iff (hname hmarked)).1 (.shutOut hadmin hcollab hprivate)
    exact iff_of_false (fun hne ↦ hne hlevel) (by rintro ⟨⟨⟩, -⟩)
  | false =>
    rw [hmarked, Bool.or_false] at hmarks
    have hmem : n.text ∈ m.marks y ↔ n.text ∈ m.marks x := by
      rw [← List.contains_iff_mem, hmarks, List.contains_iff_mem]
    rw [Policy.level_congr (fun _ ↦ hmem) key]
    exact (and_iff_right rfl).symm

/-- A creation marks a name only if it stands for a repository. -/
theorem isEmpty_of_marksName {s : Store} {n : RepoName} {isPrivate : Bool}
    {p : OnHost (Except BackendError Repository)}
    (hway : m.UnderWay (s.create n isPrivate) x t p y)
    (h : t.any (Reply.marks n.text) = true) : n.isEmpty = false := by
  refine Bool.eq_false_iff.2 fun hempty ↦ ?_
  rw [Store.create, if_pos hempty] at hway
  cases hway
  cases h

/-- **A private creation exposes the repository between making and marking it.**  At every point of
the creation, whatever was refused to it and with others looking meanwhile, an identity that is no
administrator's and does not collaborate has a level on a repository that is found exactly if the
repository was there or the git program left it, also where that program failed, the creation has
not marked the name, and the identity had a level before.  So it has none after a creation that
succeeded, and after one that failed it has the level that it had. -/
theorem private_creation_exposes_iff {s : Store} {raw : String}
    {p : OnHost (Except BackendError Repository)} {key : Option ClientKey} (hm : m.IsLawful)
    (hreliable : m.IsReliable (IsTarget s.root) inv) (hfit : m.IsFit inv x)
    (hway : m.UnderWay (s.create (RepoName.sanitize raw) true) x t p y)
    (hadmin : s.policy.isAdmin key = false)
    (hcollab : s.policy.isCollaborator (RepoName.sanitize raw) key = false) :
    let name := RepoName.sanitize raw
    (m.Exposes s name key y ↔ m.IsThere s name x t ∧
      t.any (Reply.marks name.text) = false ∧ m.level s name key x ≠ .noAccess) ∧
    (∀ made, p = .done (.ok made) → ¬ m.Exposes s name key y) ∧
    (∀ e, p = .done (.error e) →
      (m.Exposes s name key y ↔ m.IsThere s name x t ∧ m.level s name key x ≠ .noAccess)) := by
  intro name
  cases hpath : Confine.repoPath s.root name with
  | error e =>
    have hnot : ¬ m.Exposes s name key y := by
      rw [hm.exposes_iff, hpath]
      rintro ⟨⟨path, hpath, -⟩, -⟩
      cases hpath
    have hnone : ¬ m.IsThere s name x t := by
      rintro ⟨path, hpath', -⟩
      cases hpath.symm.trans hpath'
    simp [hnot, hnone]
  | ok path =>
    obtain ⟨hadvances, hpost⟩ := proceeds_create hm hreliable hfit hpath hway
    have hthere : m.IsThere s name x t ↔ Store.isBare (m.disk y) path.text = true := by
      rw [hadvances.bare, Bool.or_eq_true, IsThere, hpath]
      simp
    have hlevel : s.policy.level (m.marks y) name key ≠ .noAccess ↔ _ :=
      hadvances.level_ne_noAccess_iff (isEmpty_of_marksName hway) hadmin hcollab
    rw [← hm.level s name key x] at hlevel
    have hexposes : m.Exposes s name key y ↔ m.IsThere s name x t ∧
        t.any (Reply.marks name.text) = false ∧ m.level s name key x ≠ .noAccess := by
      rw [hm.exposes_iff, hpath, ← hlevel, hthere]
      simp
    refine ⟨hexposes, fun made hp ↦ ?_, fun e hp ↦ ?_⟩
    · rw [hexposes, ← hpost _ hp]
      rintro ⟨-, ⟨⟩, -⟩
    · rw [hexposes, ← hpost _ hp]
      simp [Except.isOk, Except.toBool]

end Machine

namespace Scripted

open Host

/-- A repository that was created private on the fresh host is found, and nobody without a key has a
level on it. -/
theorem private_creation_hidden :
    let name := RepoName.sanitize "x"
    let created := machine.run (freshStore.create name true) fresh
    created.1 = .ok ⟨name, "/srv/repos/x.git", true⟩ ∧
      (machine.run (freshStore.lookup name) created.2).1.isOk = true ∧
      ¬ machine.Exposes freshStore name none created.2 := by
  intro name created
  have hcreated : created.1 = .ok ⟨name, "/srv/repos/x.git", true⟩ := by decide +kernel
  have hreliable : machine.IsReliable (Machine.IsTarget freshStore.root) Host.IsDiligent :=
    (isOrderly_machine {} fun _ ↦ id).toIsReliable
  have hsound : (machine.disk fresh).IsSound := isGround_fresh.sound
  have hgit : fresh.IsDiligent := by
    rintro git ⟨⟩
    rfl
  have hadmin : freshStore.policy.isAdmin none = false := rfl
  obtain ⟨t, hway⟩ := Machine.exists_underWay_run (m := machine) (freshStore.create name true) fresh
  obtain ⟨-, hhidden, -⟩ := Machine.private_creation_exposes_iff isLawful_machine hreliable
    ⟨hsound, hgit⟩ hway hadmin rfl
  exact ⟨hcreated, by decide +kernel, hhidden _ (congrArg _ hcreated)⟩

/-- A host on which a directory takes the place of a repository's mark. -/
def blocked : Host where
  disk := { top := .dir true [(.text "srv", .dir true [(.text "repos", .dir true [(.text "x.git",
    .dir true [(.text Store.marker, .dir true [])])])])] }

/-- A private creation that fails because the mark cannot be written leaves a repository behind that
everybody may read. -/
theorem failed_private_creation_exposed :
    let name := RepoName.sanitize "x"
    let created := machine.run (freshStore.create name true) blocked
    created.1 = .error (.other
        ⟨["failed to mark repository private", "Is a directory (os error 21)"]⟩) ∧
      (∃ t, machine.UnderWay (freshStore.create name true) blocked t (.done created.1) created.2) ∧
      (machine.run (freshStore.lookup name) blocked).1 = .error .notFound ∧
      (machine.run (freshStore.lookup name) created.2).1 = .ok ⟨name, "/srv/repos/x.git", false⟩ ∧
      machine.level freshStore name none created.2 = .readOnly := by
  intro name created
  have hcreated : created.1 = .error (.other
      ⟨["failed to mark repository private", "Is a directory (os error 21)"]⟩) := by
    decide +kernel
  refine ⟨hcreated, Machine.exists_underWay_run _ _, ?_⟩
  decide +kernel

end Scripted

end GitGateway
