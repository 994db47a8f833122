import GitGateway.Proofs.Inventory

/-!
# Creations among removals

What a creation means for the lookups after it, in any state that comes about by creations and by
taking repositories away.

A lookup is a function of the disk and of the marks (`Store.found`), and depends on no more than the
repository at the path of the name and the mark on it (`Store.found_congr`).  So it is enough to
know what a creation does to these: it founds at most the repository at its own path and marks at
most its own name.  Taking away leaves ground ground, since along names below the root there is no
link to follow (`Disk.IsGround.alters_remove`).

The record that a creation returns carries the flag that was asked for, while a lookup asks the
policy as well: the two agree exactly if the flag says what the policy says
(`Machine.creation_found_iff`).
-/

namespace GitGateway

open Disk Path Confine

/-! ## Taking away -/

namespace Entry

variable {e : Entry} {name : FileName} {dir : List FileName}

/-- Taking away the entry under a name of a directory changes what lies under that name only. -/
theorem child?_dropChild {r : Bool} {es : List (FileName × Entry)} (other : FileName) :
    ((Entry.dir r es).dropChild name).child? other =
      if other = name then none else (Entry.dir r es).child? other := by
  rw [dropChild, child?, child?, entries, entries]
  induction es with
  | nil => simp
  | cons p es ih =>
    by_cases hname : p.1 = name
    · subst hname
      rw [List.filter_cons_of_neg (by simp), ih]
      by_cases hother : other = p.1
      · rw [if_pos hother, if_pos hother]
      · have hne : (other == p.1) = false := by simpa using hother
        rw [if_neg hother, if_neg hother, List.lookup_cons, hne]
    · rw [List.filter_cons_of_pos (by simpa using hname), List.lookup_cons, List.lookup_cons, ih]
      cases hother : other == p.1 with
      | true => exact (if_neg (by rwa [eq_of_beq hother])).symm
      | false => rfl

/-- Taking away the entry under a name of a directory takes away what lies at and below that place
only. -/
theorem kindAt_dropChild {r : Bool} {es : List (FileName × Entry)}
    (hdir : e.at? dir = some (.dir r es)) (place : List FileName) :
    (e.modifyAt (fun p ↦ p.dropChild name) dir).kindAt place =
      if dir ++ [name] <+: place then none else e.kindAt place := by
  induction dir generalizing e place with
  | nil =>
    cases hdir
    cases place with
    | nil => rfl
    | cons first place =>
      rw [modifyAt, kindAt_cons, child?_dropChild, kindAt_cons]
      by_cases hfirst : first = name
      · subst hfirst
        rw [if_pos rfl, if_pos (by simp), Option.bind_none]
      · rw [if_neg hfirst, if_neg (by simpa using Ne.symm hfirst)]
  | cons above dir ih =>
    rw [at?] at hdir
    obtain ⟨next, hnext, hbelow⟩ := Option.bind_eq_some_iff.1 hdir
    obtain ⟨r', es', rfl⟩ := Disk.exists_of_child? hnext
    rw [modifyAt, hnext]
    cases place with
    | nil => simp [kind_setChild]
    | cons first place =>
      rw [kindAt_cons, child?_setChild, kindAt_cons]
      by_cases hfirst : first = above
      · subst hfirst
        rw [if_pos rfl, Option.bind_some, hnext, Option.bind_some, ih hbelow]
        simp
      · have hapart : ¬ above :: dir ++ [name] <+: first :: place := fun hbelow ↦
          hfirst (List.cons_prefix_cons.1 hbelow).1.symm
        rw [if_neg hfirst, if_neg hapart]

end Entry

namespace Disk

variable {d : Disk} {p : String} {base : List FileName} {root : String} {names : List String}

/-- Taking away what a path leads to takes away nothing else. -/
theorem remove_cases (d : Disk) (p : String) : (d.remove p).1 = d ∨
    ∃ place, d.LeadsTo false p place ∧ (d.remove p).1.here = d.here ∧
      ∀ other, (d.remove p).1.kindAt other =
        if place <+: other then none else d.kindAt other := by
  rw [remove]
  obtain ⟨place, hto, hleads⟩ | ⟨e, he⟩ := lead_cases d false p
  · generalize d.lead false p = lead at hto
    cases lead with
    | missing dir name => exact .inl rfl
    | refused e => exact .inl rfl
    | entry there e =>
      obtain ⟨rfl, hat⟩ := hto
      rcases there.eq_nil_or_concat with rfl | ⟨dir, name, rfl⟩
      · exact .inl rfl
      rw [List.concat_eq_append] at hleads hat ⊢
      have hkind := kindAt_of_at? hat
      rw [← List.append_nil (dir ++ [name]), List.append_assoc] at hkind
      obtain ⟨r, hr⟩ := exists_dir_of_kindAt hkind
      obtain ⟨es, hdir⟩ := kindAt_eq_dir_iff.1 hr
      refine .inr ⟨_, hleads, ?_, fun other ↦ ?_⟩
      · simp
      · simp only [List.getLast?_concat, List.dropLast_concat]
        exact Entry.kindAt_dropChild hdir other
  · rw [he]
    exact .inl rfl

/-- Taking away what a path along names below the root leads to alters the disk below the root. -/
theorem IsGround.alters_remove (h : d.IsGround root base) (hnames : ∀ name ∈ names, IsProper name)
    (hne : names ≠ []) : Alters base (fun _ _ ↦ False) d (d.remove (below root names)).1 := by
  obtain heq | ⟨place, hleads, hhere, hkind⟩ := remove_cases d (below root names)
  · rw [heq]
    exact .refl _ _ _
  · obtain rfl := h.eq_of_leadsTo hnames hne hleads
    have hkept : ∀ other k, (d.remove (below root names)).1.kindAt other = some k →
        d.kindAt other = some k := by
      intro other k hk
      rw [hkind] at hk
      split at hk
      · cases hk
      · exact hk
    refine ⟨hhere, fun {other k} hout hk ↦ ?_, fun hk ↦ .inl (hkept _ _ hk), hkept _ _⟩
    have hbelow : base <+: placeBelow base names := List.prefix_append _ _
    rw [hkind, if_neg fun hunder ↦ hout ⟨hbelow.trans hunder, ?_⟩, hk]
    rintro rfl
    have hlength := hunder.length_le
    rw [placeBelow, List.length_append, List.length_map] at hlength
    exact hne (List.length_eq_zero_iff.1 (by omega))

end Disk

namespace Store

open Program

variable {d : Disk} {marks : List String} {s : Store}

/-- What a store finds under a name, on a disk and with some names marked. -/
def found (s : Store) (d : Disk) (marks : List String) (name : RepoName) :
    Except BackendError Repository :=
  match repoPath s.root name with
  | .error e => .error (.other (.ofText e.message))
  | .ok path =>
    if isBare d path.text then .ok ⟨name, path.text, s.policy.isPrivate marks name⟩
    else .error .notFound

theorem ends_lookup_iff {name : RepoName} {r : Except BackendError Repository} :
    Ends (Showing d marks) (s.lookup name) r ↔ r = s.found d marks name := by
  refine ends_bind_iff.trans ?_
  simp only [ends_confine_iff, exists_eq_left]
  rw [found]
  cases repoPath s.root name with
  | error e => exact ends_done_iff
  | ok path =>
    refine ends_ask_iff.trans ?_
    simp only [Showing, exists_eq_left, bind_done]
    by_cases hbare : isBare d path.text = true
    · rw [if_pos hbare, if_pos hbare]
      refine ends_ask_iff.trans ?_
      simp only [Showing, exists_eq_left]
      exact ends_done_iff
    · rw [if_neg hbare, if_neg hbare]
      exact ends_done_iff

/-- What is found under a name depends on the repository at its path and on its mark. -/
theorem found_congr {d' : Disk} {marks' : List String} {name : RepoName}
    (hbare : ∀ path, repoPath s.root name = .ok path → isBare d' path.text = isBare d path.text)
    (hmarks : name.text ∈ marks' ↔ name.text ∈ marks) :
    s.found d' marks' name = s.found d marks name := by
  have hprivate : s.policy.isPrivate marks' name = s.policy.isPrivate marks name := by
    simp only [Policy.isPrivate, List.contains_eq_mem, hmarks]
  rw [found, found]
  cases hpath : repoPath s.root name with
  | error e => rfl
  | ok path => simp only [hbare path hpath, hprivate]

theorem found_of_isBare {name : RepoName} {path : RepoPath}
    (hpath : repoPath s.root name = .ok path) (hbare : isBare d path.text = true) :
    s.found d marks name = .ok ⟨name, path.text, s.policy.isPrivate marks name⟩ := by
  simp only [found, hpath, hbare, if_true]

theorem found_of_not_isBare {name : RepoName} {path : RepoPath}
    (hpath : repoPath s.root name = .ok path) (hbare : isBare d path.text = false) :
    s.found d marks name = .error .notFound := by
  simp only [found, hpath, hbare, Bool.false_eq_true, if_false]

end Store

namespace Machine

variable {σ : Type} {m : Machine σ} {s : Store} {n : RepoName} {isPrivate : Bool} {x x' : σ}
variable {r : Except BackendError Repository}

/-- On a lawful machine, a lookup tells what is found in its state. -/
theorem IsLawful.run_lookup (hm : m.IsLawful) (s : Store) (name : RepoName) (x : σ) :
    (m.run (s.lookup name) x).1 = s.found (m.disk x) (m.marks x) name :=
  Store.ends_lookup_iff.1 (hm.quiet (Store.isQuiet_lookup s name) rfl).2

/-! ## Creating -/

/-- Making a repository gives the record of it or an error of its own. -/
theorem eq_of_run_make {path : RepoPath} (h : m.run (Store.make n path isPrivate) x = (r, x')) :
    r = .ok ⟨n, path.text, isPrivate⟩ ∨ ∃ e, r = .error (.other e) := by
  rw [Store.make] at h
  obtain ⟨furnished, x₁, -, h⟩ := run_bind_iff.1 h
  cases furnished with
  | error e =>
    obtain ⟨rfl, -⟩ := run_pure_iff.1 h
    exact .inr ⟨e, rfl⟩
  | ok =>
    obtain ⟨_, x₂, -, h⟩ := run_bind_iff.1 h
    obtain ⟨rfl, -⟩ := run_pure_iff.1 h
    exact .inl rfl

/-- Only a private creation that succeeds marks a name, its own. -/
theorem marks_of_creation {root : String} {d d' : Disk} {marks marks' : List String}
    (h : Store.Creation root n isPrivate d marks d' marks' r) :
    marks' = if r.isOk && isPrivate then n.text :: marks else marks := by
  cases h with
  | refused | failed => rfl
  | made hpublic =>
    subst hpublic
    rfl
  | marked hprivate =>
    subst hprivate
    rfl

/-! ## States among creations and removals -/

/-- A state that comes about from another one by creations and by taking repositories away. -/
inductive Evolves (m : Machine σ) (s : Store) (x : σ) : σ → Prop where
  | start : Evolves m s x x
  | create {raw : String} {isPrivate : Bool} {r : Except BackendError Repository} {x₁ x₂ : σ}
      (h : Evolves m s x x₁)
      (hrun : m.run (s.create (RepoName.sanitize raw) isPrivate) x₁ = (r, x₂)) : Evolves m s x x₂
  | remove {raw : String} {path : RepoPath} {x₁ x₂ : σ} (h : Evolves m s x x₁)
      (hpath : repoPath s.root (RepoName.sanitize raw) = .ok path)
      (hdisk : m.disk x₂ = ((m.disk x₁).remove path.text).1) (hmarks : m.marks x₂ = m.marks x₁) :
      Evolves m s x x₂

/-- Ground stays ground among creations and removals. -/
theorem Evolves.isGround {base : List FileName} (h : m.Evolves s x x') (hm : m.IsLawful)
    (hroot : ∃ c ∈ normalize s.root, c ≠ .parent) (hground : (m.disk x).IsGround s.root base) :
    (m.disk x').IsGround s.root base := by
  induction h with
  | start => exact hground
  | create h hrun ih =>
    rcases (hm.create ih.sound rfl hrun).effect ih with ⟨-, hdisk, -⟩ | ⟨-, ⟨path, hpath⟩, heffect⟩
    · rwa [hdisk]
    · obtain ⟨rest, halong⟩ := exists_liesAlong_of_root hroot rfl hpath
      exact ih.grows (heffect rest halong).grows
  | remove h hpath hdisk _ ih =>
    obtain ⟨rest, halong⟩ := exists_liesAlong_of_root hroot rfl hpath
    obtain ⟨hproper, init, last, hrest, -⟩ := halong.isDirectory
    rw [hdisk, halong.text_eq hpath]
    exact ih.alters (ih.alters_remove hproper (by simp [hrest]))

/-- A name that does not climb has its path to itself among those that do not begin with a step
up. -/
theorem repoPath_ne {raw raw' : String} {path : RepoPath}
    (hroot : ∃ c ∈ normalize s.root, c ≠ .parent)
    (hpath : repoPath s.root (RepoName.sanitize raw) = .ok path)
    (hne : RepoName.sanitize raw' ≠ RepoName.sanitize raw)
    (hclimb : (RepoName.sanitize raw).climb = 0) (hup : ¬ (RepoName.sanitize raw').BeginsUp) :
    repoPath s.root (RepoName.sanitize raw') ≠ .ok path := by
  intro hpath'
  obtain ⟨rest, halong⟩ := exists_liesAlong_of_root hroot rfl hpath
  obtain ⟨rest', halong'⟩ := exists_liesAlong_of_root hroot rfl hpath'
  obtain rfl : rest' = rest := by
    have htext := hpath'.trans hpath.symm
    rw [halong.repoPath_eq, halong'.repoPath_eq, Except.ok.injEq, RepoPath.mk.injEq] at htext
    exact LiesAlong.eq_of_components htext
  have hclimb' : (RepoName.sanitize raw').climb = 0 := RepoName.climb_eq_of_not_beginsUp rfl hup
  have heq : RepoName.sanitize raw' = RepoName.sanitize raw :=
    RepoName.eq_of_liesAlong rfl rfl hclimb hclimb' halong halong'
  exact hne heq

section Creation

variable {inv : σ → Prop} {base : List FileName} {raw raw' : String}
variable (hm : m.IsLawful) (hreliable : m.IsReliable (IsTarget s.root) inv)
variable (hroot : ∃ c ∈ normalize s.root, c ≠ .parent) (hground : (m.disk x).IsGround s.root base)
variable (hinv : inv x)
variable (hrun : m.run (s.create (RepoName.sanitize raw) isPrivate) x = (r, x'))

include hm hground hrun in
/-- A creation marks no other name. -/
theorem mem_marks_iff (hne : RepoName.sanitize raw' ≠ RepoName.sanitize raw) :
    (RepoName.sanitize raw').text ∈ m.marks x' ↔ (RepoName.sanitize raw').text ∈ m.marks x := by
  rw [marks_of_creation (hm.create hground.sound rfl hrun)]
  split
  · have htext : (RepoName.sanitize raw').text ≠ (RepoName.sanitize raw).text := fun h ↦
      hne (congrArg RepoName.mk h)
    rw [List.mem_cons, or_iff_right htext]
  · exact Iff.rfl

include hm hroot hground hrun in
/-- Under other names a lookup finds what it found before, unless one has the path that the
repository was created at. -/
theorem found_other (hne : RepoName.sanitize raw' ≠ RepoName.sanitize raw)
    (hpath : ∀ path, repoPath s.root (.sanitize raw) = .ok path →
      repoPath s.root (.sanitize raw') ≠ .ok path) :
    s.found (m.disk x') (m.marks x') (.sanitize raw') =
      s.found (m.disk x) (m.marks x) (.sanitize raw') := by
  refine Store.found_congr (fun path hpath' ↦ ?_) ?_
  · obtain ⟨-, hkept, hnew⟩ := isBare_create hm hroot hground hrun ⟨raw', hpath'⟩
    refine Bool.eq_iff_iff.2 ⟨fun hbare ↦ ?_, hkept⟩
    exact (hnew hbare).resolve_right fun hmade ↦ hpath path hmade hpath'
  · exact mem_marks_iff hm hground hrun hne

include hm hreliable hroot hground hinv hrun

/-- A creation that succeeds makes the repository where there was none, and returns the record that
was asked for. -/
theorem isBare_of_created {created : Repository} (hok : r = .ok created) :
    ∃ path, repoPath s.root (.sanitize raw) = .ok path ∧
      created = ⟨.sanitize raw, path.text, isPrivate⟩ ∧
      Store.isBare (m.disk x) path.text = false ∧ Store.isBare (m.disk x') path.text = true := by
  subst hok
  obtain ⟨-, halready | ⟨e, he⟩⟩ | ⟨path, d, x₁, x₂, hpath, -, hbefore, -, -, hmake, -⟩ :=
    hm.create_cases hrun
  · cases halready
  · cases he
  · have hafter := isBare_of_create hm hreliable hroot hinv hground hpath hrun rfl
    obtain hrecord | ⟨e, he⟩ := eq_of_run_make hmake
    · exact ⟨path, hpath, Except.ok.inj hrecord, hbefore, hafter⟩
    · cases he

/-- After a creation that succeeds a lookup finds the repository, private if it was asked to be or
was so already, and under other names what it found before, unless they have its path. -/
theorem found_of_created {created : Repository} (hok : r = .ok created) :
    ∃ path, repoPath s.root (.sanitize raw) = .ok path ∧
      created = ⟨.sanitize raw, path.text, isPrivate⟩ ∧
      s.found (m.disk x') (m.marks x') (.sanitize raw) = .ok ⟨.sanitize raw, path.text,
        isPrivate || s.policy.isPrivate (m.marks x) (.sanitize raw)⟩ ∧
      ∀ raw', RepoName.sanitize raw' ≠ RepoName.sanitize raw →
        (s.found (m.disk x') (m.marks x') (.sanitize raw') =
            s.found (m.disk x) (m.marks x) (.sanitize raw') ↔
          repoPath s.root (.sanitize raw') ≠ .ok path) := by
  obtain ⟨path, hpath, hcreated, hnone, hthere⟩ :=
    isBare_of_created hm hreliable hroot hground hinv hrun hok
  have hprivate : s.policy.isPrivate (m.marks x') (.sanitize raw) =
      (isPrivate || s.policy.isPrivate (m.marks x) (.sanitize raw)) := by
    rw [marks_of_creation (hm.create hground.sound rfl hrun), hok]
    cases isPrivate <;> simp [Policy.isPrivate, Except.isOk, Except.toBool]
  refine ⟨path, hpath, hcreated, ?_, fun raw' hne ↦ ⟨fun hsame hpath' ↦ ?_, fun hpath' ↦ ?_⟩⟩
  · rw [Store.found_of_isBare hpath hthere, hprivate]
  · rw [Store.found_of_isBare hpath' hthere, Store.found_of_not_isBare hpath' hnone] at hsame
    cases hsame
  · refine found_other hm hroot hground hrun hne fun path' hown _ ↦ hpath' ?_
    rwa [Except.ok.inj (hpath.symm.trans hown)]

end Creation

/-- Where the repository is there already, nothing changes. -/
theorem IsLawful.keeps_of_alreadyExists (hm : m.IsLawful)
    (h : m.run (s.create n isPrivate) x = (.error .alreadyExists, x')) : m.Keeps x x' := by
  obtain ⟨hkeeps, -⟩ | ⟨path, d, x₁, x₂, -, -, -, -, -, hmake, -⟩ := hm.create_cases h
  · exact hkeeps
  · obtain hrecord | ⟨e, he⟩ := eq_of_run_make hmake
    · cases hrecord
    · cases he

/-- **A created repository is found as its record says exactly if the flag says what the policy
says.**  Under every other name a lookup finds what it found before, unless that name has the very
path; no level on another name changes, whatever the creation came to, and where the repository is
there already nothing changes at all. -/
theorem creation_found_iff {inv : σ → Prop} {base : List FileName}
    {x₀ : σ} {raw : String} (hm : m.IsLawful)
    (hreliable : m.IsReliable (IsTarget s.root) inv)
    (hroot : ∃ c ∈ normalize s.root, c ≠ .parent) (hground : (m.disk x₀).IsGround s.root base)
    (hstate : m.Evolves s x₀ x) (hinv : inv x)
    (hrun : m.run (s.create (RepoName.sanitize raw) isPrivate) x = (r, x')) :
    let name := RepoName.sanitize raw
    let before := fun other ↦ (m.run (s.lookup other) x).1
    let after := fun other ↦ (m.run (s.lookup other) x').1
    (∀ created, r = .ok created → ∃ path, repoPath s.root name = .ok path ∧
      created = ⟨name, path.text, isPrivate⟩ ∧
      after name = .ok ⟨name, path.text, isPrivate || s.policy.isPrivate (m.marks x) name⟩ ∧
      (after name = .ok created ↔
        isPrivate = true ∨ s.policy.isPrivate (m.marks x) name = false) ∧
      ∀ raw', RepoName.sanitize raw' ≠ name →
        (after (.sanitize raw') = before (.sanitize raw') ↔
          repoPath s.root (.sanitize raw') ≠ .ok path)) ∧
    (∀ raw', RepoName.sanitize raw' ≠ name →
      (∀ key, m.level s (.sanitize raw') key x' = m.level s (.sanitize raw') key x) ∧
      (name.climb = 0 → ¬ (RepoName.sanitize raw').BeginsUp →
        after (.sanitize raw') = before (.sanitize raw'))) ∧
    (r = .error .alreadyExists → m.Keeps x x') := by
  intro name before after
  have hground := hstate.isGround hm hroot hground
  have hbefore : ∀ other, before other = s.found (m.disk x) (m.marks x) other := fun other ↦
    hm.run_lookup s other x
  have hafter : ∀ other, after other = s.found (m.disk x') (m.marks x') other := fun other ↦
    hm.run_lookup s other x'
  simp only [hbefore, hafter]
  refine ⟨fun created hok ↦ ?_, fun raw' hne ↦ ⟨fun key ↦ ?_, fun hclimb hup ↦ ?_⟩,
    fun halready ↦ ?_⟩
  · obtain ⟨path, hpath, rfl, hfound, hothers⟩ :=
      found_of_created hm hreliable hroot hground hinv hrun hok
    refine ⟨path, hpath, rfl, hfound, ?_, hothers⟩
    rw [hfound, Except.ok.injEq, Repository.mk.injEq]
    cases isPrivate <;> simp [name]
  · rw [hm.level, hm.level]
    exact Policy.level_congr (fun _ ↦ mem_marks_iff hm hground hrun hne) key
  · refine found_other hm hroot hground hrun hne fun path hpath ↦ ?_
    exact repoPath_ne hroot hpath hne hclimb hup
  · subst halready
    exact hm.keeps_of_alreadyExists hrun

end Machine

namespace Scripted

open Host

/-- The store of the fresh host with the settings of one repository, `x`, which is private. -/
def reservedStore : Store :=
  ⟨"/srv/repos", ⟨.readOnly, true, [], [], [("x", { isPrivate := true })]⟩⟩

/-- A private repository is created, taken away and created anew, and is found as it was created. -/
theorem created_found_again :
    let name := RepoName.sanitize "team/y"
    let once := (machine.run (freshStore.create name true) fresh).2
    let gone : Host := { once with disk := (once.disk.remove "/srv/repos/team/y.git").1 }
    let again := machine.run (freshStore.create name true) gone
    machine.Evolves freshStore fresh gone ∧
      (machine.run (freshStore.lookup name) gone).1 = .error .notFound ∧
      again.1 = .ok ⟨name, "/srv/repos/team/y.git", true⟩ ∧
      (machine.run (freshStore.lookup name) again.2).1 = again.1 := by
  intro name once gone again
  have hpath : repoPath freshStore.root name =
      .ok ⟨[.root, .normal "srv", .normal "repos", .normal "team", .normal "y.git"]⟩ := by
    decide +kernel
  have hremove (h : Host) (hh : machine.Evolves freshStore fresh h) : machine.Evolves freshStore
      fresh { h with disk := (h.disk.remove "/srv/repos/team/y.git").1 } :=
    .remove hh hpath rfl rfl
  have hgone : machine.Evolves freshStore fresh gone :=
    hremove once (.create .start (Prod.mk.eta (p := machine.run _ fresh)).symm)
  have hkept : gone.git = some {} := by decide +kernel
  have hgit : gone.IsDiligent := by
    intro git hsome
    obtain rfl : {} = git := Option.some.inj (hkept.symm.trans hsome)
    rfl
  have hcreated : again.1 = .ok ⟨name, "/srv/repos/team/y.git", true⟩ := by decide +kernel
  have hreliable : machine.IsReliable (Machine.IsTarget freshStore.root) Host.IsDiligent :=
    (isOrderly_machine {} fun _ ↦ id).toIsReliable
  have hground : (machine.disk fresh).IsGround freshStore.root shelfPlace := isGround_fresh
  obtain ⟨hown, -⟩ := Machine.creation_found_iff isLawful_machine hreliable
    ⟨.root, by decide, by decide⟩ hground hgone hgit (Prod.mk.eta (p := again)).symm
  obtain ⟨path, -, -, -, hfound, -⟩ := hown _ hcreated
  exact ⟨hgone, by decide +kernel, hcreated, (hfound.2 (.inl rfl)).trans hcreated.symm⟩

/-- A repository of a name that the settings make private is created public, and found private; one
that is created under a name that climbs is found under a name that does not. -/
theorem created_found_otherwise :
    let name := RepoName.sanitize "x"
    let above := RepoName.sanitize "../repos/x"
    let created := machine.run (reservedStore.create name false) fresh
    let climbing := machine.run (freshStore.create above false) fresh
    (created.1 = .ok ⟨name, "/srv/repos/x.git", false⟩ ∧
        (machine.run (reservedStore.lookup name) created.2).1 =
          .ok ⟨name, "/srv/repos/x.git", true⟩) ∧
      climbing.1.isOk = true ∧ name ≠ above ∧
      (machine.run (freshStore.lookup name) fresh).1 = .error .notFound ∧
      (machine.run (freshStore.lookup name) climbing.2).1 =
        .ok ⟨name, "/srv/repos/x.git", false⟩ := by
  decide +kernel

end Scripted

end GitGateway
