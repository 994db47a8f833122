import GitGateway.Proofs.Foundings
import GitGateway.Proofs.Reopening
import Mathlib.Algebra.GroupWithZero.Nat
import Mathlib.Algebra.Order.BigOperators.Group.List
import Mathlib.Algebra.Order.Group.Nat
import Mathlib.Data.List.Nodup

/-!
# What a store lists

A lookup goes from a name to a directory and a listing from a directory back to a name, so a store
should list and find exactly the names whose creation succeeded: it **accounts** for them
(`Machine.Accounts`).  It does if and only if three things hold (`listing_agrees_iff`): each of
these names returns, their repositories lie apart (`LieApart`), and nothing else was left at the
directories of names that were asked for (`IsMadeOf`).

That the first is needed follows by counting.  The name of each listed directory was made, so the
names of the listed directories are among those that the listing gives; there are as many of both,
and since reading makes no text longer, each listed text is read as itself (`sanitize_eq_of_mem`).
On a reliable machine, only a private creation whose mark could not be written leaves something
behind (`isBare_createAll`).
-/

namespace GitGateway

open Disk Path Confine Listing

/-! ## Looking -/

namespace Store

open Program

variable {d : Disk} {marks : List String} {s : Store}

theorem ends_list_iff {r : Except BackendError (List RepoName)} : Ends (Showing d marks) s.list r ↔
    r = .ok ((Listing.ofDisk d s.root).names.map RepoName.sanitize) := by
  refine ends_bind_iff.trans ?_
  simp only [ends_listing_iff, exists_eq_left]
  exact ends_done_iff

theorem isOk_of_ends_lookup {name : RepoName} {r : Except BackendError Repository}
    (h : Ends (Showing d marks) (s.lookup name) r) : r.isOk = true ↔
      ∃ path, repoPath s.root name = .ok path ∧ isBare d path.text = true := by
  obtain ⟨confined, hconfine, hrest⟩ := ends_bind_iff.1 h
  rw [ends_confine_iff] at hconfine
  subst hconfine
  cases hpath : repoPath s.root name with
  | error e =>
    rw [hpath] at hrest
    cases ends_done_iff.1 hrest
    exact ⟨nofun, fun ⟨_, hpath, _⟩ ↦ by cases hpath⟩
  | ok path =>
    rw [hpath] at hrest
    obtain ⟨shown, rfl, hrest⟩ := ends_ask_iff.1 hrest
    rw [bind_done] at hrest
    split at hrest
    · next hbare =>
      obtain ⟨names, -, hdone⟩ := ends_ask_iff.1 hrest
      cases ends_done_iff.1 hdone
      exact ⟨fun _ ↦ ⟨path, rfl, hbare⟩, fun _ ↦ rfl⟩
    · next hbare =>
      cases ends_done_iff.1 hrest
      refine ⟨nofun, ?_⟩
      rintro ⟨_, hpath, hfound⟩
      cases hpath
      exact absurd hfound hbare

end Store

namespace Machine

variable {σ : Type} {m : Machine σ}

/-- On a lawful machine, a store lists what lies on its disk. -/
theorem IsLawful.list (hm : m.IsLawful) (s : Store) (x : σ) :
    (m.run s.list x).1 = .ok ((Listing.ofDisk (m.disk x) s.root).names.map RepoName.sanitize) :=
  Store.ends_list_iff.1 (hm.quiet (Store.isQuiet_list s) rfl).2

/-- On a lawful machine, a lookup finds the bare repositories on its disk. -/
theorem IsLawful.lookup (hm : m.IsLawful) (s : Store) (name : RepoName) (x : σ) :
    (m.run (s.lookup name) x).1.isOk = true ↔
      ∃ path, repoPath s.root name = .ok path ∧ Store.isBare (m.disk x) path.text = true :=
  Store.isOk_of_ends_lookup (hm.quiet (Store.isQuiet_lookup s name) rfl).2

end Machine

/-! ## Names and repositories -/

/-- Where nothing grows and the sum stays the same, nothing shrinks. -/
theorem le_of_sum_eq {α : Type} {as : List α} {f g : α → Nat} (hle : ∀ a ∈ as, f a ≤ g a)
    (hsum : (as.map f).sum = (as.map g).sum) : ∀ a ∈ as, g a ≤ f a := by
  intro a ha
  refine Nat.not_lt.1 fun hlt ↦ ?_
  exact (List.sum_lt_sum f g hle ⟨a, ha, hlt⟩).ne hsum

/-- Texts that are read as the same texts, in any order, are each read as itself. -/
theorem RepoName.eq_of_perm {texts : List String}
    (h : (texts.map RepoName.sanitize).Perm (texts.map RepoName.mk)) :
    ∀ e ∈ texts, RepoName.sanitize e = ⟨e⟩ := by
  have hle : ∀ e ∈ texts, (RepoName.sanitize e).text.length ≤ e.length := by
    intro e _
    rw [← String.length_toList, ← String.length_toList]
    exact (RepoName.text_sublist e).length_le
  have hsum := (h.map fun n ↦ n.text.length).sum_nat
  simp only [List.map_map, Function.comp_def] at hsum
  exact fun e he ↦ RepoName.sanitize_eq_of_length (le_of_sum_eq hle hsum e he)

namespace Confine

/-- None of the repositories of some names lies strictly below another one. -/
def LieApart (root : String) (names : List RepoName) : Prop :=
  ∀ a ∈ names, ∀ b ∈ names, ∀ p q, repoPath root a = .ok p → repoPath root b = .ok q →
    strictlyBelow p.components q.components = false

end Confine

namespace Store

variable {d : Disk} {root : String} {base : List FileName} {names made : List RepoName}
variable {marks : List String}

/-- A creation that succeeds is one for a name that was accepted. -/
theorem Creation.accepted {n : RepoName} {isPrivate : Bool} {d' : Disk} {marks' : List String}
    {r : Except BackendError Repository} (h : Creation root n isPrivate d marks d' marks' r)
    (hok : r.isOk = true) : n.isEmpty = false ∧ ∃ path, repoPath root n = .ok path := by
  cases h with
  | refused | failed => cases hok
  | made _ hname hpath | marked _ hname hpath => exact ⟨hname, _, hpath⟩

/-- A creation spares all repositories but its own, which it may make. -/
theorem Effect.spares {n n' : RepoName} {rest rest' : List String} {d' : Disk}
    {marks' : List String} (h : Effect root base n rest d marks d' marks')
    (hground : d.IsGround root base) (halong : LiesAlong root n' rest') :
    Spares (rest' = rest) (below root rest') d d' := by
  refine spares_of_grows hground halong h.grows ?_
  rintro (hadds | ⟨-, hplace, -⟩)
  · exact placeBelow_inj hadds.eq_of_head.1
  · exact absurd (List.append_inj' hplace rfl).2 (by decide)

/-- What is listed and what is found are exactly the names that were made. -/
structure Accounts (d : Disk) (root : String) (made : List RepoName) : Prop where
  nodup : ((Listing.ofDisk d root).names.map RepoName.sanitize).Nodup
  listed_iff : ∀ n, n ∈ (Listing.ofDisk d root).names.map RepoName.sanitize ↔ n ∈ made
  found_iff : ∀ raw, ¬ (RepoName.sanitize raw).BeginsUp →
    ((∃ path, repoPath root (RepoName.sanitize raw) = .ok path ∧ isBare d path.text = true) ↔
      RepoName.sanitize raw ∈ made)

/-- Of some names, the bare repositories are those of the names that were made. -/
def IsMadeOf (d : Disk) (root : String) (names made : List RepoName) : Prop :=
  ∀ n ∈ names, ∀ path, repoPath root n = .ok path →
    (isBare d path.text = true ↔ ∃ a ∈ made, repoPath root a = .ok path)

theorem IsMadeOf.exists_of_isBare {n : RepoName} {rest : List String}
    (h : IsMadeOf d root names made) (hn : n ∈ names) (halong : LiesAlong root n rest)
    (hbare : isBare d (below root rest) = true) : ∃ a ∈ made, LiesAlong root a rest := by
  rw [← halong.text_eq halong.repoPath_eq] at hbare
  obtain ⟨a, ha, hsame⟩ := (h n hn _ halong.repoPath_eq).1 hbare
  exact ⟨a, ha, halong.isDirectory, hsame⟩

namespace Kept

variable (h : Kept root base names d marks)

include h

/-- Each directory is listed once. -/
theorem nodup_names (hown : d.top.hasOwnNames = true) :
    (Listing.ofDisk d root).names.Nodup := by
  refine nodup_names_ofDisk h.ground.sound h.leads h.dir hown fun path path' hpath hpath' htext ↦ ?_
  obtain ⟨n, -, rest, -, halong, rfl, -⟩ := h.exists_of_isRepository hpath
  obtain ⟨n', -, rest', -, halong', rfl, -⟩ := h.exists_of_isRepository hpath'
  obtain ⟨raw, -, hdir, -⟩ := RepoName.exists_canonical halong
  obtain ⟨raw', -, hdir', -⟩ := RepoName.exists_canonical halong'
  rw [RepoName.dropSuffix_shown hdir, RepoName.dropSuffix_shown hdir'] at htext
  rw [eq_of_text htext] at hdir
  have hwalk := congrArg moves (hdir.symm.trans hdir')
  rw [moves_render_walk halong.isDirectory.1, moves_render_walk halong'.isDirectory.1] at hwalk
  rw [(List.map_inj_right fun _ _ h ↦ normal_injective h).1 hwalk]

/-- What is listed is the text of the name of a directory, which does not climb. -/
theorem exists_canonical_of_mem {e : String} (he : e ∈ (Listing.ofDisk d root).names) :
    ∃ raw rest, (RepoName.sanitize raw).text = e ∧ (RepoName.sanitize raw).climb = 0 ∧
      LiesAlong root (RepoName.sanitize raw) rest ∧ isBare d (below root rest) = true ∧
      ∀ front, front <+: rest → front ≠ [] → front ≠ rest →
        isRepository d (placeBelow base front) = false := by
  obtain ⟨n, -, rest, -, halong, rfl, hbare, hfree⟩ := h.exists_of_mem_names he
  obtain ⟨raw, hclimb, hdir, hcanonical⟩ := RepoName.exists_canonical halong
  exact ⟨raw, rest, (RepoName.dropSuffix_shown hdir).symm, hclimb, hcanonical, hbare, hfree⟩

/-- A name that steps up alone is listed if its directory is a bare repository. -/
theorem mem_names_of_beginsUp {raw : String} {rest : List String}
    (hclimb : (RepoName.sanitize raw).climb = 0) (hup : (RepoName.sanitize raw).BeginsUp)
    (halong : LiesAlong root (RepoName.sanitize raw) rest)
    (hbare : isBare d (below root rest) = true) :
    RepoName.sanitize raw ∈ (Listing.ofDisk d root).names.map RepoName.sanitize := by
  have htext := RepoName.text_eq_of_beginsUp rfl hclimb hup
  obtain ⟨rest', halong', hdir⟩ :=
    RepoName.exists_liesAlong_of_climb rfl hclimb halong.repoPath_eq
  obtain rfl := halong.unique halong'
  obtain rfl : rest' = ["...git"] := by
    have hmoves : moves (".." ++ RepoName.suffix) = [.normal "...git"] := by decide
    have hwalk := congrArg moves hdir
    rw [RepoName.dirName, htext, hmoves, moves_render_walk halong.isDirectory.1] at hwalk
    have hrest : ["...git"].map Component.normal = rest'.map .normal := hwalk
    exact ((List.map_inj_right fun _ _ h ↦ normal_injective h).1 hrest).symm
  have hfree : ∀ a ∈ names, ∀ front, LiesAlong root a front →
      isBare d (below root front) = true → ¬ front <+: [] := by
    intro a _ front hfront _ hbegins
    obtain ⟨-, init, last, rfl, -⟩ := hfront.isDirectory
    exact absurd (List.prefix_nil.1 hbegins) (by simp)
  have halone : LiesAlong root (RepoName.sanitize raw) ([] ++ ["...git"]) := halong
  have hlisted := h.mem_names halone hbare (by decide) hfree
  refine List.mem_map.2 ⟨_, hlisted, ?_⟩
  rw [List.nil_append, RepoName.dropSuffix_shown hdir, htext]
  exact eq_of_text htext.symm

/-! ### From the accounts to the names -/

section Accounts

variable (haccounts : Accounts d root made)

include haccounts

/-- The name of each bare repository was made. -/
theorem mem_made_of_isBare {raw : String} {rest : List String}
    (hclimb : (RepoName.sanitize raw).climb = 0)
    (halong : LiesAlong root (RepoName.sanitize raw) rest)
    (hbare : isBare d (below root rest) = true) : RepoName.sanitize raw ∈ made := by
  by_cases hup : (RepoName.sanitize raw).BeginsUp
  · exact (haccounts.listed_iff _).1 (h.mem_names_of_beginsUp hclimb hup halong hbare)
  · exact (haccounts.found_iff raw hup).1 ⟨_, halong.repoPath_eq, hbare⟩

/-- Each listed text reads as itself. -/
theorem sanitize_eq_of_mem : ∀ e ∈ (Listing.ofDisk d root).names, RepoName.sanitize e = ⟨e⟩ := by
  refine RepoName.eq_of_perm (List.Perm.symm ?_)
  have hnodup : ((Listing.ofDisk d root).names.map RepoName.mk).Nodup := by
    have hinj : Function.Injective RepoName.mk := fun _ _ heq ↦ RepoName.mk.inj heq
    exact List.Nodup.map hinj (List.Nodup.of_map _ haccounts.nodup)
  -- the names of the listed directories are among those that are given, and there are as many
  have hsubset : (Listing.ofDisk d root).names.map RepoName.mk ⊆
      (Listing.ofDisk d root).names.map RepoName.sanitize := by
    intro n hn
    obtain ⟨e, he, rfl⟩ := List.mem_map.1 hn
    obtain ⟨raw, rest, rfl, hclimb, halong, hbare, -⟩ := h.exists_canonical_of_mem he
    exact (haccounts.listed_iff _).2 (h.mem_made_of_isBare haccounts hclimb halong hbare)
  exact (List.subperm_of_subset hnodup hsubset).perm_of_length_le (by simp)

/-- A name that was made is that of a directory, which is listed. -/
theorem exists_of_mem_made {n : RepoName} (hn : n ∈ made) : ∃ raw rest, n = RepoName.sanitize raw ∧
    n.Returns ∧ LiesAlong root n rest ∧ isBare d (below root rest) = true ∧
      ∀ front, front <+: rest → front ≠ [] → front ≠ rest →
        isRepository d (placeBelow base front) = false := by
  obtain ⟨e, he, hread⟩ := List.mem_map.1 ((haccounts.listed_iff n).2 hn)
  obtain ⟨raw, rest, rfl, hclimb, halong, hbare, hfree⟩ := h.exists_canonical_of_mem he
  have hself := h.sanitize_eq_of_mem haccounts _ he
  obtain rfl : n = RepoName.sanitize raw := hread.symm.trans hself
  exact ⟨raw, rest, rfl, ⟨hclimb, hself⟩, halong, hbare, hfree⟩

/-- Then the repositories of the names that were made lie apart. -/
theorem lieApart (hne : ∀ n ∈ made, n.isEmpty = false) : LieApart root made := by
  intro a ha b hb p q hp hq
  obtain ⟨raw, front, hraw, hreturns, hfront, hbare, -⟩ := h.exists_of_mem_made haccounts ha
  obtain ⟨-, rest, -, -, hrest, -, hfree⟩ := h.exists_of_mem_made haccounts hb
  refine Bool.eq_false_iff.2 fun hbelow ↦ ?_
  obtain ⟨hbegins, hother⟩ := (hfront.strictlyBelow_iff hrest hp hq).1 hbelow
  have hrepository := h.isRepository_of_returns hraw (hne a ha) hreturns hfront hbare
  have hnil : front ≠ [] := by
    obtain ⟨-, init, last, rfl, -⟩ := hfront.isDirectory
    simp
  rw [hfree front hbegins hnil hother.symm] at hrepository
  cases hrepository

/-- Then nothing is left behind at the directories of other names. -/
theorem isMadeOf (hlies : ∀ n ∈ names, ∀ path, repoPath root n = .ok path →
    ∃ rest, LiesAlong root n rest) : IsMadeOf d root names made := by
  intro n hn path hpath
  obtain ⟨rest, halong⟩ := hlies n hn path hpath
  obtain ⟨raw, hclimb, -, hcanonical⟩ := RepoName.exists_canonical halong
  rw [halong.text_eq hpath]
  constructor
  · intro hbare
    refine ⟨_, h.mem_made_of_isBare haccounts hclimb hcanonical hbare, ?_⟩
    rw [hcanonical.repoPath_eq, ← halong.repoPath_eq, hpath]
  · rintro ⟨a, ha, hsame⟩
    obtain ⟨-, rest', -, -, halong', hbare, -⟩ := h.exists_of_mem_made haccounts ha
    rwa [← halong.text_eq hpath, halong'.text_eq hsame]

end Accounts

/-! ### From the names to the accounts -/

section Orderly

variable (hraw : ∀ n ∈ names, ∃ raw, n = RepoName.sanitize raw)
variable (hmade : ∀ n ∈ made, n ∈ names ∧ n.isEmpty = false ∧ ∃ path, repoPath root n = .ok path)
variable (hreturns : ∀ n ∈ made, n.Returns) (hapart : LieApart root made)
variable (hbares : IsMadeOf d root names made)

omit h

include hraw hmade hreturns in
/-- The directory of a name that was made lies along its steps down. -/
theorem exists_dirName_of_mem {n : RepoName} (hn : n ∈ made) : ∃ raw rest,
    n = RepoName.sanitize raw ∧ LiesAlong root n rest ∧ n.dirName = render (walk 0 rest) := by
  obtain ⟨hmem, -, path, hpath⟩ := hmade n hn
  obtain ⟨raw, hn'⟩ := hraw n hmem
  obtain ⟨rest, halong, hdir⟩ :=
    RepoName.exists_liesAlong_of_climb hn' (hreturns n hn).climb_eq hpath
  exact ⟨raw, rest, hn', halong, hdir⟩

include h hraw hmade hreturns hbares

/-- What is listed is the text of a name that was made. -/
theorem mem_made_of_mem {e : String} (he : e ∈ (Listing.ofDisk d root).names) :
    (⟨e⟩ : RepoName) ∈ made ∧ RepoName.sanitize e = ⟨e⟩ := by
  obtain ⟨n, hn, rest, -, hn', rfl, hbare, -⟩ := h.exists_of_mem_names he
  obtain ⟨a, ha, halong⟩ := hbares.exists_of_isBare hn hn' hbare
  obtain ⟨raw, rest', -, halong', hdir⟩ := exists_dirName_of_mem hraw hmade hreturns ha
  obtain rfl := halong'.unique halong
  rw [RepoName.dropSuffix_shown hdir]
  exact ⟨ha, (hreturns a ha).sanitize_eq⟩

include hapart in
/-- A name that was made is listed. -/
theorem mem_names_of_mem_made {n : RepoName} (hn : n ∈ made) :
    n.text ∈ (Listing.ofDisk d root).names := by
  obtain ⟨hmem, hne, path, hpath⟩ := hmade n hn
  obtain ⟨raw, rest, -, halong, hdir⟩ := exists_dirName_of_mem hraw hmade hreturns hn
  have hbare := (hbares n hmem path hpath).2 ⟨n, hn, hpath⟩
  rw [halong.text_eq hpath] at hbare
  obtain ⟨-, init, last, rfl, hlast⟩ := halong.isDirectory
  have hgit := RepoName.isGit_of_sanitize_eq (hreturns n hn).sanitize_eq hne hdir hlast
  rw [← RepoName.dropSuffix_shown hdir]
  refine h.mem_names halong hbare hgit fun a ha front hfront hbare' hbegins ↦ ?_
  obtain ⟨b, hb, hfront⟩ := hbares.exists_of_isBare ha hfront hbare'
  have hbelow := (hfront.strictlyBelow_iff halong hfront.repoPath_eq hpath).2
    ⟨hbegins.trans (List.prefix_append _ _), fun heq ↦ ?_⟩
  · rw [hapart b hb n hn _ _ hfront.repoPath_eq hpath] at hbelow
    cases hbelow
  · have hlength := hbegins.length_le
    rw [← heq, List.length_append] at hlength
    exact absurd hlength (by simp)

/-- A name that does not climb is found exactly if it was made. -/
theorem found_iff_mem_made {raw : String} (hclimb : (RepoName.sanitize raw).climb = 0) :
    (∃ path, repoPath root (RepoName.sanitize raw) = .ok path ∧ isBare d path.text = true) ↔
      RepoName.sanitize raw ∈ made := by
  constructor
  · rintro ⟨path, hpath, hbare⟩
    obtain ⟨rest, halong, -⟩ := RepoName.exists_liesAlong_of_climb rfl hclimb hpath
    rw [halong.text_eq hpath] at hbare
    have hhead := kindAt_of_isBare h.ground halong hbare
    obtain ⟨n, hn, rest', -, hn', hplace, -⟩ := h.head _ (List.prefix_append _ _) hhead
    obtain rfl := placeBelow_inj hplace
    obtain ⟨a, ha, halong'⟩ := hbares.exists_of_isBare hn hn' hbare
    obtain ⟨raw', hraw'⟩ := hraw a (hmade a ha).1
    rwa [RepoName.eq_of_liesAlong hraw' rfl (hreturns a ha).climb_eq hclimb halong' halong]
  · intro hn
    obtain ⟨hmem, -, path, hpath⟩ := hmade _ hn
    exact ⟨path, hpath, (hbares _ hmem path hpath).2 ⟨_, hn, hpath⟩⟩

include hapart in
/-- So a store accounts for the names that were made, if all of them return, lie apart and are all
that there is. -/
theorem accounts (hown : d.top.hasOwnNames = true) : Accounts d root made where
  nodup := by
    refine List.Nodup.map_on (fun e he e' he' heq ↦ ?_) (h.nodup_names hown)
    rw [(h.mem_made_of_mem hraw hmade hreturns hbares he).2,
      (h.mem_made_of_mem hraw hmade hreturns hbares he').2] at heq
    exact RepoName.mk.inj heq
  listed_iff n := by
    constructor
    · intro hn
      obtain ⟨e, he, rfl⟩ := List.mem_map.1 hn
      obtain ⟨hmem, hread⟩ := h.mem_made_of_mem hraw hmade hreturns hbares he
      rwa [hread]
    · intro hn
      have hlisted := h.mem_names_of_mem_made hraw hmade hreturns hapart hbares hn
      exact List.mem_map.2 ⟨_, hlisted, (hreturns n hn).sanitize_eq⟩
  found_iff raw hup := h.found_iff_mem_made hraw hmade hreturns hbares
    (RepoName.climb_eq_of_not_beginsUp rfl hup)

end Orderly

end Kept

end Store

namespace Machine

variable {σ : Type} {m : Machine σ} {root : String} {base : List FileName}

/-! ## Creations one after the other -/

/-- The names whose creation succeeds, when repositories are created for raw arguments, one after
the other. -/
def madeAll (m : Machine σ) (s : Store) : List (String × Bool) → σ → List RepoName
  | [], _ => []
  | (raw, isPrivate) :: calls, x =>
    let created := m.run (s.create (RepoName.sanitize raw) isPrivate) x
    let later := m.madeAll s calls created.2
    if created.1.isOk then RepoName.sanitize raw :: later else later

theorem mem_madeAll_cons_iff {s : Store} {raw : String} {isPrivate : Bool}
    {calls : List (String × Bool)} {x : σ} {n : RepoName} :
    n ∈ m.madeAll s ((raw, isPrivate) :: calls) x ↔
      n = RepoName.sanitize raw ∧
        (m.run (s.create (RepoName.sanitize raw) isPrivate) x).1.isOk = true ∨
      n ∈ m.madeAll s calls (m.run (s.create (RepoName.sanitize raw) isPrivate) x).2 := by
  rw [madeAll]
  split
  · next hok => simp [hok]
  · next hok => simp [hok]

/-- A store accounts for some names in a state: it lists exactly these, each once, and of all names
that do not begin with a step up, it finds exactly these. -/
structure Accounts (m : Machine σ) (s : Store) (made : List RepoName) (x : σ) : Prop where
  lists : ∃ listed, (m.run s.list x).1 = .ok listed ∧ listed.Nodup ∧ ∀ n, n ∈ listed ↔ n ∈ made
  finds (raw : String) (h : ¬ (RepoName.sanitize raw).BeginsUp) :
    (m.run (s.lookup (RepoName.sanitize raw)) x).1.isOk = true ↔ RepoName.sanitize raw ∈ made

theorem IsLawful.accounts_iff (hm : m.IsLawful) {s : Store} {made : List RepoName} {x : σ} :
    m.Accounts s made x ↔ Store.Accounts (m.disk x) s.root made := by
  constructor
  · rintro ⟨⟨listed, hlisted, hnodup, hmem⟩, hfinds⟩
    cases (hm.list s x).symm.trans hlisted
    exact ⟨hnodup, hmem, fun raw hup ↦ (hm.lookup s _ x).symm.trans (hfinds raw hup)⟩
  · rintro ⟨hnodup, hmem, hfinds⟩
    exact ⟨⟨_, hm.list s x, hnodup, hmem⟩, fun raw hup ↦ (hm.lookup s _ x).trans (hfinds raw hup)⟩

/-! ### What the names of creations are -/

section Creations

variable {s : Store} {names : List RepoName}

theorem IsLawful.accepted_of_mem_madeAll (hm : m.IsLawful)
    (hlies : ∀ n ∈ names, ∀ path, repoPath s.root n = .ok path → ∃ rest, LiesAlong s.root n rest)
    {calls : List (String × Bool)} (hcalls : ∀ c ∈ calls, RepoName.sanitize c.1 ∈ names) {x : σ}
    (h : Store.Kept s.root base names (m.disk x) (m.marks x)) :
    ∀ n ∈ m.madeAll s calls x,
      n ∈ names ∧ n.isEmpty = false ∧ ∃ path, repoPath s.root n = .ok path := by
  induction calls generalizing x with
  | nil => simp [madeAll]
  | cons call calls ih =>
    obtain ⟨raw, isPrivate⟩ := call
    have hmem : RepoName.sanitize raw ∈ names := hcalls (raw, isPrivate) List.mem_cons_self
    intro n hn
    rcases mem_madeAll_cons_iff.1 hn with ⟨rfl, hok⟩ | hn
    · refine ⟨hmem, ?_⟩
      cases hrun : m.run (s.create (RepoName.sanitize raw) isPrivate) x with
      | mk r x' =>
        rw [hrun] at hok
        exact (hm.create h.ground.sound rfl hrun).accepted hok
    · have hstep := hm.kept_create hlies isPrivate rfl hmem h
      exact ih (fun c hc ↦ hcalls c (List.mem_cons_of_mem _ hc)) hstep n hn

end Creations

/-! ### Reliable machines -/

section Reliable

variable {inv : σ → Prop} {raw : String} {path : RepoPath} {x x' : σ}

/-- What a machine keeps through each question, it keeps through a program. -/
theorem IsReliable.run {paths : RepoPath → Prop} (hm : m.IsReliable paths inv) {α : Type}
    {p : OnHost α} {a : α} (hx : inv x) (h : m.run p x = (a, x')) : inv x' := by
  induction p generalizing x with
  | done b =>
    obtain ⟨-, rfl⟩ := run_pure_iff.1 h
    exact hx
  | ask q next ih =>
    cases hanswer : m.answer q x with
    | mk answer x₁ =>
      rw [Machine.run, Program.run_ask, hanswer] at h
      exact ih answer (hm.keeps hx hanswer) h

variable {s : Store} {isPrivate : Bool}
variable (hm : m.IsLawful) (hreliable : m.IsReliable (IsTarget s.root) inv)
variable (htidy : m.IsTidy (IsTarget s.root) inv)
variable (hroot : ∃ c ∈ normalize s.root, c ≠ .parent) (hx : inv x)
variable (hground : (m.disk x).IsGround s.root base)

section Own

variable (hpath : repoPath s.root (RepoName.sanitize raw) = .ok path)

section Init

variable {r : Except Failure Unit} (h : m.run (Store.init path.text) x = (r, x'))

include hm hreliable hroot hx hground hpath h

/-- Making a repository fails before the git program is run, or it comes to what that reports.  No
repository is there before that was not there at first. -/
theorem init_cases :
    (∃ e, r = .error e) ∧
        Store.isBare (m.disk x') path.text = Store.isBare (m.disk x) path.text ∨
      ∃ report x₁, inv x₁ ∧ (m.disk x₁).IsSound ∧ Store.HasParent (m.disk x₁) path.text ∧
        Store.isBare (m.disk x₁) path.text = Store.isBare (m.disk x) path.text ∧
        m.answer (.runGit (Store.initCall path.text)) x₁ = (report, x') ∧
        r = Store.judgeInit report := by
  rw [Store.init] at h
  obtain ⟨made, x₁, hmade, h⟩ := run_bind_iff.1 h
  obtain ⟨-, -, hparent⟩ := hm.makeParent hground.sound hpath hmade
  have hx₁ := hreliable.run hx hmade
  have hbefore : (m.disk x₁).IsGround s.root base ∧
      Store.isBare (m.disk x₁) path.text = Store.isBare (m.disk x) path.text := by
    rw [Store.makeParent] at hmade
    cases habove : parent? path.text with
    | none =>
      rw [habove] at hmade
      obtain ⟨-, rfl⟩ := run_pure_iff.1 hmade
      exact ⟨hground, rfl⟩
    | some above =>
      rw [habove] at hmade
      obtain ⟨answer, x₂, hask, hdone⟩ := run_bind_iff.1 hmade
      obtain ⟨hground', hspares⟩ :=
        hm.spares_makeDirAll hroot hground ⟨raw, hpath⟩ habove hask
      have hend : x₁ = x₂ := by
        cases answer with
        | error e | ok => exact (run_pure_iff.1 hdone).2
      rw [hend]
      exact ⟨hground', (hspares path ⟨raw, hpath⟩).isBare_eq id⟩
  cases made with
  | error e =>
    obtain ⟨rfl, rfl⟩ := run_pure_iff.1 h
    exact .inl ⟨⟨e, rfl⟩, hbefore.2⟩
  | ok =>
    obtain ⟨report, x₂, hgit, h⟩ := run_bind_iff.1 h
    obtain ⟨rfl, rfl⟩ := run_pure_iff.1 h
    exact .inr ⟨report, x₁, hx₁, hbefore.1.sound, hparent rfl, hbefore.2, hgit, rfl⟩

/-- Where making a repository succeeds, it is there. -/
theorem isBare_of_init (hok : r = .ok ()) : Store.isBare (m.disk x') path.text = true := by
  subst hok
  obtain ⟨⟨e, he⟩, -⟩ | ⟨report, x₁, hx₁, hsound, hparent, -, hgit, hjudged⟩ :=
    init_cases hm hreliable hroot hx hground hpath h
  · cases he
  · exact hreliable.init ⟨raw, hpath⟩ hx₁ hsound hparent hgit hjudged.symm

omit hreliable in
include htidy in
/-- Where making a repository fails and the git program is tidy, none is there that was not there
before. -/
theorem isBare_of_failed_init (hfailed : r ≠ .ok ()) :
    Store.isBare (m.disk x') path.text = Store.isBare (m.disk x) path.text := by
  obtain ⟨-, hkept⟩ | ⟨report, x₁, hx₁, hsound, hparent, hbefore, hgit, rfl⟩ :=
    init_cases hm htidy.toIsReliable hroot hx hground hpath h
  · exact hkept
  · rw [htidy.failed ⟨raw, hpath⟩ hx₁ hsound hparent hgit hfailed, hbefore]

end Init

section Make

variable {name : RepoName} {r : Except BackendError Repository}
variable (h : m.run (Store.make name path isPrivate) x = (r, x'))

include hm hroot hx hground hpath h

include hreliable in
/-- A repository is there after making it for a creation succeeds. -/
theorem isBare_of_make (hok : r.isOk = true) : Store.isBare (m.disk x') path.text = true := by
  rw [Store.make] at h
  obtain ⟨furnished, x₃, hfurnish, h⟩ := run_bind_iff.1 h
  rw [Store.furnish] at hfurnish
  obtain ⟨made, x₁, hinit, hfurnish⟩ := run_bind_iff.1 hfurnish
  cases made with
  | error e =>
    obtain ⟨rfl, rfl⟩ := run_pure_iff.1 hfurnish
    obtain ⟨rfl, rfl⟩ := run_pure_iff.1 h
    cases hok
  | ok =>
    have hbare := isBare_of_init hm hreliable hroot hx hground hpath hinit rfl
    cases isPrivate with
    | false =>
      obtain ⟨rfl, rfl⟩ := run_pure_iff.1 hfurnish
      obtain ⟨_, x₂, hemit, h⟩ := run_bind_iff.1 h
      obtain ⟨rfl, rfl⟩ := run_pure_iff.1 h
      rw [(hm.emit hemit).1]
      exact hbare
    | true =>
      rcases hm.markPrivate hfurnish with ⟨-, e, rfl⟩ | ⟨rfl, -, hmark⟩
      · obtain ⟨rfl, rfl⟩ := run_pure_iff.1 h
        cases hok
      · obtain ⟨_, x₂, hemit, h⟩ := run_bind_iff.1 h
        obtain ⟨-, rfl⟩ := run_pure_iff.1 h
        obtain ⟨-, d₁, hdirs, hgrows⟩ := hm.init hground.sound hpath hinit
        have hsound := (IsLawful.isSound_of_makeDirAll hground.sound hdirs).grows hgrows
        obtain ⟨place, -, -, hwrite⟩ := writeFile_eq_ok hsound hmark
        rw [(hm.emit hemit).1]
        exact Store.isBare_grows hsound hbare hwrite

include htidy in
/-- Where the git program is tidy, a repository appears without success only where it was to be
marked. -/
theorem isBare_before_make (hbare : Store.isBare (m.disk x') path.text = true) :
    Store.isBare (m.disk x) path.text = true ∨ r.isOk = true ∨ isPrivate = true := by
  rw [Store.make] at h
  obtain ⟨furnished, x₃, hfurnish, h⟩ := run_bind_iff.1 h
  rw [Store.furnish] at hfurnish
  obtain ⟨made, x₁, hinit, hfurnish⟩ := run_bind_iff.1 hfurnish
  cases made with
  | error e =>
    obtain ⟨rfl, rfl⟩ := run_pure_iff.1 hfurnish
    obtain ⟨rfl, rfl⟩ := run_pure_iff.1 h
    rw [isBare_of_failed_init hm htidy hroot hx hground hpath hinit (by simp)] at hbare
    exact .inl hbare
  | ok =>
    cases isPrivate with
    | false =>
      obtain ⟨rfl, rfl⟩ := run_pure_iff.1 hfurnish
      obtain ⟨_, x₂, hemit, h⟩ := run_bind_iff.1 h
      obtain ⟨rfl, rfl⟩ := run_pure_iff.1 h
      exact .inr (.inl rfl)
    | true => exact .inr (.inr rfl)

end Make

section Create

variable {r : Except BackendError Repository}
variable (h : m.run (s.create (RepoName.sanitize raw) isPrivate) x = (r, x'))

include hm hroot hx hground hpath h

include hreliable in
/-- A repository is there after its creation succeeds. -/
theorem isBare_of_create (hok : r.isOk = true) : Store.isBare (m.disk x') path.text = true := by
  rcases hm.create_cases h with ⟨-, rfl | ⟨e, rfl⟩⟩ |
    ⟨own, d, x₁, x₂, hown, -, -, hstart, ⟨hdisk, -⟩, hmake, hdisk', -⟩
  · cases hok
  · cases hok
  · cases hpath.symm.trans hown
    have hground₁ : (m.disk x₁).IsGround s.root base := by rwa [hdisk]
    rw [hdisk']
    exact isBare_of_make hm hreliable hroot (hreliable.run hx hstart) hground₁ hpath hmake hok

include htidy in
/-- Where the git program is tidy, it appears without success only where it was to be marked. -/
theorem isBare_before_create (hbare : Store.isBare (m.disk x') path.text = true) :
    Store.isBare (m.disk x) path.text = true ∨ r.isOk = true ∨ isPrivate = true := by
  rcases hm.create_cases h with ⟨⟨hdisk, -⟩, -⟩ |
    ⟨own, d, x₁, x₂, hown, -, -, hstart, ⟨hdisk, -⟩, hmake, hdisk', -⟩
  · rw [hdisk] at hbare
    exact .inl hbare
  · cases hpath.symm.trans hown
    have hground₁ : (m.disk x₁).IsGround s.root base := by rwa [hdisk]
    rw [hdisk'] at hbare
    rw [← hdisk]
    have hx₁ := htidy.toIsReliable.run hx hstart
    exact isBare_before_make hm htidy hroot hx₁ hground₁ hpath hmake hbare

end Create

end Own

section Create

variable {r : Except BackendError Repository}
variable (h : m.run (s.create (RepoName.sanitize raw) isPrivate) x = (r, x'))
variable (htarget : IsTarget s.root path)

include hm hroot hground h htarget

/-- A creation keeps the repositories below the root, and makes at most the one that it is about. -/
theorem isBare_create : (m.disk x').IsGround s.root base ∧
    (Store.isBare (m.disk x) path.text = true → Store.isBare (m.disk x') path.text = true) ∧
    (Store.isBare (m.disk x') path.text = true → Store.isBare (m.disk x) path.text = true ∨
      repoPath s.root (RepoName.sanitize raw) = .ok path) := by
  rcases (hm.create hground.sound rfl h).effect hground with
    ⟨⟨e, rfl⟩, hdisk, -⟩ | ⟨-, ⟨own, hown⟩, heffect⟩
  · rw [hdisk]
    exact ⟨hground, id, .inl⟩
  · obtain ⟨rest, halong⟩ := exists_liesAlong_of_root hroot rfl hown
    obtain ⟨raw', hpath'⟩ := htarget
    obtain ⟨rest', halong'⟩ := exists_liesAlong_of_root hroot rfl hpath'
    have hspares := (heffect rest halong).spares hground halong'
    rw [← halong'.text_eq hpath'] at hspares
    refine ⟨hground.grows (heffect rest halong).grows, hspares.bare, fun hafter ↦ ?_⟩
    refine (hspares.own hafter).imp_right fun heq ↦ ?_
    rw [heq] at halong'
    obtain rfl : path = own := Except.ok.inj <|
      (hpath'.symm.trans halong'.repoPath_eq).trans (hown.symm.trans halong.repoPath_eq).symm
    exact hown

end Create

include hm htidy hroot hx hground

/-- **What creations leave behind** on a tidy machine: what was there, the repositories of the
names that were made and, at most, some whose mark could not be written. -/
theorem isBare_createAll (calls : List (String × Bool)) (htarget : IsTarget s.root path) :
    (Store.isBare (m.disk x) path.text = true →
      Store.isBare (m.disk (m.createAll s calls x)) path.text = true) ∧
    ((∃ a ∈ m.madeAll s calls x, repoPath s.root a = .ok path) →
      Store.isBare (m.disk (m.createAll s calls x)) path.text = true) ∧
    (Store.isBare (m.disk (m.createAll s calls x)) path.text = true →
      Store.isBare (m.disk x) path.text = true ∨
      (∃ a ∈ m.madeAll s calls x, repoPath s.root a = .ok path) ∨
      ∃ c ∈ calls, c.2 = true ∧ repoPath s.root (RepoName.sanitize c.1) = .ok path) := by
  induction calls generalizing x with
  | nil => exact ⟨id, by simp [madeAll], .inl⟩
  | cons call calls ih =>
    obtain ⟨raw, isPrivate⟩ := call
    cases hrun : m.run (s.create (RepoName.sanitize raw) isPrivate) x with
    | mk r x₁ =>
      obtain ⟨hground₁, hkept, hnew⟩ := isBare_create hm hroot hground hrun htarget
      obtain ⟨hlater, hthere, hleft⟩ := ih (htidy.toIsReliable.run hx hrun) hground₁
      have hmem : ∀ n, n ∈ m.madeAll s ((raw, isPrivate) :: calls) x ↔
          n = RepoName.sanitize raw ∧ r.isOk = true ∨ n ∈ m.madeAll s calls x₁ := by
        intro n
        rw [mem_madeAll_cons_iff, hrun]
      rw [createAll, hrun]
      refine ⟨hlater ∘ hkept, ?_, fun hafter ↦ ?_⟩
      · rintro ⟨a, ha, hpath⟩
        rcases (hmem a).1 ha with ⟨rfl, hok⟩ | ha
        · exact hlater (isBare_of_create hm htidy.toIsReliable hroot hx hground hpath hrun hok)
        · exact hthere ⟨a, ha, hpath⟩
      · rcases hleft hafter with hbefore | ⟨a, ha, hpath⟩ | ⟨c, hc, hprivate, hpath⟩
        · rcases hnew hbefore with hbefore' | hpath
          · exact .inl hbefore'
          rcases isBare_before_create hm htidy hroot hx hground hpath hrun hbefore with
            hbefore' | hok | hprivate
          · exact .inl hbefore'
          · exact .inr (.inl ⟨_, (hmem _).2 (.inl ⟨rfl, hok⟩), hpath⟩)
          · exact .inr (.inr ⟨_, List.mem_cons_self, hprivate, hpath⟩)
        · exact .inr (.inl ⟨a, (hmem a).2 (.inr ha), hpath⟩)
        · exact .inr (.inr ⟨c, List.mem_cons_of_mem _ hc, hprivate, hpath⟩)

end Reliable

/-! ### A store that began empty -/

section Opened

variable {x : σ} {settings : AccessSettings} {policy : Policy}
variable (hm : m.IsLawful) (hpolicy : Policy.ofSettings settings = .ok policy)
variable (hground : (m.disk x).IsGround root base) (hleads : (m.disk x).LeadsTo true root base)
variable (hempty : Store.IsEmptyAt (m.disk x) base)

include hm hpolicy hground hleads hempty

/-- A name that does not return is not listed when it alone was created. -/
theorem notMem_list_of_not_returns {n : RepoName} {raw : String} {path : RepoPath}
    (hn : n = RepoName.sanitize raw) (hpath : repoPath root n = .ok path)
    (hroot : ∃ c ∈ normalize root, c ≠ .parent) (hreturns : ¬ n.Returns) (isPrivate : Bool) :
    let created := (m.run (Store.create ⟨root, policy⟩ n isPrivate)
      (m.openStore root settings x).2).2
    ∃ listed, (m.run (Store.list ⟨root, policy⟩) created).1 = .ok listed ∧ n ∉ listed := by
  intro created
  have hkept := kept_created hm hpolicy hground hleads hempty hn hpath hroot isPrivate
  refine ⟨_, hm.list ⟨root, policy⟩ created, fun hmem ↦ hreturns ?_⟩
  obtain ⟨e, he, hread⟩ := List.mem_map.1 hmem
  obtain ⟨n', hn', rest, -, halong, rfl, -⟩ := hkept.exists_of_mem_names he
  obtain rfl := List.mem_singleton.1 hn'
  exact RepoName.returns_of_listed hn hpath (.inl hroot) halong hread

/-- **What a store lists.**  A store was opened over an empty root and repositories were created in
it, with any results, under names that are anchored there.  It lists exactly the names that were
made, each once, and finds exactly these of all names that do not begin with a step up, if and only
if all of them return, their repositories lie apart, and the bare repositories at the directories
that were asked for are theirs.

On a tidy machine the last can fail only where a private creation made its repository and then
failed; if none did, the first two decide. -/
theorem listing_agrees_iff (calls : List (String × Bool))
    (hanchored : ∀ c ∈ calls, Anchored root (RepoName.sanitize c.1).dirName) :
    let store : Store := ⟨root, policy⟩
    let opened := m.openStore root settings x
    let after := m.createAll store calls opened.2
    let names := calls.map fun c ↦ RepoName.sanitize c.1
    let made := m.madeAll store calls opened.2
    (m.disk after).top.hasOwnNames = true →
    opened.1 = .ok store ∧
    (m.Accounts store made after ↔ (∀ n ∈ made, n.Returns) ∧ LieApart root made ∧
      Store.IsMadeOf (m.disk after) root names made) ∧
    ∀ inv, m.IsTidy (IsTarget root) inv → inv opened.2 →
      (∃ c ∈ normalize root, c ≠ .parent) →
      (∀ c ∈ calls, c.2 = true → ∀ path, repoPath root (RepoName.sanitize c.1) = .ok path →
        Store.isBare (m.disk after) path.text = true → ∃ a ∈ made, repoPath root a = .ok path) →
      (m.Accounts store made after ↔ (∀ n ∈ made, n.Returns) ∧ LieApart root made) := by
  intro store opened after names made hown
  have hraw : ∀ n ∈ names, ∃ raw, n = RepoName.sanitize raw := by
    intro n hn
    obtain ⟨c, -, rfl⟩ := List.mem_map.1 hn
    exact ⟨c.1, rfl⟩
  have hlies : ∀ n ∈ names, ∀ path, repoPath store.root n = .ok path →
      ∃ rest, LiesAlong store.root n rest := by
    intro n hn path hpath
    obtain ⟨c, hc, rfl⟩ := List.mem_map.1 hn
    obtain ⟨-, rest, -, -, halong, -⟩ := exists_liesAlong rfl hpath (hanchored c hc)
    exact ⟨rest, halong⟩
  have hcalls : ∀ c ∈ calls, RepoName.sanitize c.1 ∈ names := fun c hc ↦ List.mem_map_of_mem hc
  have hstart := kept_opened hm hpolicy hground hleads hempty names
  have hkept : Store.Kept root base names (m.disk after) (m.marks after) :=
    hm.kept_createAll (s := store) hlies hcalls hstart
  have hmade := hm.accepted_of_mem_madeAll (s := store) hlies hcalls hstart
  have hiff : m.Accounts store made after ↔ (∀ n ∈ made, n.Returns) ∧ LieApart root made ∧
      Store.IsMadeOf (m.disk after) root names made := by
    rw [hm.accounts_iff]
    constructor
    · intro haccounts
      refine ⟨fun n hn ↦ ?_, hkept.lieApart haccounts fun n hn ↦ (hmade n hn).2.1,
        hkept.isMadeOf haccounts hlies⟩
      obtain ⟨-, -, -, hreturns, -⟩ := hkept.exists_of_mem_made haccounts hn
      exact hreturns
    · rintro ⟨hreturns, hapart, hbares⟩
      exact hkept.accounts hraw hmade hreturns hapart hbares hown
  refine ⟨(hm.openStore hpolicy x).1, hiff, fun inv htidy hinv hroot hprivate ↦ ?_⟩
  have hbares : Store.IsMadeOf (m.disk after) root names made := by
    intro n hn path hpath
    obtain ⟨c, hc, rfl⟩ := List.mem_map.1 hn
    obtain ⟨-, hthere, hleft⟩ := isBare_createAll (s := store) hm htidy hroot hinv hstart.ground
      calls ⟨c.1, hpath⟩
    refine ⟨fun hbare ↦ ?_, hthere⟩
    rcases hleft hbare with hbefore | hmade | ⟨c', hc', hset, hpath'⟩
    · obtain ⟨rest, halong⟩ := hlies _ hn path hpath
      rw [halong.text_eq hpath] at hbefore
      have hhead := Store.kindAt_of_isBare hstart.ground halong hbefore
      have hnone := kept_opened hm hpolicy hground hleads hempty []
      obtain ⟨n, hn, -⟩ := hnone.head _ (List.prefix_append _ _) hhead
      cases hn
    · exact hmade
    · exact hprivate c' hc' hset path hpath' hbare
  rw [hiff]
  exact ⟨fun ⟨hreturns, hapart, _⟩ ↦ ⟨hreturns, hapart⟩,
    fun ⟨hreturns, hapart⟩ ↦ ⟨hreturns, hapart, hbares⟩⟩

end Opened

end Machine

namespace Scripted

open Host

/-- A store lists a repository and one in another directory as they were created. -/
theorem repositories_listed_as_created :
    let calls := [("x", false), ("team/y", false)]
    let opened := machine.openStore "/srv/repos" {} fresh
    let made := machine.madeAll freshStore calls opened.2
    opened.1 = .ok freshStore ∧ made = [RepoName.sanitize "x", RepoName.sanitize "team/y"] ∧
      machine.Accounts freshStore made (machine.createAll freshStore calls opened.2) := by
  have hpolicy : Policy.ofSettings {} = .ok freshStore.policy := rfl
  have hlist := Machine.listing_agrees_iff (x := fresh) isLawful_machine hpolicy isGround_fresh
    leadsTo_fresh isEmptyAt_fresh [("x", false), ("team/y", false)]
    fun _ _ ↦ anchored_of_isAbsolute (by decide) _
  have hstore : (⟨"/srv/repos", freshStore.policy⟩ : Store) = freshStore := rfl
  rw [openStore_fresh, hstore] at hlist
  rw [openStore_fresh]
  intro calls opened made
  have hmade : made = [RepoName.sanitize "x", RepoName.sanitize "team/y"] := by decide +kernel
  have hmem : ∀ n ∈ made, n = RepoName.sanitize "x" ∨ n = RepoName.sanitize "team/y" := by
    simp [hmade]
  have hreturns : ∀ n ∈ made, n.Returns := by
    intro n hn
    rcases hmem n hn with rfl | rfl <;> decide +kernel
  have hapart : LieApart "/srv/repos" made := by
    have hpath : ∀ n ∈ made, ∀ p, repoPath "/srv/repos" n = .ok p →
        p.components = normalize "/srv/repos" ++ [.normal "x.git"] ∨
          p.components = normalize "/srv/repos" ++ [.normal "team", .normal "y.git"] := by
      intro n hn p hp
      rcases hmem n hn with rfl | rfl
      · cases hp
        exact .inl rfl
      · cases hp
        exact .inr rfl
    intro a ha b hb p q hp hq
    rcases hpath a ha p hp with h | h <;> rcases hpath b hb q hq with h' | h' <;>
      · rw [h, h']
        decide
  have hgit : fresh.IsDiligent := by
    rintro git ⟨⟩
    rfl
  have htidy : machine.IsTidy (Machine.IsTarget "/srv/repos") Host.IsDiligent :=
    (isOrderly_machine {} fun _ ↦ id).toIsTidy
  obtain ⟨-, -, hmadeOf⟩ := hlist (by decide +kernel)
  have hiff := hmadeOf _ htidy hgit ⟨.root, by decide, by decide⟩ (by simp)
  have haccounts := hiff.2 ⟨hreturns, hapart⟩
  exact ⟨rfl, hmade, haccounts⟩

/-- The directory of a repository `x.git` is listed under a text that reads as `x`, which is not
found. -/
theorem repository_listed_otherwise :
    let name := RepoName.sanitize "x.git.git"
    let opened := machine.openStore "/srv/repos" {} fresh
    let created := machine.run (freshStore.create name false) opened.2
    opened.1 = .ok freshStore ∧ created.1 = .ok ⟨name, "/srv/repos/x.git.git", false⟩ ∧
      (machine.run (freshStore.lookup name) created.2).1.isOk = true ∧
      (∃ listed, (machine.run freshStore.list created.2).1 = .ok listed ∧ name ∉ listed) ∧
      (machine.run (freshStore.lookup (RepoName.sanitize "x")) created.2).1 = .error .notFound := by
  have hpolicy : Policy.ofSettings {} = .ok freshStore.policy := rfl
  have hpath : repoPath "/srv/repos" (RepoName.sanitize "x.git.git") =
      .ok ⟨[.root, .normal "srv", .normal "repos", .normal "x.git.git"]⟩ := by decide +kernel
  have hlost := Machine.notMem_list_of_not_returns (x := fresh) isLawful_machine hpolicy
    isGround_fresh leadsTo_fresh isEmptyAt_fresh rfl hpath ⟨.root, by decide, by decide⟩
    (by decide +kernel) false
  have hfound :
      let created := machine.run (freshStore.create (RepoName.sanitize "x.git.git") false) fresh
      created.1 = .ok ⟨RepoName.sanitize "x.git.git", "/srv/repos/x.git.git", false⟩ ∧
        (machine.run (freshStore.lookup (RepoName.sanitize "x.git.git")) created.2).1.isOk = true ∧
        (machine.run (freshStore.lookup (RepoName.sanitize "x")) created.2).1 =
          .error .notFound := by
    decide +kernel
  rw [openStore_fresh] at hlost ⊢
  exact ⟨rfl, hfound.1, hfound.2.1, hlost, hfound.2.2⟩

end Scripted

end GitGateway
