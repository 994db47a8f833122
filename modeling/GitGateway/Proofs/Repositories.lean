import GitGateway.Proofs.Readback
import GitGateway.Proofs.Searches
import GitGateway.Proofs.Walks

/-!
# What a walk finds

A walk finds the directories that have the extension `git` and in which the system shows a file
`HEAD`, if those that lie between them and the root can be read, are shown by the system and are no
such repositories themselves (`walk_finds_shown_repositories`).  Nothing in this depends on the
order of entries, and a directory is told by the text that it is found under.

What the system shows is what lies in the tree, where every directory may be searched, no name or
path is too long for it, and no `HEAD` is a link (`Disk.IsPlain`).  Elsewhere a walk misses
repositories: one in a directory that may not be searched, and one that lies too deep.
-/

namespace GitGateway

open Disk

/-! ## Names of repositories -/

namespace FileName

/-- The extension of a text, taken apart: it stands behind the last dot. -/
theorem eq_append_of_extensionOf {name after : List Char}
    (h : extensionOf '.' name = some after) : ∃ stem, stem ≠ [] ∧ name = stem ++ '.' :: after := by
  unfold extensionOf at h
  split at h
  · cases h
  · simp only [Option.ite_none_right_eq_some, Option.some.injEq] at h
    obtain ⟨hlength, rfl⟩ := h
    rw [List.length_reverse] at hlength
    have hsplit := List.takeWhile_append_dropWhile (p := (· != '.')) (l := name.reverse)
    cases hdrop : name.reverse.dropWhile (· != '.') with
    | nil =>
      rw [hdrop, List.append_nil] at hsplit
      rw [hsplit, List.length_reverse] at hlength
      omega
    | cons c stem =>
      have hdot : c = '.' := by
        have hne : name.reverse.dropWhile (· != '.') ≠ [] := by simp [hdrop]
        simpa [hdrop] using List.head_dropWhile_not (· != '.') hne
      subst hdot
      rw [hdrop] at hsplit
      refine ⟨stem.reverse, fun hnil ↦ ?_, ?_⟩
      · rw [List.reverse_eq_nil_iff.1 hnil] at hsplit
        have := congrArg List.length hsplit
        rw [List.length_append, List.length_reverse, List.length_singleton] at this
        omega
      · have := congrArg List.reverse hsplit
        simpa using this.symm

/-- A text is the name of a repository if something stands before its extension `git`. -/
theorem isGit_text_iff {s : String} :
    (FileName.text s).isGit = true ↔ ∃ stem, stem ≠ "" ∧ s = stem ++ ".git" := by
  have hgit : ".git".toList = ['.', 'g', 'i', 't'] := RepoName.toList_suffix
  rw [isGit, beq_iff_eq]
  constructor
  · intro h
    obtain ⟨stem, hne, hs⟩ := eq_append_of_extensionOf h
    refine ⟨String.ofList stem, by simpa using hne, String.toList_inj.1 ?_⟩
    rw [hs, String.toList_append, String.toList_ofList, hgit]
  · rintro ⟨stem, hne, rfl⟩
    rw [String.toList_append, hgit]
    exact RepoName.extensionOf_append (by simpa using hne)

end FileName

/-! ## Names that are texts -/

/-- A proper name that is a text. -/
def FileName.IsText (name : FileName) : Prop := ∃ s, name = .text s ∧ Path.IsProper s

theorem FileName.IsText.isProper {name : FileName} (h : name.IsText) : name.IsProper := by
  obtain ⟨s, rfl, hs⟩ := h
  exact hs

/-- Names that lead down to an entry are of the kind that all names have there. -/
theorem Entry.Named.of_kindAt {kind : FileName → Prop} {e : Entry} {path : List FileName} {k : Kind}
    (h : e.Named kind) (hkind : e.kindAt path = some k) : ∀ name ∈ path, kind name := by
  induction path generalizing e with
  | nil => exact List.forall_mem_nil _
  | cons name path ih =>
    rw [Entry.kindAt_cons] at hkind
    obtain ⟨c, hchild, hbelow⟩ := Option.bind_eq_some_iff.1 hkind
    obtain ⟨r, es, rfl⟩ := exists_of_child? hchild
    obtain ⟨hname, hc⟩ := Entry.named_dir_iff.1 h _ (Entry.mem_of_child? hchild)
    exact List.forall_mem_cons.2 ⟨hname, ih hc hbelow⟩

theorem exists_texts {path : List FileName} (h : ∀ name ∈ path, name.IsText) :
    ∃ names : List String, path = names.map .text ∧ ∀ s ∈ names, Path.IsProper s := by
  induction path with
  | nil => exact ⟨[], rfl, List.forall_mem_nil _⟩
  | cons name path ih =>
    rw [List.forall_mem_cons] at h
    obtain ⟨⟨s, rfl, hs⟩, hpath⟩ := h
    obtain ⟨names, rfl, hnames⟩ := ih hpath
    exact ⟨s :: names, rfl, List.forall_mem_cons.2 ⟨hs, hnames⟩⟩

/-! ## Repositories below a root -/

namespace Disk

variable {d d' : Disk} {rights : List FileName → Bool} {root : String} {base : List FileName}
variable {names : List String} {repository repository' opens opens' : List String → Prop}

/-- Names lead down to a directory, not to a link to one, and the last of them has the extension
`git`. -/
structure IsGitDirectory (d : Disk) (base : List FileName) (names : List String) : Prop where
  dir : d.IsDirAt (base ++ names.map .text)
  name : ∃ init stem, stem ≠ "" ∧ names = init ++ [stem ++ ".git"]

/-- A bare repository in the tree: such a directory in which a file `HEAD` lies. -/
def HoldsRepository (d : Disk) (base : List FileName) (names : List String) : Prop :=
  d.IsGitDirectory base names ∧
    d.kindAt (base ++ names.map .text ++ [.text "HEAD"]) = some .file

/-- A bare repository as the system shows it: such a directory in which it shows a file `HEAD`. -/
def ShowsRepository (d : Disk) (rights : List FileName → Bool) (root : String)
    (base : List FileName) (names : List String) : Prop :=
  d.IsGitDirectory base names ∧
    (d.leadAlong rights root (names.map .text ++ [.text "HEAD"])).isFile = true

/-- The system shows what names lead down to. -/
def Shows (d : Disk) (rights : List FileName → Bool) (root : String) (names : List String) : Prop :=
  ∃ place e, d.leadAlong rights root (names.map .text) = .entry place e

/-- Names lead down to a repository: every directory between the two can be read and is open, and
none is a repository itself. -/
structure IsOpen (d : Disk) (base : List FileName) (repository opens : List String → Prop)
    (names : List String) : Prop where
  found : repository names
  way : ∀ front, front <+: names → front ≠ [] → front ≠ names →
    d.kindAt (base ++ front.map .text) = some (.dir true) ∧ opens front ∧ ¬ repository front

theorem IsGitDirectory.ne_nil (h : d.IsGitDirectory base names) : names ≠ [] := by
  obtain ⟨init, stem, -, rfl⟩ := h.name
  simp

/-- The text of the names down to a repository, without the extension. -/
theorem IsGitDirectory.intercalate_eq (h : d.IsGitDirectory base names) :
    String.intercalate "/" names =
      Listing.dropSuffix (Listing.shown (names.map .text).reverse) ++ ".git" := by
  obtain ⟨init, stem, hstem, rfl⟩ := h.name
  rw [RepoName.shown_texts, ← RepoName.intercalate_concat_append]
  exact congrArg (· ++ ".git") (RepoName.dropSuffix_append _).symm

/-- Names lead down to a repository on another disk as well, or by other tests, that agree with
these at the directories. -/
theorem IsOpen.mono (h : d.IsOpen base repository opens names)
    (hkind : ∀ place, d'.kindAt place = d.kindAt place)
    (hfound : repository names → repository' names)
    (hfront : ∀ front : List String, d.IsDirAt (base ++ front.map .text) →
      (repository' front → repository front) ∧ (opens front → opens' front)) :
    d'.IsOpen base repository' opens' names where
  found := hfound h.found
  way front hprefix hne hother := by
    obtain ⟨hdir, hopen, hnot⟩ := h.way front hprefix hne hother
    obtain ⟨hrepository, hopens⟩ := hfront front ⟨_, hdir⟩
    exact ⟨(hkind _).trans hdir, hopens hopen, hnot ∘ hrepository⟩

/-! ### In whatever order the entries stand -/

section Order

variable (hhere : d'.here = d.here) (hkind : ∀ place, d'.kindAt place = d.kindAt place)

include hhere hkind

theorem showsRepository_congr :
    d'.ShowsRepository rights root base names ↔ d.ShowsRepository rights root base names := by
  have hdir : d'.IsGitDirectory base names ↔ d.IsGitDirectory base names :=
    ⟨fun ⟨⟨r, h⟩, hname⟩ ↦ ⟨⟨r, (hkind _).symm.trans h⟩, hname⟩,
      fun ⟨⟨r, h⟩, hname⟩ ↦ ⟨⟨r, (hkind _).trans h⟩, hname⟩⟩
  rw [ShowsRepository, ShowsRepository, hdir, isFile_iff_told, isFile_iff_told,
    told_leadAlong_congr hhere hkind]

theorem shows_congr : d'.Shows rights root names ↔ d.Shows rights root names := by
  rw [Shows, Shows, exists_entry_iff_told, exists_entry_iff_told, told_leadAlong_congr hhere hkind]

theorem isOpen_shown_congr :
    d'.IsOpen base (d'.ShowsRepository rights root base) (d'.Shows rights root) names ↔
      d.IsOpen base (d.ShowsRepository rights root base) (d.Shows rights root) names :=
  ⟨fun h ↦ h.mono (fun place ↦ (hkind place).symm) (showsRepository_congr hhere hkind).1 fun _ _ ↦
      ⟨(showsRepository_congr hhere hkind).2, (shows_congr hhere hkind).1⟩,
    fun h ↦ h.mono hkind (showsRepository_congr hhere hkind).2 fun _ _ ↦
      ⟨(showsRepository_congr hhere hkind).1, (shows_congr hhere hkind).2⟩⟩

end Order

/-! ### Where the system shows the tree as it is -/

section Plain

variable {r : Bool} {es : List (FileName × Entry)}
variable (hroot : d.lead true root = .entry base (.dir r es)) (hplain : d.IsPlain root base)
variable (hdir : d.IsDirAt (base ++ names.map .text))

include hroot hplain hdir

theorem IsPlain.showsRepository_iff :
    d.ShowsRepository everywhere root base names ↔ d.HoldsRepository base names :=
  and_congr_right fun _ ↦ hplain.isFile_head_iff hroot hdir

theorem IsPlain.shows : d.Shows everywhere root names :=
  ⟨_, hplain.exists_leadAlong_eq hroot hdir⟩

end Plain

/-- Then it shows a repository exactly where one lies in the tree. -/
theorem IsPlain.isOpen_iff {r : Bool} {es : List (FileName × Entry)} (hplain : d.IsPlain root base)
    (hroot : d.lead true root = .entry base (.dir r es)) :
    d.IsOpen base (d.ShowsRepository everywhere root base) (d.Shows everywhere root) names ↔
      d.IsOpen base (d.HoldsRepository base) (fun _ ↦ True) names := by
  have hiff : ∀ {names : List String}, d.IsDirAt (base ++ names.map .text) →
      (d.ShowsRepository everywhere root base names ↔ d.HoldsRepository base names) :=
    fun hdir ↦ hplain.showsRepository_iff hroot hdir
  constructor
  · intro h
    refine h.mono (fun _ ↦ rfl) (fun hfound ↦ (hiff hfound.1.dir).1 hfound) fun _ hdir ↦ ?_
    exact ⟨(hiff hdir).2, fun _ ↦ trivial⟩
  · intro h
    refine h.mono (fun _ ↦ rfl) (fun hfound ↦ (hiff hfound.1.dir).2 hfound) fun _ hdir ↦ ?_
    exact ⟨(hiff hdir).1, fun _ ↦ hplain.shows hroot hdir⟩

end Disk

/-! ## What a walk gathers -/

namespace Listing

variable {d : Disk} {rights : List FileName → Bool} {root e : String} {base : List FileName}
variable {names : List String} {es : List (FileName × Entry)}

/-- A walk sees a repository where the system shows one. -/
theorem seesRepository_iff (hdir : d.IsDirAt (base ++ names.map .text)) :
    seesRepository d rights root ((names.map .text).reverse ++ []) = true ↔
      d.ShowsRepository rights root base names := by
  rw [List.append_nil, seesRepository, List.reverse_reverse, List.head?_reverse, Bool.and_eq_true]
  refine and_congr_left fun _ ↦ ⟨fun h ↦ ⟨hdir, ?_⟩, fun h ↦ ?_⟩
  · obtain ⟨init, last, rfl⟩ := List.eq_nil_or_concat names |>.resolve_left <| by
      rintro rfl
      cases h
    rw [List.concat_eq_append, List.map_append, List.map_singleton, List.getLast?_concat,
      Option.any_some, FileName.isGit_text_iff] at h
    obtain ⟨stem, hstem, rfl⟩ := h
    exact ⟨init, stem, hstem, List.concat_eq_append⟩
  · obtain ⟨init, stem, hstem, rfl⟩ := h.name
    rw [List.map_append, List.map_singleton, List.getLast?_concat, Option.any_some,
      FileName.isGit_text_iff]
    exact ⟨stem, hstem, rfl⟩

theorem looksInto_iff :
    looksInto d rights root ((names.map .text).reverse ++ []) = true ↔ d.Shows rights root names := by
  rw [List.append_nil, looksInto, List.reverse_reverse, Shows]
  cases d.leadAlong rights root (names.map .text) <;> simp

/-- Names lead down to a repository by the tests of a walk if they do as the system shows it. -/
theorem leads_iff (hat : d.top.at? base = some (.dir true es)) :
    Entry.Leads (seesRepository d rights root) (looksInto d rights root) [] (.dir true es)
        (names.map .text) ↔
      d.IsOpen base (d.ShowsRepository rights root base) (d.Shows rights root) names := by
  have hkind : ∀ path, (Entry.dir true es).kindAt path = d.kindAt (base ++ path) := by
    intro path
    rw [kindAt, Entry.kindAt_append, hat, Option.bind_some]
  constructor
  · intro h
    have hdir : d.IsDirAt (base ++ names.map .text) := by
      obtain ⟨r, hr⟩ := h.dir
      exact ⟨r, (hkind _).symm.trans hr⟩
    refine ⟨(seesRepository_iff hdir).1 h.found, fun front hfront hne hother ↦ ?_⟩
    obtain ⟨hkind', hopen, hnot⟩ := h.way _ (hfront.map _) (by simpa using hne) fun heq ↦ hother
      ((List.map_inj_right fun _ _ h ↦ FileName.text.inj h).1 heq)
    rw [hkind] at hkind'
    refine ⟨hkind', looksInto_iff.1 hopen, fun hshown ↦ ?_⟩
    cases hnot.symm.trans ((seesRepository_iff ⟨_, hkind'⟩).2 hshown)
  · intro h
    have hdir := h.found.1.dir
    refine ⟨by simpa using h.found.1.ne_nil, ?_, (seesRepository_iff hdir).2 h.found,
      fun front hfront hne hother ↦ ?_⟩
    · obtain ⟨r, hr⟩ := hdir
      exact ⟨r, (hkind _).trans hr⟩
    · rw [List.prefix_iff_eq_take, ← List.map_take] at hfront
      generalize hshort : names.take front.length = short at hfront
      subst hfront
      obtain ⟨hkind', hopen, hnot⟩ := h.way short (hshort ▸ List.take_prefix _ _)
        (by simpa using hne) fun heq ↦ hother (by rw [heq])
      refine ⟨(hkind _).trans hkind', looksInto_iff.2 hopen, Bool.eq_false_iff.2 fun hsees ↦ hnot ?_⟩
      exact (seesRepository_iff ⟨_, hkind'⟩).1 hsees

end Listing

/-! ## Below a root -/

/-- A readable directory that the system shows at a root, below which every entry has a name of its
own in its directory, which is a text. -/
structure Disk.IsShelf (d : Disk) (rights : List FileName → Bool) (root : String)
    (base : List FileName) : Prop where
  shown : ∃ es, d.leadAlong rights root [] = .entry base (.dir true es) ∧
    Entry.haveOwnNames es = true ∧ (Entry.dir true es).Named FileName.IsText

namespace Disk.IsShelf

open Listing

variable {d : Disk} {rights : List FileName → Bool} {root e : String} {base : List FileName}
variable (h : d.IsShelf rights root base)

include h

/-- Directories below the root are told apart by their texts. -/
theorem eq_of_intercalate_eq {names names' : List String} (hgit : d.IsGitDirectory base names)
    (hgit' : d.IsGitDirectory base names')
    (htext : String.intercalate "/" names = String.intercalate "/" names') : names = names' := by
  obtain ⟨es, hlead, -, htexts⟩ := h.shown
  have hproper : ∀ {names : List String}, d.IsGitDirectory base names →
      ∀ s ∈ names, '/' ∉ s.toList := by
    rintro names ⟨⟨r, hdir⟩, -⟩ s hs
    rw [kindAt, Entry.kindAt_append, at?_of_leadAlong hlead, Option.bind_some] at hdir
    obtain ⟨t, ht, htproper⟩ := htexts.of_kindAt hdir _ (List.mem_map_of_mem hs)
    cases ht
    exact htproper.2.2.2
  rw [← Path.pieces_intercalate (hproper hgit) hgit.ne_nil, htext,
    Path.pieces_intercalate (hproper hgit') hgit'.ne_nil]

/-- What is gathered are the repositories that the system shows behind open directories. -/
theorem mem_gatheredBelow_iff : e ∈ gatheredBelow d rights root ↔ ∃ names,
    d.IsOpen base (d.ShowsRepository rights root base) (d.Shows rights root) names ∧
      String.intercalate "/" names = e ++ ".git" := by
  obtain ⟨es, hlead, hown, htexts⟩ := h.shown
  have hat := at?_of_leadAlong hlead
  rw [gatheredBelow, hlead]
  dsimp only
  rw [gatherBelow, Entry.mem_gather_iff]
  constructor
  · rintro ⟨_, hgathers, rfl⟩
    obtain ⟨path, hleads, rfl⟩ := hgathers.leads (r := true) hown
    obtain ⟨r, hdir⟩ := hleads.dir
    obtain ⟨names, rfl, -⟩ := exists_texts (htexts.of_kindAt hdir)
    have hopen := (leads_iff hat).1 hleads
    exact ⟨names, hopen, by rw [List.append_nil, hopen.found.1.intercalate_eq]⟩
  · rintro ⟨names, hopen, htext⟩
    refine ⟨_, ((leads_iff hat).2 hopen).gathers, ?_⟩
    rw [List.append_nil]
    exact (String.append_left_inj _).1 (htext.symm.trans hopen.found.1.intercalate_eq)

/-- Each repository is gathered once. -/
theorem nodup_gatheredBelow : (gatheredBelow d rights root).Nodup := by
  obtain ⟨es, hlead, hown, htexts⟩ := h.shown
  have hnames : ∀ {names : List FileName},
      Entry.Gathers (seesRepository d rights root) (looksInto d rights root) [] es names →
        ∃ texts : List String, names = (texts.map .text).reverse ∧ d.IsGitDirectory base texts := by
    intro names hgathers
    obtain ⟨path, hleads, rfl⟩ := hgathers.leads (r := true) hown
    obtain ⟨r, hdir⟩ := hleads.dir
    obtain ⟨texts, rfl, -⟩ := exists_texts (htexts.of_kindAt hdir)
    exact ⟨texts, List.append_nil _, ((leads_iff (at?_of_leadAlong hlead)).1 hleads).found.1⟩
  rw [gatheredBelow, hlead]
  refine Entry.nodup_gather hown fun names names' hgathers hgathers' htext ↦ ?_
  obtain ⟨texts, rfl, hgit⟩ := hnames hgathers
  obtain ⟨texts', rfl, hgit'⟩ := hnames hgathers'
  rw [h.eq_of_intercalate_eq hgit hgit' (by rw [hgit.intercalate_eq, hgit'.intercalate_eq, htext])]

/-- A directory whose `HEAD` the system does not show is not found. -/
theorem notMem_gatheredBelow {names : List String} (hgit : d.IsGitDirectory base names)
    (htext : String.intercalate "/" names = e ++ ".git")
    (hhidden : (d.leadAlong rights root (names.map .text ++ [.text "HEAD"])).isFile = false) :
    e ∉ gatheredBelow d rights root := by
  rw [h.mem_gatheredBelow_iff]
  rintro ⟨names', hopen, htext'⟩
  have hshown := hopen.found.2
  rw [h.eq_of_intercalate_eq hopen.found.1 hgit (htext'.trans htext.symm), hhidden] at hshown
  cases hshown

/-- A walk never fails, and finds the repositories in order, none of them twice. -/
theorem exists_walk : ∃ l, walk d rights root = .ok l ∧ l.names.Pairwise (· < ·) ∧
    ∀ e, e ∈ l.names ↔ e ∈ gatheredBelow d rights root := by
  obtain ⟨l, hl, hnames⟩ := @Listing.exists_walk d rights root fun place e hlead ↦ by
    obtain ⟨es, hshown, -, htexts⟩ := h.shown
    cases hlead.symm.trans hshown
    exact htexts.mono fun name hname ↦ hname.isProper
  have hperm : l.names.Perm (gatheredBelow d rights root) := by
    rw [hnames]
    exact List.mergeSort_perm ..
  refine ⟨l, hl, ?_, fun e ↦ hperm.mem_iff⟩
  have hordered : l.names.Pairwise fun a b ↦ decide (a ≤ b) = true := by
    rw [hnames]
    exact pairwise_sorted _
  refine (hordered.and (hperm.nodup_iff.2 h.nodup_gatheredBelow)).imp fun {a b} hab ↦ ?_
  by_contra hlt
  exact hab.2 (String.le_antisymm (of_decide_eq_true hab.1) hlt)

end Disk.IsShelf

namespace Disk

/-- A bare repository without anything in it. -/
def bareEntry : Entry := .dir true [(.text "HEAD", .file [])]

/-- A disk with some entries under `/srv`. -/
def stocked (es : List (FileName × Entry)) : Disk where
  top := .dir true [(.text "srv", .dir true es)]

theorem kindAt_dir_swap {r : Bool} {a b : FileName × Entry} (h : a.1 ≠ b.1)
    (place : List FileName) :
    (Entry.dir r [b, a]).kindAt place = (Entry.dir r [a, b]).kindAt place := by
  cases place with
  | nil => rfl
  | cons name place =>
    have hlookup : [b, a].lookup name = [a, b].lookup name := by
      by_cases ha : name = a.1
      · subst ha
        rw [List.lookup_cons_self, List.lookup_cons, beq_false_of_ne h]
        exact List.lookup_cons_self
      · rw [List.lookup_cons, List.lookup_cons, List.lookup_cons, beq_false_of_ne ha]
        rfl
    rw [Entry.kindAt_cons, Entry.kindAt_cons, Entry.child?, Entry.child?]
    exact congrArg (Option.bind · _) hlookup

theorem kindAt_stocked_swap {a b : FileName × Entry} (h : a.1 ≠ b.1) (place : List FileName) :
    (stocked [b, a]).kindAt place = (stocked [a, b]).kindAt place := by
  cases place with
  | nil => rfl
  | cons name place =>
    rw [kindAt, kindAt, Entry.kindAt_cons, Entry.kindAt_cons]
    by_cases htop : name = .text "srv"
    · subst htop
      exact kindAt_dir_swap h place
    · have hnone : ∀ es, (stocked es).top.child? name = none := fun es ↦ by
        rw [stocked, Entry.child?, Entry.entries, List.lookup_cons, beq_false_of_ne htop]
        rfl
      rw [hnone, hnone]

theorem isShelf_stocked {es : List (FileName × Entry)} (hown : Entry.haveOwnNames es = true)
    (htexts : ∀ p ∈ es, p.1.IsText ∧ p.2.Named FileName.IsText) {rights : List FileName → Bool}
    (hrights : rights [] = true) : (stocked es).IsShelf rights "/srv" [.text "srv"] where
  shown := by
    refine ⟨es, ?_, hown, Entry.named_dir_iff.2 htexts⟩
    have hsteps : steps "/srv" = [.down (.text "srv")] := by decide +kernel
    have hsize : sizeAlong "/srv" [] < maxPath := by decide +kernel
    have hname : ¬ maxName < (FileName.text "srv").size := by decide +kernel
    rw [leadAlong, if_neg (by decide), if_neg (by decide), if_neg (Nat.not_le.2 hsize), hsteps]
    exact followAs_down hrights hname

theorem isText_text {s : String} (h : Path.IsProper s) : (FileName.text s).IsText := ⟨s, rfl, h⟩

theorem named_bareEntry : bareEntry.Named FileName.IsText :=
  Entry.named_dir_iff.2 (List.forall_mem_singleton.2 ⟨isText_text (by decide), .file _⟩)

/-- A directory, one in it, and so on, and a repository in the last. -/
def nested : Nat → Entry
  | 0 => .dir true [(.text "x.git", bareEntry)]
  | n + 1 => .dir true [(.text "a", nested n)]

theorem kindAt_nested (n k : Nat) (place : List FileName) :
    (nested (k + n)).kindAt (List.replicate k (.text "a") ++ place) = (nested n).kindAt place := by
  induction k with
  | zero => rw [Nat.zero_add, List.replicate_zero, List.nil_append]
  | succ k ih =>
    rw [Nat.add_right_comm, nested, List.replicate_succ, List.cons_append, Entry.kindAt_cons]
    exact ih

theorem hasOwnNames_nested (n : Nat) : (nested n).hasOwnNames = true := by
  induction n with
  | zero => decide
  | succ n ih => simpa [nested, Entry.hasOwnNames, Entry.haveOwnNames] using ih

theorem named_nested (n : Nat) : (nested n).Named FileName.IsText := by
  induction n with
  | zero =>
    exact Entry.named_dir_iff.2
      (List.forall_mem_singleton.2 ⟨isText_text (by decide), named_bareEntry⟩)
  | succ n ih =>
    exact Entry.named_dir_iff.2 (List.forall_mem_singleton.2 ⟨isText_text (by decide), ih⟩)

/-- The place of the last directory is behind readable ones that are no repositories. -/
theorem isOpen_nested {d : Disk} {base : List FileName} {n : Nat}
    (hat : d.top.at? base = some (nested n)) : d.IsOpen base (d.HoldsRepository base)
      (fun _ ↦ True) (List.replicate n "a" ++ ["x.git"]) := by
  have hkind : ∀ place, d.kindAt (base ++ place) = (nested n).kindAt place := by
    intro place
    rw [kindAt, Entry.kindAt_append, hat, Option.bind_some]
  have hlast : ∀ place, d.kindAt (base ++ ((List.replicate n "a").map .text ++ place)) =
      (nested 0).kindAt place := by
    intro place
    rw [hkind, List.map_replicate]
    exact kindAt_nested 0 n place
  refine ⟨⟨⟨⟨true, ?_⟩, _, "x", by decide, rfl⟩, ?_⟩, fun front hfront hne hother ↦ ?_⟩
  · rw [List.map_append, hlast]
    rfl
  · rw [List.map_append, List.append_assoc, List.append_assoc, hlast]
    rfl
  · obtain ⟨rest, hrest⟩ := (List.prefix_concat_iff.1 hfront).resolve_left hother
    obtain ⟨hlength, hreplicate, -⟩ := List.append_eq_replicate_iff.1 hrest
    refine ⟨?_, trivial, fun hrepository ↦ ?_⟩
    · have hkindAt := kindAt_nested rest.length front.length []
      rw [hlength, List.append_nil] at hkindAt
      rw [hkind, hreplicate, List.map_replicate, hkindAt]
      cases rest.length <;> rfl
    · obtain ⟨init, stem, hstem, hsame⟩ := hrepository.1.name
      have hmem : stem ++ ".git" ∈ List.replicate front.length "a" := by
        rw [← hreplicate, hsame]
        simp
      have hlong := congrArg String.length (List.mem_replicate.1 hmem).2
      rw [String.length_append] at hlong
      have hgit : ".git".length = 4 := rfl
      have hone : "a".length = 1 := rfl
      omega

theorem sizeBehind_replicate (n : Nat) : sizeBehind (List.replicate n (.text "a")) = 2 * n := by
  have hname : (FileName.text "a").size = 1 := by decide +kernel
  induction n with
  | zero => rfl
  | succ n ih =>
    rw [List.replicate_succ, sizeBehind, ih, hname]
    omega

/-- The path of a repository that lies deep is as long as the names on it and the slashes. -/
theorem sizeAlong_nested (n : Nat) : sizeAlong "/srv"
    ((List.replicate n "a" ++ ["x.git"]).map .text ++ [.text "HEAD"]) = 2 * n + 15 := by
  cases n with
  | zero => decide +kernel
  | succ n =>
    have hfirst : "/srv".utf8ByteSize + 1 + (FileName.text "a").size = 6 := by decide +kernel
    have hlast : sizeBehind [.text "x.git", .text "HEAD"] = 11 := by decide +kernel
    have hnames : (List.replicate n "a" ++ ["x.git"]).map .text ++ [.text "HEAD"] =
        List.replicate n (.text "a") ++ [FileName.text "x.git", .text "HEAD"] := by simp
    rw [List.replicate_succ, List.cons_append, List.map_cons, List.cons_append, sizeAlong, hnames,
      sizeBehind_append, sizeBehind_replicate, hlast]
    exact (congrArg (· + (2 * n + 11)) hfirst).trans (by omega)

/-- The system refuses a path that long. -/
theorem leadAlong_nested (d : Disk) (rights : List FileName → Bool) {n : Nat}
    (h : maxPath ≤ 2 * n + 15) : ∃ cause, d.leadAlong rights "/srv"
      ((List.replicate n "a" ++ ["x.git"]).map .text ++ [.text "HEAD"]) = .refused cause :=
  leadAlong_of_le (h.trans_eq (sizeAlong_nested n).symm)

end Disk

end GitGateway
