import GitGateway.Proofs.FileNames
import GitGateway.Proofs.Searches

/-!
# Walks

A walk looks into the directories on its stack in an order that the disk decides.  What it finds is
what is gathered by going down the tree with the same two tests, in another order
(`exists_walkFrom`): what is gathered in the directories on the stack is what the walk has still to
find, and to look into a directory only moves a part of that to what was found already.  Every path
that the walk takes goes on from the root along proper names, so it never fails (`exists_walk`).
Where the system shows the tree as it is, it finds what a listing finds (`exists_walk_of_isPlain`).
-/

namespace GitGateway

/-- What a path leads to on a disk has only proper names in it. -/
def Disk.IsProperBelow (d : Disk) (root : String) : Prop :=
  ∀ place e, d.lead true root = .entry place e → e.Named FileName.IsProper

/-- What a path leads to on a disk has a name of its own for each entry of a directory, and the
system shows it as it is. -/
def Disk.IsPlainBelow (d : Disk) (root : String) : Prop :=
  ∀ place e, d.lead true root = .entry place e → e.hasOwnNames = true ∧ d.IsPlain root place

theorem Entry.Named.at? {kind : FileName → Prop} {e c : Entry} {place : List FileName}
    (h : e.Named kind) (hat : e.at? place = some c) : c.Named kind := by
  induction place generalizing e with
  | nil =>
    cases hat
    exact h
  | cons name place ih =>
    obtain ⟨child, hchild, hbelow⟩ := Option.bind_eq_some_iff.1 hat
    obtain ⟨r, es, rfl⟩ := Disk.exists_of_child? hchild
    exact ih (Entry.named_dir_iff.1 h _ (Entry.mem_of_child? hchild)).2 hbelow

theorem Disk.isProperBelow_of_named {d : Disk} (h : d.top.Named FileName.IsProper)
    (root : String) : d.IsProperBelow root := by
  intro place e hlead
  rcases Disk.lead_cases d true root with ⟨there, hto, -⟩ | ⟨cause, hrefused⟩
  · rw [hlead] at hto
    exact h.at? hto.2
  · rw [hlead] at hrefused
    cases hrefused

namespace Listing

variable (d : Disk) (rights : List FileName → Bool) (root : String)

/-- Whether a walk may look into what names lead down to, innermost first. -/
def looksInto (names : List FileName) : Bool :=
  match d.leadAlong rights root names.reverse with
  | .entry _ _ => true
  | _ => false

/-- What is gathered below some names, by the tests of a walk. -/
def gatherBelow (below : List FileName) (es : List (FileName × Entry)) : List String :=
  Entry.gather (seesRepository d rights root) (looksInto d rights root)
    (fun names ↦ dropSuffix (shown names)) below es

namespace Directory

/-- What is gathered in a directory that a walk came to. -/
def gathered (dir : Directory) : List String :=
  if dir.readable && looksInto d rights root dir.below then
    gatherBelow d rights root dir.below dir.entries
  else []

/-- A directory that proper names lead down to from a root, and below which all names are proper. -/
structure IsProper (dir : Directory) : Prop where
  below : ∀ name ∈ dir.below, name.IsProper
  named : ∀ p ∈ dir.entries, p.1.IsProper ∧ p.2.Named FileName.IsProper

variable {d rights root} {dir : Directory}

theorem refusal?_eq_none_iff : dir.refusal? d rights root = none ↔
    (dir.readable && looksInto d rights root dir.below) = true := by
  unfold refusal? looksInto
  cases d.leadAlong rights root dir.below.reverse <;> cases dir.readable <;> simp

/-- The directories in a directory are one name further down. -/
theorem IsProper.of_mem_children (h : dir.IsProper) {c : Directory} (hc : c ∈ dir.children) :
    c.IsProper := by
  obtain ⟨⟨name, e⟩, hmem, hchild⟩ := List.mem_filterMap.1 hc
  cases e with
  | dir r es =>
    cases hchild
    obtain ⟨hname, hbelow⟩ := h.named _ hmem
    exact ⟨List.forall_mem_cons.2 ⟨hname, h.below⟩, Entry.named_dir_iff.1 hbelow⟩
  | file | link => cases hchild

/-- Every directory that a walk comes to has a name below the root. -/
theorem IsProper.name_eq (h : dir.IsProper) :
    dir.name root = .ok (dropSuffix (shown dir.below)) := by
  rw [name, path, Path.below?_trail h.below]

/-- The repositories among directories below a root all have names. -/
theorem mapM_name_eq {dirs : List Directory} (h : ∀ dir ∈ dirs, dir.IsProper) :
    dirs.mapM (name root) = .ok (dirs.map fun dir ↦ dropSuffix (shown dir.below)) := by
  induction dirs with
  | nil => rfl
  | cons dir dirs ih =>
    rw [List.forall_mem_cons] at h
    rw [List.mapM_cons, h.1.name_eq, ih h.2]
    rfl

end Directory

open Directory

variable {d rights root} {dir : Directory}

/-- What is gathered in a directory: the repositories in it, and what is gathered in the others. -/
theorem gatherBelow_perm (dir : Directory) (es : List (FileName × Entry)) :
    (gatherBelow d rights root dir.below es).Perm
      (((es.filterMap dir.child?).filter fun c ↦ seesRepository d rights root c.below).map
          (fun c ↦ dropSuffix (shown c.below)) ++
        ((es.filterMap dir.child?).filter fun c ↦ !seesRepository d rights root c.below).flatMap
          (gathered d rights root)) := by
  induction es with
  | nil => exact .of_eq (by rw [gatherBelow, Entry.gather]; rfl)
  | cons entry es ih =>
    obtain ⟨name, e⟩ := entry
    cases e with
    | file | link =>
      rw [gatherBelow, Entry.gather_cons_of_ne (by rintro _ _ _ ⟨⟩)]
      exact ih
    | dir r sub =>
      have hcons : ((name, Entry.dir r sub) :: es).filterMap dir.child? =
          ⟨name :: dir.below, r, sub⟩ :: es.filterMap dir.child? := rfl
      rw [gatherBelow, Entry.gather_cons, hcons, List.filter_cons, List.filter_cons, Entry.gatherDir]
      cases seesRepository d rights root (name :: dir.below) with
      | true => exact ih.cons _
      | false =>
        -- what is gathered in this directory changes places with the repositories behind it
        refine (ih.append_left _).trans ?_
        rw [← List.append_assoc]
        exact (List.perm_append_comm.append_right _).trans (.of_eq (by rw [List.append_assoc]; rfl))

/-- A walk finds what is gathered in the directories on its stack, and never fails. -/
theorem exists_walkFrom {found : Listing} {stack : List Directory}
    (h : ∀ dir ∈ stack, dir.IsProper) : ∃ l, walkFrom d rights root found stack = .ok l ∧
      l.names.Perm (found.names ++ stack.flatMap (gathered d rights root)) := by
  induction found, stack using walkFrom.induct d rights root with
  | case1 found => exact ⟨found, by rw [walkFrom], .of_eq (List.append_nil _).symm⟩
  | case2 found dir stack e hrefusal ih =>
    rw [List.forall_mem_cons] at h
    obtain ⟨l, hl, hperm⟩ := ih h.2
    have hclosed : ¬ (dir.readable && looksInto d rights root dir.below) = true := by
      rw [← refusal?_eq_none_iff, hrefusal]
      rintro ⟨⟩
    refine ⟨l, by rw [walkFrom, hrefusal]; exact hl, ?_⟩
    rw [names_append, List.append_nil] at hperm
    rwa [List.flatMap_cons, gathered, if_neg hclosed, List.nil_append]
  | case3 found dir stack hrefusal ih =>
    rw [List.forall_mem_cons] at h
    obtain ⟨hdir, hstack⟩ := h
    have hnames : (dir.repositories d rights root).mapM (name root) = .ok _ :=
      mapM_name_eq fun c hc ↦ hdir.of_mem_children (List.mem_of_mem_filter hc)
    obtain ⟨l, hl, hperm⟩ := ih _ fun c hc ↦ by
      rcases List.mem_append.1 hc with hc | hc
      · exact hdir.of_mem_children (List.mem_of_mem_filter (List.mem_reverse.1 hc))
      · exact hstack c hc
    refine ⟨l, by rw [walkFrom, hrefusal]; simp only [hnames]; exact hl, hperm.trans ?_⟩
    rw [names_append, List.append_assoc, List.flatMap_cons, List.flatMap_append, gathered,
      if_pos (refusal?_eq_none_iff.1 hrefusal)]
    refine List.Perm.append_left _ ?_
    rw [← List.append_assoc]
    refine List.Perm.append_right _ (.trans ?_ (gatherBelow_perm dir dir.entries).symm)
    exact ((List.reverse_perm _).flatMap_right _).append_left _

/-! ## The whole walk -/

theorem pairwise_sorted (l : Listing) :
    l.sorted.names.Pairwise fun a b ↦ decide (a ≤ b) = true := by
  refine List.pairwise_mergeSort (fun _ _ _ hab hbc ↦ ?_) (fun a b ↦ ?_) l.names
  · exact decide_eq_true (String.le_trans (of_decide_eq_true hab) (of_decide_eq_true hbc))
  · simpa using String.le_total a b

/-- Sorted, findings with the same names have them in the same order. -/
theorem names_sorted_eq {a b : Listing} (h : a.names.Perm b.names) :
    a.sorted.names = b.sorted.names := by
  have hperm : a.sorted.names.Perm b.sorted.names :=
    ((List.mergeSort_perm ..).trans h).trans (List.mergeSort_perm ..).symm
  exact hperm.eq_of_pairwise
    (fun _ _ _ _ hab hba ↦ String.le_antisymm (of_decide_eq_true hab) (of_decide_eq_true hba))
    (pairwise_sorted a) (pairwise_sorted b)

variable (d rights root) in
/-- What is gathered below a root by the tests of a walk. -/
def gatheredBelow : List String :=
  match d.leadAlong rights root [] with
  | .entry _ (.dir true es) => gatherBelow d rights root [] es
  | _ => []

/-- Below a root that has only proper names below it, a walk finds what is gathered by its tests. -/
theorem exists_walk
    (h : ∀ place e, d.leadAlong rights root [] = .entry place e → e.Named FileName.IsProper) :
    ∃ l, walk d rights root = .ok l ∧
      l.names = (sorted ⟨gatheredBelow d rights root, []⟩).names := by
  have hnil : ∀ unreadable, (⟨[], unreadable⟩ : Listing).names = (sorted ⟨[], []⟩).names := fun _ ↦
    List.mergeSort_nil.symm
  rw [walk, gatheredBelow]
  cases hlead : d.leadAlong rights root [] with
  | missing | refused => exact ⟨{}, rfl, hnil _⟩
  | entry place e =>
    cases e with
    | file | link => exact ⟨_, rfl, hnil _⟩
    | dir r es =>
      have hdir : Directory.IsProper ⟨[], r, es⟩ :=
        ⟨List.forall_mem_nil _, Entry.named_dir_iff.1 (h _ _ hlead)⟩
      obtain ⟨l, hl, hperm⟩ := @exists_walkFrom d rights root {} [⟨[], r, es⟩]
        (List.forall_mem_singleton.2 hdir)
      refine ⟨l.sorted, by dsimp only; rw [hl]; rfl, names_sorted_eq (hperm.trans (.of_eq ?_))⟩
      have hroot : looksInto d rights root [] = true := by
        rw [looksInto, List.reverse_nil, hlead]
      rw [List.flatMap_singleton, gathered, hroot, Bool.and_true]
      cases r with
      | true => rfl
      | false => rfl

/-! ## Where the system shows the tree as it is -/

section Plain

variable {place base : List FileName} {r : Bool} {es : List (FileName × Entry)}
variable (hroot : d.lead true root = .entry base (.dir r es)) (hplain : d.IsPlain root base)

include hroot hplain

/-- A walk sees the repositories that lie in the tree. -/
theorem seesRepository_eq {names : List FileName} (hne : names ≠ [])
    (hdir : d.IsDirAt (base ++ names)) :
    seesRepository d Disk.everywhere root names.reverse = isRepository d (base ++ names) := by
  have hhead := hplain.isFile_head_iff hroot hdir
  have hholds := @holdsHead_iff d (base ++ names) fun _ ↦ hplain.noLink
  rw [seesRepository, isRepository, List.reverse_reverse, List.head?_reverse,
    Bool.eq_iff_iff.2 (hhead.trans hholds.symm), List.getLast?_append_of_ne_nil _ hne]

theorem looksInto_eq {names : List FileName} (hdir : d.IsDirAt (base ++ names)) :
    looksInto d Disk.everywhere root names.reverse = true := by
  obtain ⟨e, he⟩ := hplain.exists_leadAlong_eq hroot hdir
  rw [looksInto, List.reverse_reverse, he]

/-- Below such a root a walk finds what a listing finds. -/
theorem gatheredBelow_eq (hown : Entry.haveOwnNames es = true) :
    gatheredBelow d Disk.everywhere root = (find d root).names := by
  obtain ⟨place, hto, hleads⟩ | ⟨e, hrefused⟩ := Disk.lead_cases d true root
  · rw [hroot] at hto
    obtain ⟨rfl, hat⟩ := hto
    rw [gatheredBelow, Disk.leadAlong_nil, find, hroot]
    cases r with
    | false => rfl
    | true =>
      dsimp only
      rw [names_ofEntries, gatherBelow]
      simp only [List.append_nil]
      refine Entry.gather_congr (r := true) hown fun path r' hkind hne ↦ ?_
      have hdir : d.IsDirAt (base ++ path) := by
        refine ⟨r', ?_⟩
        rw [Disk.kindAt, Entry.kindAt_append, hat]
        exact hkind
      rw [List.append_nil, List.reverse_reverse, List.reverse_reverse]
      exact ⟨seesRepository_eq hroot hplain hne hdir, looksInto_eq hroot hplain hdir⟩
  · cases hroot.symm.trans hrefused

end Plain

/-- A walk that may search every directory never fails below a root that has only proper names below
it. -/
theorem exists_walk_everywhere (h : d.IsProperBelow root) :
    ∃ l, walk d Disk.everywhere root = .ok l ∧
      l.names = (sorted ⟨gatheredBelow d Disk.everywhere root, []⟩).names := by
  refine exists_walk ?_
  rw [Disk.leadAlong_nil]
  exact h

/-- Where the system shows the tree as it is, such a walk finds what a listing finds. -/
theorem exists_walk_of_isPlain (h : d.IsProperBelow root) (hplain : d.IsPlainBelow root) :
    ∃ l, walk d Disk.everywhere root = .ok l ∧ l.names = (ofDisk d root).names := by
  obtain ⟨l, hl, hnames⟩ := exists_walk_everywhere h
  refine ⟨l, hl, hnames.trans (congrArg (fun names ↦ (sorted ⟨names, []⟩).names) ?_)⟩
  cases hlead : d.lead true root with
  | missing | refused =>
    rw [gatheredBelow, Disk.leadAlong_nil, find, hlead]
  | entry place e =>
    cases e with
    | file | link => rw [gatheredBelow, Disk.leadAlong_nil, find, hlead]
    | dir r es =>
      obtain ⟨hown, hshown⟩ := hplain _ _ hlead
      exact gatheredBelow_eq hlead hshown hown

end Listing

end GitGateway
