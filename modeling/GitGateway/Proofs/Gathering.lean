import GitGateway.Proofs.Trees

/-!
# Going down a tree

Repositories are gathered by going down the entries of a directory, up to the first repository on
each way.  What makes a directory a repository, and whether one may look into it, are two tests of
the names that lead down to it, so the same is shown here for a listing, which looks at the tree
itself, and for what a system shows of it.  Gathered are the repositories that names lead down to
through directories that one may look into (`Entry.mem_gather_iff`), each once where no two entries
of one directory have the same name (`Entry.nodup_gather`).
-/

namespace GitGateway

theorem eq_of_prefix_singleton {α : Type} {front : List α} {a : α} (h : front <+: [a])
    (hne : front ≠ []) : front = [a] := by
  rcases List.prefix_cons_iff.1 h with rfl | ⟨rest, rfl, hrest⟩
  · exact absurd rfl hne
  · rw [List.prefix_nil.1 hrest]

namespace Entry

variable {name : FileName} {e : String}

theorem mem_of_child? {r : Bool} {es : List (FileName × Entry)} {c : Entry}
    (h : (Entry.dir r es).child? name = some c) : (name, c) ∈ es := by
  obtain ⟨front, rest, rfl, -⟩ := List.lookup_eq_some_iff.1 h
  simp

/-! ## Own names -/

mutual

/-- Whether no two entries of one directory have the same name, here and below. -/
def hasOwnNames : Entry → Bool
  | .dir _ es => haveOwnNames es
  | .file _ | .link _ => true

/-- Whether no two entries have the same name, and none of one directory below. -/
def haveOwnNames : List (FileName × Entry) → Bool
  | [] => true
  | (name, e) :: rest =>
    rest.all (fun p => p.1 != name) && hasOwnNames e && haveOwnNames rest

end

theorem haveOwnNames_cons {name : FileName} {e : Entry} {rest : List (FileName × Entry)} :
    haveOwnNames ((name, e) :: rest) = true ↔
      (∀ p ∈ rest, p.1 ≠ name) ∧ e.hasOwnNames = true ∧ haveOwnNames rest = true := by
  simp [haveOwnNames, and_assoc]

theorem hasOwnNames_of_mem {name : FileName} {e : Entry} {es : List (FileName × Entry)}
    (h : haveOwnNames es = true) (he : (name, e) ∈ es) : e.hasOwnNames = true := by
  induction es with
  | nil => cases he
  | cons p es ih =>
    obtain ⟨-, hhead, hrest⟩ := haveOwnNames_cons.1 h
    rcases List.mem_cons.1 he with rfl | he
    · exact hhead
    · exact ih hrest he

/-- What holds of an entry holds below. -/
theorem hasOwnNames_at? {e c : Entry} {place : List FileName} (h : e.hasOwnNames = true)
    (hat : e.at? place = some c) : c.hasOwnNames = true := by
  induction place generalizing e with
  | nil =>
    cases hat
    exact h
  | cons name place ih =>
    obtain ⟨child, hchild, hbelow⟩ := Option.bind_eq_some_iff.1 hat
    obtain ⟨r, es, rfl⟩ := Disk.exists_of_child? hchild
    rw [hasOwnNames] at h
    exact ih (hasOwnNames_of_mem h (mem_of_child? hchild)) hbelow

theorem child?_of_mem {r : Bool} {es : List (FileName × Entry)} {name : FileName} {c : Entry}
    (hown : haveOwnNames es = true) (hmem : (name, c) ∈ es) :
    (Entry.dir r es).child? name = some c := by
  induction es with
  | nil => cases hmem
  | cons p es ih =>
    obtain ⟨hfresh, -, hrest⟩ := haveOwnNames_cons.1 hown
    rcases List.mem_cons.1 hmem with rfl | hmem
    · exact List.lookup_cons_self
    · have hother : (name == p.1) = false := beq_false_of_ne (hfresh _ hmem)
      rw [Entry.child?, Entry.entries, List.lookup_cons, hother]
      exact ih hrest hmem

/-- An entry under another name hides nothing. -/
theorem kindAt_dir_cons {r : Bool} {es : List (FileName × Entry)} {c : Entry}
    {path : List FileName} {k : Kind} (hname : ∀ p ∈ es, p.1 ≠ name) (hne : path ≠ [])
    (h : (Entry.dir r es).kindAt path = some k) :
    (Entry.dir r ((name, c) :: es)).kindAt path = some k := by
  obtain ⟨first, path, rfl⟩ := List.exists_cons_of_ne_nil hne
  rw [kindAt_cons] at h ⊢
  obtain ⟨c', hchild, hbelow⟩ := Option.bind_eq_some_iff.1 h
  have hother : (first == name) = false := beq_false_of_ne (hname _ (mem_of_child? hchild))
  rw [child?, entries, List.lookup_cons, hother]
  exact h

/-! ## Gathering -/

section Gather

variable (repository opens : List FileName → Bool) (label : List FileName → String)

/-- The texts of the repositories that are found by going down some entries.  Two tests say, of the
names that lead down to a directory, innermost first, whether it is a repository, and whether one
may look into it. -/
def gather (below : List FileName) : List (FileName × Entry) → List String
  | [] => []
  | (name, .dir readable es) :: rest =>
    (if repository (name :: below) then [label (name :: below)]
      else if readable && opens (name :: below) then gather (name :: below) es
      else []) ++ gather below rest
  | _ :: rest => gather below rest

/-- What is gathered at a directory and below it. -/
def gatherDir (below : List FileName) (readable : Bool) (es : List (FileName × Entry)) :
    List String :=
  if repository below then [label below]
  else if readable && opens below then gather repository opens label below es
  else []

/-- Names lead down through some entries, and through directories that one may look into, to a
repository. -/
inductive Gathers : List FileName → List (FileName × Entry) → List FileName → Prop where
  | here {below : List FileName} {es sub : List (FileName × Entry)} {name : FileName} {r : Bool}
      (hmem : (name, .dir r sub) ∈ es) (h : repository (name :: below) = true) :
      Gathers below es (name :: below)
  | further {below names : List FileName} {es sub : List (FileName × Entry)} {name : FileName}
      (hmem : (name, .dir true sub) ∈ es) (hnot : repository (name :: below) = false)
      (hopen : opens (name :: below) = true) (h : Gathers (name :: below) sub names) :
      Gathers below es names

variable {repository opens label} {es : List (FileName × Entry)} {below names : List FileName}

theorem Gathers.mono {es' : List (FileName × Entry)} (h : Gathers repository opens below es names)
    (hes : ∀ entry, entry ∈ es → entry ∈ es') : Gathers repository opens below es' names := by
  cases h with
  | here hmem h => exact .here (hes _ hmem) h
  | further hmem hnot hopen h => exact .further (hes _ hmem) hnot hopen h

theorem gather_cons {readable : Bool} {sub : List (FileName × Entry)} :
    gather repository opens label below ((name, .dir readable sub) :: es) =
      gatherDir repository opens label (name :: below) readable sub ++
        gather repository opens label below es := by
  rw [gather]
  rfl

theorem gather_cons_of_ne {entry : FileName × Entry}
    (h : ∀ name readable sub, entry ≠ (name, .dir readable sub)) :
    gather repository opens label below (entry :: es) = gather repository opens label below es := by
  rw [gather]
  exact h

/-- What is gathered is gathered at one of the directories. -/
theorem mem_gather_iff_dir : e ∈ gather repository opens label below es ↔ ∃ name readable sub,
    (name, .dir readable sub) ∈ es ∧
      e ∈ gatherDir repository opens label (name :: below) readable sub := by
  induction es with
  | nil => simp [gather]
  | cons head es ih =>
    obtain ⟨name, c⟩ := head
    cases c with
    | dir readable sub =>
      rw [gather_cons, List.mem_append, ih]
      constructor
      · rintro (hhere | ⟨name', readable', sub', hmem, hfound⟩)
        · exact ⟨name, readable, sub, List.mem_cons_self, hhere⟩
        · exact ⟨name', readable', sub', List.mem_cons_of_mem _ hmem, hfound⟩
      · rintro ⟨name', readable', sub', hmem, hfound⟩
        rcases List.mem_cons.1 hmem with heq | hmem
        · cases heq
          exact .inl hfound
        · exact .inr ⟨name', readable', sub', hmem, hfound⟩
    | file | link =>
      rw [gather_cons_of_ne (by rintro _ _ _ ⟨⟩), ih]
      constructor
      · rintro ⟨name', readable', sub', hmem, hfound⟩
        exact ⟨name', readable', sub', List.mem_cons_of_mem _ hmem, hfound⟩
      · rintro ⟨name', readable', sub', hmem, hfound⟩
        rcases List.mem_cons.1 hmem with heq | hmem
        · cases heq
        · exact ⟨name', readable', sub', hmem, hfound⟩

/-- What is gathered are the repositories that names lead down to in this way. -/
theorem mem_gather_iff : e ∈ gather repository opens label below es ↔
    ∃ names, Gathers repository opens below es names ∧ e = label names := by
  constructor
  · intro h
    induction below, es using gather.induct with
    | case1 below => simp [gather] at h
    | case2 below name readable sub rest ihsub ihrest =>
      rw [gather_cons, List.mem_append, gatherDir] at h
      rcases h with h | h
      · split at h
        · next hyes => exact ⟨_, .here List.mem_cons_self hyes, List.mem_singleton.1 h⟩
        · next hno =>
          split at h
          · next hopen =>
            obtain ⟨rfl, hopen⟩ := Bool.and_eq_true_iff.1 hopen
            obtain ⟨names, hnames, he⟩ := ihsub h
            exact ⟨names, .further List.mem_cons_self (Bool.eq_false_iff.2 hno) hopen hnames, he⟩
          · cases h
      · obtain ⟨names, hnames, he⟩ := ihrest h
        exact ⟨names, hnames.mono fun _ ↦ List.mem_cons_of_mem _, he⟩
    | case3 below entry rest hnot ih =>
      rw [gather_cons_of_ne hnot] at h
      obtain ⟨names, hnames, he⟩ := ih h
      exact ⟨names, hnames.mono fun _ ↦ List.mem_cons_of_mem _, he⟩
  · rintro ⟨names, h, rfl⟩
    induction h with
    | here hmem h =>
      refine mem_gather_iff_dir.2 ⟨_, _, _, hmem, ?_⟩
      rw [gatherDir, if_pos h]
      exact List.mem_singleton_self _
    | further hmem hnot hopen h ih =>
      refine mem_gather_iff_dir.2 ⟨_, _, _, hmem, ?_⟩
      rwa [gatherDir, hnot, if_neg Bool.false_ne_true, hopen, Bool.and_self, if_pos rfl]

/-- The names go on from those of the entries, and none that lead to one of the directories between
are a repository's. -/
theorem Gathers.exists_path (h : Gathers repository opens below es names) : ∃ path,
    names = path.reverse ++ below ∧ path ≠ [] ∧ repository names = true ∧
      ∀ front, front <+: path → front ≠ [] → front ≠ path →
        repository (front.reverse ++ below) = false := by
  induction h with
  | @here below es sub name r hmem h =>
    exact ⟨[name], rfl, List.cons_ne_nil _ _, h, fun front hfront hne hother ↦
      absurd (eq_of_prefix_singleton hfront hne) hother⟩
  | @further below names es sub name hmem hnot hopen h ih =>
    obtain ⟨path, rfl, hne, hrepository, hway⟩ := ih
    refine ⟨name :: path, by simp, List.cons_ne_nil _ _, hrepository,
      fun front hfront hne' hother ↦ ?_⟩
    rcases List.prefix_cons_iff.1 hfront with rfl | ⟨more, rfl, hmore⟩
    · exact absurd rfl hne'
    · by_cases hnil : more = []
      · rwa [hnil]
      · have hbelow := hway more hmore hnil fun heq ↦ hother (by rw [heq])
        simpa using hbelow

/-- Names lead down from a directory to a repository: all directories between can be read, one may
look into them, and they are no repositories. -/
structure Leads (repository opens : List FileName → Bool) (below : List FileName) (top : Entry)
    (path : List FileName) : Prop where
  ne_nil : path ≠ []
  dir : ∃ r, top.kindAt path = some (.dir r)
  found : repository (path.reverse ++ below) = true
  way : ∀ front, front <+: path → front ≠ [] → front ≠ path →
    top.kindAt front = some (.dir true) ∧ opens (front.reverse ++ below) = true ∧
      repository (front.reverse ++ below) = false

theorem Leads.gathers {path : List FileName} {r : Bool}
    (h : Leads repository opens below (.dir r es) path) :
    Gathers repository opens below es (path.reverse ++ below) := by
  induction path generalizing below r es with
  | nil => exact absurd rfl h.ne_nil
  | cons name path ih =>
    have hnames : (name :: path).reverse ++ below = path.reverse ++ name :: below := by simp
    obtain ⟨readable, hdir⟩ := h.dir
    rw [kindAt_cons] at hdir
    obtain ⟨c, hchild, hdir⟩ := Option.bind_eq_some_iff.1 hdir
    by_cases hnil : path = []
    · subst hnil
      obtain ⟨sub, rfl⟩ := kind_eq_dir_iff.1 (Option.some.inj hdir)
      exact .here (mem_of_child? hchild) h.found
    · obtain ⟨hfirst, hopen, hnot⟩ := h.way [name] (by simp) (by simp) (by simpa using Ne.symm hnil)
      rw [kindAt_cons, hchild, Option.bind_some, kindAt_nil] at hfirst
      obtain ⟨sub, rfl⟩ := kind_eq_dir_iff.1 (Option.some.inj hfirst)
      rw [hnames]
      refine .further (mem_of_child? hchild) hnot hopen (ih ⟨hnil, ⟨readable, hdir⟩, ?_, ?_⟩)
      · rw [← hnames]
        exact h.found
      · intro front hfront hne hother
        have hway := h.way (name :: front) ((List.prefix_cons_inj name).2 hfront) (by simp)
          (by simpa using hother)
        rw [kindAt_cons, hchild, Option.bind_some] at hway
        simpa using hway

/-- Where no two entries of one directory have the same name, names that lead down through entries
do so through the directories of a tree. -/
theorem Gathers.leads {r : Bool} (h : Gathers repository opens below es names)
    (hown : haveOwnNames es = true) :
    ∃ path, Leads repository opens below (.dir r es) path ∧ names = path.reverse ++ below := by
  induction h generalizing r with
  | @here below es sub name readable hmem h =>
    have hchild := child?_of_mem (r := r) hown hmem
    refine ⟨[name], ⟨List.cons_ne_nil _ _, ⟨readable, ?_⟩, h, fun front hfront hne hother ↦
      absurd (eq_of_prefix_singleton hfront hne) hother⟩, rfl⟩
    rw [kindAt_cons, hchild, Option.bind_some]
    rfl
  | @further below names es sub name hmem hnot hopen h ih =>
    have hchild := child?_of_mem (r := r) hown hmem
    have hsub := hasOwnNames_of_mem hown hmem
    rw [hasOwnNames] at hsub
    obtain ⟨path, hleads, rfl⟩ := @ih true hsub
    refine ⟨name :: path, ⟨List.cons_ne_nil _ _, ?_, by simpa using hleads.found, ?_⟩, by simp⟩
    · rw [kindAt_cons, hchild]
      exact hleads.dir
    · intro front hfront hne hother
      rcases List.prefix_cons_iff.1 hfront with rfl | ⟨more, rfl, hmore⟩
      · exact absurd rfl hne
      · rw [kindAt_cons, hchild, Option.bind_some, List.reverse_cons, List.append_assoc]
        by_cases hnil : more = []
        · subst hnil
          exact ⟨rfl, hopen, hnot⟩
        · exact hleads.way more hmore hnil fun heq ↦ hother (by rw [heq])

/-- Two pairs of tests that agree at the directories of a tree gather the same. -/
theorem gather_congr {repository' opens' : List FileName → Bool} {r : Bool}
    (hown : haveOwnNames es = true)
    (h : ∀ path r', (Entry.dir r es).kindAt path = some (.dir r') → path ≠ [] →
      repository (path.reverse ++ below) = repository' (path.reverse ++ below) ∧
        opens (path.reverse ++ below) = opens' (path.reverse ++ below)) :
    gather repository opens label below es = gather repository' opens' label below es := by
  induction below, es using gather.induct generalizing r with
  | case1 below => rw [gather, gather]
  | case2 below name readable sub rest ihsub ihrest =>
    obtain ⟨hname, hsub, hrest⟩ := haveOwnNames_cons.1 hown
    rw [hasOwnNames] at hsub
    have hchild : (Entry.dir r ((name, .dir readable sub) :: rest)).child? name =
        some (.dir readable sub) := List.lookup_cons_self
    have hdown : ∀ path, (Entry.dir r ((name, .dir readable sub) :: rest)).kindAt (name :: path) =
        (Entry.dir readable sub).kindAt path := by
      intro path
      rw [kindAt_cons, hchild, Option.bind_some]
    have hrest' : gather repository opens label below rest =
        gather repository' opens' label below rest := by
      refine ihrest (r := r) hrest fun path r' hkind hne ↦ h path r' ?_ hne
      exact kindAt_dir_cons hname hne hkind
    have hsub' : gather repository opens label (name :: below) sub =
        gather repository' opens' label (name :: below) sub := by
      refine ihsub (r := readable) hsub fun path r' hkind hne ↦ ?_
      have hagree := h (name :: path) r' ((hdown path).trans hkind) (List.cons_ne_nil _ _)
      simpa using hagree
    obtain ⟨hrepository, hopens⟩ := h [name] readable (hdown []) (List.cons_ne_nil _ _)
    rw [List.reverse_singleton, List.singleton_append] at hrepository hopens
    rw [gather_cons, gather_cons, gatherDir, gatherDir, hrepository, hopens, hsub', hrest']
  | case3 below entry rest hnot ih =>
    obtain ⟨name, c⟩ := entry
    obtain ⟨hname, -, hrest⟩ := haveOwnNames_cons.1 hown
    rw [gather_cons_of_ne hnot, gather_cons_of_ne hnot]
    refine ih (r := r) hrest fun path r' hkind hne ↦ h path r' ?_ hne
    exact kindAt_dir_cons hname hne hkind

/-- What is gathered at a directory is what is gathered where nothing else is. -/
theorem mem_gatherDir_iff {readable : Bool} {sub : List (FileName × Entry)} :
    e ∈ gatherDir repository opens label (name :: below) readable sub ↔
      ∃ names, Gathers repository opens below [(name, .dir readable sub)] names ∧
        e = label names := by
  rw [← mem_gather_iff, gather_cons, gather, List.append_nil]

/-- Names that go on from one entry go on from its name. -/
theorem Gathers.exists_eq {readable : Bool} {sub : List (FileName × Entry)}
    (h : Gathers repository opens below [(name, .dir readable sub)] names) :
    ∃ path : List FileName, names = path.reverse ++ name :: below := by
  cases h with
  | here hmem h =>
    cases List.mem_singleton.1 hmem
    exact ⟨[], rfl⟩
  | further hmem hnot hopen h =>
    cases List.mem_singleton.1 hmem
    obtain ⟨path, rfl, -⟩ := h.exists_path
    exact ⟨path, rfl⟩

/-- Where repositories are told apart by their texts, each is gathered once. -/
theorem nodup_gather (hown : haveOwnNames es = true)
    (hinj : ∀ names names' : List FileName, Gathers repository opens below es names →
      Gathers repository opens below es names' → label names = label names' → names = names') :
    (gather repository opens label below es).Nodup := by
  induction below, es using gather.induct with
  | case1 below => simp [gather]
  | case2 below name readable sub rest ihsub ihrest =>
    obtain ⟨hname, hsub, hrest⟩ := haveOwnNames_cons.1 hown
    rw [hasOwnNames] at hsub
    rw [gather_cons, List.nodup_append]
    refine ⟨?_, ihrest hrest fun names names' h h' ↦ ?_, ?_⟩
    · unfold gatherDir
      split
      · exact List.nodup_cons.2 ⟨List.not_mem_nil, List.nodup_nil⟩
      · next hno =>
        split
        · next hopen =>
          obtain ⟨rfl, hopen⟩ := Bool.and_eq_true_iff.1 hopen
          refine ihsub hsub fun names names' h h' ↦ hinj names names' ?_ ?_
          · exact .further List.mem_cons_self (Bool.eq_false_iff.2 hno) hopen h
          · exact .further List.mem_cons_self (Bool.eq_false_iff.2 hno) hopen h'
        · exact List.nodup_nil
    · exact hinj names names' (h.mono fun _ ↦ List.mem_cons_of_mem _)
        (h'.mono fun _ ↦ List.mem_cons_of_mem _)
    · rintro e hhere _ hthere rfl
      obtain ⟨other, r, sub', hmem, hthere⟩ := mem_gather_iff_dir.1 hthere
      obtain ⟨names, h, htext⟩ := mem_gatherDir_iff.1 hhere
      obtain ⟨names', h', htext'⟩ := mem_gatherDir_iff.1 hthere
      have hsame := hinj names names' (h.mono (by simp)) (h'.mono (by simp [hmem]))
        (htext.symm.trans htext')
      obtain ⟨path, rfl⟩ := h.exists_eq
      obtain ⟨path', rfl⟩ := h'.exists_eq
      rw [List.append_cons, List.append_cons path'.reverse] at hsame
      obtain ⟨-, hlast⟩ := List.append_inj' (List.append_cancel_right hsame) rfl
      exact hname _ hmem (List.singleton_inj.1 hlast).symm
  | case3 below head rest hnot ihrest =>
    obtain ⟨name, c⟩ := head
    rw [gather_cons_of_ne hnot]
    refine ihrest (haveOwnNames_cons.1 hown).2.2 fun names names' h h' ↦ ?_
    exact hinj names names' (h.mono fun _ ↦ List.mem_cons_of_mem _)
      (h'.mono fun _ ↦ List.mem_cons_of_mem _)

end Gather

end Entry

end GitGateway
