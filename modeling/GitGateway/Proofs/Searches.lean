import GitGateway.Proofs.FileNames
import GitGateway.Proofs.Listings
import GitGateway.Store.Walk

/-!
# Searching directories

Who follows a path needs the right to search the directories on its way.  What is **told** of a
lead, which is all but the contents of what it leads to, depends on the rights and on the kinds of
what lies on the disk, not on the order of entries (`told_leadAlong_congr`).

Where every directory may be searched, a path that goes on from a root along names leads to what
lies there in the tree, if the names and the path are not too long for the system
(`leadAlong_of_at?`).  In a tree where nothing is too long and no `HEAD` is a link, every directory
is come to and the file `HEAD` is seen in each that holds one (`IsPlain.isFile_head_iff`).  Where the
names are texts, this is where the path leads that they are joined to (`leadAlong_texts`).
-/

namespace GitGateway.Disk

open GitGateway.Path

variable {d d' : Disk} {rights : List FileName → Bool} {last : Bool} {links : Nat}
variable {here place base names : List FileName} {todo : List Step} {name : FileName} {e : Entry}
variable {root : String}

/-! ## Steps -/

theorem followAs_nil : d.followAs rights last links here [] =
    match d.top.at? here.reverse with
    | some e => .entry here.reverse e
    | none => .refused .notFound := by
  cases links <;> rfl

theorem followAs_stay : d.followAs rights last links here (.stay :: todo) =
    d.followAs rights last links here todo := by
  cases links <;> rfl

theorem followAs_up : d.followAs rights last links here (.up :: todo) =
    if rights here.reverse then d.followAs rights last links here.tail todo
    else .refused .permissionDenied := by
  cases links <;> rfl

/-- A step down, once the right to take it and the length of the name are settled. -/
theorem followAs_down (hright : rights here.reverse = true) (hsize : ¬ maxName < name.size) :
    d.followAs rights last links here (.down name :: todo) =
      match (d.top.at? here.reverse).bind fun e ↦ e.child? name with
      | none => if todo.isEmpty then .missing here.reverse name else .refused .notFound
      | some (.dir _ _) => d.followAs rights last links (name :: here) todo
      | some (.file data) =>
        if todo.isEmpty then .entry (name :: here).reverse (.file data) else .refused .notDirectory
      | some (.link target) =>
        if todo.isEmpty && !last then .entry (name :: here).reverse (.link target)
        else
          match links with
          | 0 => .refused .tooManyLinks
          | n + 1 => d.followAs rights last n (if isAbsolute target then [] else here)
              (steps target ++ todo) := by
  cases links <;> exact (if_pos hright).trans (if_neg hsize)

theorem followAs_down_refused (last : Bool) (links : Nat)
    (h : rights here.reverse = true → maxName < name.size) :
    ∃ e, ∀ (d : Disk) todo, d.followAs rights last links here (.down name :: todo) = .refused e := by
  by_cases hright : rights here.reverse = true
  · refine ⟨.nameTooLong, fun d todo ↦ ?_⟩
    cases links <;> rw [followAs, followWith, if_pos hright, if_pos (h hright)]
  · refine ⟨.permissionDenied, fun d todo ↦ ?_⟩
    cases links <;> rw [followAs, followWith, if_neg hright]

/-- What a lead tells without the contents of what it leads to. -/
def Lead.told : Lead → Except OsError (List FileName × Option Kind)
  | .entry place e => .ok (place, some e.kind)
  | .missing dir name => .ok (dir ++ [name], none)
  | .refused e => .error e

/-- What is told depends on the kinds of what lies on the disk. -/
theorem told_followAs_congr (hkind : ∀ place, d'.kindAt place = d.kindAt place) :
    (d'.followAs rights last links here todo).told =
      (d.followAs rights last links here todo).told := by
  induction links, here, todo using steps_induction with
  | nil links here =>
    have hhere := hkind here.reverse
    rw [kindAt, kindAt, Entry.kindAt, Entry.kindAt] at hhere
    rw [followAs_nil, followAs_nil]
    cases hold : d.top.at? here.reverse <;> cases hnew : d'.top.at? here.reverse <;>
      simp_all [Lead.told]
  | stay links here todo ih => rw [followAs_stay, followAs_stay, ih]
  | up links here todo ih =>
    rw [followAs_up, followAs_up]
    split
    · exact ih
    · rfl
  | down links here name todo ih ihlink =>
    by_cases hopen : rights here.reverse = true → maxName < name.size
    · obtain ⟨e, he⟩ := followAs_down_refused last links hopen
      rw [he, he]
    obtain ⟨hright, hsize⟩ := Classical.not_imp.1 hopen
    have hchild := hkind (here.reverse ++ [name])
    rw [kindAt_concat, kindAt_concat] at hchild
    rw [followAs_down hright hsize, followAs_down hright hsize]
    generalize (d.top.at? here.reverse).bind (fun e ↦ e.child? name) = old at hchild
    generalize (d'.top.at? here.reverse).bind (fun e ↦ e.child? name) = new at hchild
    cases old with
    | none =>
      obtain rfl := Option.map_eq_none_iff.1 hchild
      cases todo <;> rfl
    | some c =>
      obtain ⟨c', rfl, hc⟩ := Option.map_eq_some_iff.1 hchild
      cases c with
      | dir r es =>
        obtain ⟨es', rfl⟩ := Entry.kind_eq_dir_iff.1 hc
        exact ih
      | file data =>
        cases c' with
        | file data' => cases todo <;> rfl
        | link | dir => cases hc
      | link target =>
        cases c' with
        | link target' =>
          cases hc
          dsimp only
          split
          · rfl
          · cases links with
            | zero => rfl
            | succ n => exact ihlink n target rfl
        | file | dir => cases hc

/-- What steps lead to lies at the place that they lead to. -/
theorem at?_of_followAs (h : d.followAs rights last links here todo = .entry place e) :
    d.top.at? place = some e := by
  induction links, here, todo using steps_induction with
  | nil links here =>
    rw [followAs_nil] at h
    split at h
    · next hat =>
      cases h
      exact hat
    · cases h
  | stay links here todo ih =>
    rw [followAs_stay] at h
    exact ih h
  | up links here todo ih =>
    rw [followAs_up] at h
    split at h
    · exact ih h
    · cases h
  | down links here name todo ih ihlink =>
    by_cases hopen : rights here.reverse = true → maxName < name.size
    · obtain ⟨e, he⟩ := followAs_down_refused last links hopen
      rw [he] at h
      cases h
    obtain ⟨hright, hsize⟩ := Classical.not_imp.1 hopen
    rw [followAs_down hright hsize] at h
    have hplace := at?_concat d here.reverse name
    rw [← List.reverse_cons] at hplace
    generalize (d.top.at? here.reverse).bind (fun e ↦ e.child? name) = child at h hplace
    cases child with
    | none =>
      dsimp only at h
      split at h <;> cases h
    | some c =>
      cases c with
      | dir r es => exact ih h
      | file data =>
        dsimp only at h
        split at h
        · cases h
          exact hplace
        · cases h
      | link target =>
        dsimp only at h
        split at h
        · cases h
          exact hplace
        · cases links with
          | zero => cases h
          | succ n => exact ihlink n target rfl h

/-- To stay before going on changes nothing. -/
theorem followAs_append_stay {rest : List Step} (hne : rest ≠ []) :
    d.followAs rights last links here (todo ++ .stay :: rest) =
      d.followAs rights last links here (todo ++ rest) := by
  induction links, here, todo using steps_induction with
  | nil links here => exact followAs_stay
  | stay links here todo ih =>
    rw [List.cons_append, List.cons_append, followAs_stay, followAs_stay, ih]
  | up links here todo ih =>
    rw [List.cons_append, List.cons_append, followAs_up, followAs_up, ih]
  | down links here name todo ih ihlink =>
    rw [List.cons_append, List.cons_append]
    by_cases hopen : rights here.reverse = true → maxName < name.size
    · obtain ⟨e, he⟩ := followAs_down_refused last links hopen
      rw [he, he]
    obtain ⟨hright, hsize⟩ := Classical.not_imp.1 hopen
    have hmore : (todo ++ rest).isEmpty = false := by simp [hne]
    have hstay : (todo ++ .stay :: rest).isEmpty = false := by simp
    rw [followAs_down hright hsize, followAs_down hright hsize, hmore, hstay]
    split
    · rfl
    · exact ih
    · rfl
    · next target _ =>
      cases links with
      | zero => rfl
      | succ n =>
        dsimp only
        rw [← List.append_assoc, ihlink n target rfl, List.append_assoc]

/-! ## Paths along names -/

theorem told_leadAlong_congr (hhere : d'.here = d.here)
    (hkind : ∀ place, d'.kindAt place = d.kindAt place) :
    (d'.leadAlong rights root names).told = (d.leadAlong rights root names).told := by
  unfold leadAlong
  rw [hhere]
  split
  · rfl
  split
  · rfl
  split
  · rfl
  · exact told_followAs_congr hkind

theorem at?_of_leadAlong (h : d.leadAlong rights root names = .entry place e) :
    d.top.at? place = some e := by
  unfold leadAlong at h
  split at h
  · cases h
  split at h
  · cases h
  split at h
  · cases h
  · exact at?_of_followAs h

theorem sizeBehind_append (names more : List FileName) :
    sizeBehind (names ++ more) = sizeBehind names + sizeBehind more := by
  induction names with
  | nil => exact (Nat.zero_add _).symm
  | cons name names ih =>
    rw [List.cons_append, sizeBehind, sizeBehind, ih, Nat.add_assoc _ (sizeBehind names)]

/-- A path gets no shorter by going on. -/
theorem sizeAlong_le_append (root : String) (names more : List FileName) :
    sizeAlong root names ≤ sizeAlong root (names ++ more) := by
  cases names with
  | nil =>
    cases more with
    | nil => exact Nat.le_refl _
    | cons => simp only [sizeAlong, List.nil_append]; omega
  | cons name names =>
    simp only [sizeAlong, List.cons_append, sizeBehind_append]
    omega

/-- A path that is too long leads nowhere. -/
theorem leadAlong_of_le (h : maxPath ≤ sizeAlong root names) :
    ∃ e, d.leadAlong rights root names = .refused e := by
  unfold leadAlong
  rw [if_pos h]
  split
  · exact ⟨_, rfl⟩
  · split <;> exact ⟨_, rfl⟩

theorem isFile_iff_told {lead : Lead} :
    lead.isFile = true ↔ ∃ place, lead.told = .ok (place, some .file) := by
  cases lead with
  | entry place e => cases e <;> simp [Lead.isFile, Entry.isFile, Lead.told, Entry.kind]
  | missing | refused => simp [Lead.isFile, Lead.told]

theorem exists_entry_iff_told {lead : Lead} :
    (∃ place e, lead = .entry place e) ↔ ∃ place k, lead.told = .ok (place, some k) := by
  cases lead <;> simp [Lead.told]

/-! ## Where every directory may be searched -/

/-- The right to search every directory. -/
abbrev everywhere : List FileName → Bool := fun _ ↦ true

theorem leadAlong_nil (d : Disk) (root : String) :
    d.leadAlong everywhere root [] = d.lead true root := by
  rw [leadAlong, lead, List.isEmpty_nil, Bool.and_true, sizeAlong, List.map_nil, List.append_nil]
  rfl

/-! ### Texts -/

theorem utf8ByteSize_intercalate (name : String) (names : List String) :
    (String.intercalate "/" (name :: names)).utf8ByteSize =
      name.utf8ByteSize + sizeBehind (names.map .text) := by
  have hslash : "/".utf8ByteSize = 1 := by decide +kernel
  induction names generalizing name with
  | nil => rw [String.intercalate_singleton, List.map_nil, sizeBehind, Nat.add_zero]
  | cons next names ih =>
    rw [String.intercalate_cons_cons, String.utf8ByteSize_append, String.utf8ByteSize_append, ih,
      List.map_cons, sizeBehind, FileName.size, hslash, Nat.add_assoc, Nat.add_assoc]

/-- The steps of a joined path are taken as those of the two paths, one after the other. -/
theorem followAs_join {rel : String} (hrel : isAbsolute rel = false)
    (hfirst : (pieces rel).head? ≠ some "") :
    d.followAs rights last links here (steps (join root rel)) =
      d.followAs rights last links here (steps root ++ (pieces rel).map stepOf) := by
  have hne : (pieces rel).map stepOf ≠ [] := by simp [pieces, List.splitOn_ne_nil]
  rcases join_cases root hrel with ⟨rfl, hjoin⟩ | ⟨front, rfl, hjoin⟩ | ⟨-, hjoin⟩
  · have hempty : steps "" = [] := by decide
    rw [hjoin, hempty, List.nil_append, steps_eq, if_neg hfirst]
  · have hstay : steps (front ++ "/") = steps front ++ [.stay] := by
      have hslash := steps_append_slash front ""
      rwa [String.append_empty] at hslash
    rw [hjoin, steps_append_slash, hstay, List.append_assoc, List.singleton_append,
      followAs_append_stay hne]
  · rw [hjoin, steps_append_slash]

theorem sizeAlong_texts (name : String) (names : List String)
    (hrel : isAbsolute (String.intercalate "/" (name :: names)) = false) :
    sizeAlong root ((name :: names).map .text) =
      (join root (String.intercalate "/" (name :: names))).utf8ByteSize := by
  have hslash : "/".utf8ByteSize = 1 := by decide +kernel
  rw [List.map_cons, sizeAlong, join, if_neg (Bool.eq_false_iff.1 hrel)]
  split
  · rw [String.utf8ByteSize_append, utf8ByteSize_intercalate, FileName.size]
    omega
  · rw [String.utf8ByteSize_append, String.utf8ByteSize_append, utf8ByteSize_intercalate,
      FileName.size, hslash]
    omega

theorem contains_nul_join {rel : String} (hrel : isAbsolute rel = false)
    (hnul : '\x00' ∉ rel.toList) :
    (join root rel).toList.contains '\x00' = root.toList.contains '\x00' := by
  have hslash : "/".toList.contains '\x00' = false := by decide
  have hnone : rel.toList.contains '\x00' = false := by simpa using hnul
  rw [join, if_neg (Bool.eq_false_iff.1 hrel)]
  split
  · rw [String.toList_append, List.contains_append, hnone, Bool.or_false]
  · rw [String.toList_append, String.toList_append, List.contains_append, List.contains_append,
      hslash, hnone, Bool.or_false, Bool.or_false]

theorem notMem_intercalate {names : List String} {c : Char} (hc : c ≠ '/')
    (h : ∀ s ∈ names, c ∉ s.toList) : c ∉ (String.intercalate "/" names).toList := by
  induction names with
  | nil => simp
  | cons name names ih =>
    rw [List.forall_mem_cons] at h
    cases names with
    | nil => simpa using h.1
    | cons next names =>
      have hslash : "/".toList = ['/'] := rfl
      rw [String.intercalate_cons_cons, String.toList_append, String.toList_append, hslash]
      simp only [List.mem_append, List.mem_singleton, not_or]
      exact ⟨⟨h.1, hc⟩, ih h.2⟩

/-- Along texts the system goes as along the path that they are joined to. -/
theorem leadAlong_texts {names : List String}
    (hproper : ∀ s ∈ names, IsProper s) (hnul : ∀ s ∈ names, '\x00' ∉ s.toList) :
    d.leadAlong everywhere root (names.map .text) =
      d.lead true (trail root (names.map .text).reverse) := by
  cases names with
  | nil => exact leadAlong_nil d root
  | cons name names =>
    have hbelow : ∀ n ∈ ((name :: names).map FileName.text).reverse, n.IsProper := by
      intro n hn
      obtain ⟨s, hs, rfl⟩ := List.mem_map.1 (List.mem_reverse.1 hn)
      exact hproper s hs
    have hpieces : pieces (String.intercalate "/" (name :: names)) = name :: names :=
      pieces_intercalate (fun s hs ↦ (hproper s hs).2.2.2) (List.cons_ne_nil _ _)
    have hshown : Listing.shown ((name :: names).map FileName.text).reverse =
        String.intercalate "/" (name :: names) := by
      rw [Listing.shown, List.reverse_reverse, List.map_map]
      exact congrArg _ (List.map_id _)
    have hrel : isAbsolute (String.intercalate "/" (name :: names)) = false :=
      hshown ▸ isAbsolute_shown hbelow
    have hfirst : (pieces (String.intercalate "/" (name :: names))).head? ≠ some "" := by
      rw [hpieces]
      simpa using (hproper name List.mem_cons_self).1
    have hsteps : ((name :: names).map FileName.text).map Step.down =
        (pieces (String.intercalate "/" (name :: names))).map stepOf := by
      rw [hpieces, map_stepOf_names hproper, List.map_map]
      rfl
    have hne : (join root (String.intercalate "/" (name :: names)) == "") = false := by
      obtain ⟨front, hfront⟩ := exists_join_eq root
      rw [hfront _ hrel, beq_eq_false_iff_ne]
      intro hempty
      rw [(String.append_eq_empty_iff.1 hempty).2] at hfirst
      exact hfirst (by decide)
    rw [trail_eq_join hbelow (by simp), hshown, leadAlong, lead, contains_nul_join hrel
      (notMem_intercalate (by decide) hnul), sizeAlong_texts name names hrel, hne,
      isAbsolute_join hrel, follow, followAs_join hrel hfirst, hsteps, List.map_cons,
      List.isEmpty_cons, Bool.and_false]

/-- Below a root the system goes on from the directory that it leads to. -/
theorem exists_leadAlong_eq {r : Bool} {es : List (FileName × Entry)}
    (hroot : d.lead true root = .entry base (.dir r es)) : ∃ n, ∀ names,
      sizeAlong root names < maxPath → d.leadAlong everywhere root names =
        d.follow true n base.reverse (names.map .down) := by
  obtain ⟨hnul, hne, -, hfollow⟩ := lead_eq_entry_iff.1 hroot
  obtain ⟨n, hn⟩ := follow_append hfollow
  refine ⟨n, fun names hsize ↦ ?_⟩
  have hnul' : root.toList.contains '\x00' = false := by simpa using hnul
  have hne' : (root == "") = false := by simpa using hne
  rw [leadAlong, hnul', hne', if_neg Bool.false_ne_true, Bool.false_and, if_neg Bool.false_ne_true,
    if_neg (Nat.not_le.2 hsize)]
  exact hn _

/-- Names lead down to what lies there in the tree, unless that is a link. -/
theorem leadAlong_of_at? {r : Bool} {es : List (FileName × Entry)}
    (hroot : d.lead true root = .entry base (.dir r es))
    (hat : d.top.at? (base ++ names) = some e) (hlink : ∀ target, e ≠ .link target)
    (hsize : ∀ n ∈ names, n.size ≤ maxName) (hpath : sizeAlong root names < maxPath) :
    d.leadAlong everywhere root names = .entry (base ++ names) e := by
  obtain ⟨n, hn⟩ := exists_leadAlong_eq hroot
  rw [hn names hpath]
  have hfollow := @follow_downs d n base.reverse e names (by rwa [List.reverse_reverse]) hlink hsize
  rwa [List.reverse_reverse] at hfollow

/-- The system shows all of a tree below a root: no name and no path in it is too long, and no
`HEAD` is a link. -/
structure IsPlain (d : Disk) (root : String) (base : List FileName) : Prop where
  short {names : List FileName} (h : d.IsDirAt (base ++ names)) :
    (∀ name ∈ names, name.size ≤ maxName) ∧ sizeAlong root (names ++ [.text "HEAD"]) < maxPath
  noLink {names : List FileName} {target : String} :
    d.kindAt (base ++ names ++ [.text "HEAD"]) ≠ some (.link target)

/-- The file `HEAD` of a directory is seen, unless it is a link. -/
theorem isFile_leadAlong_head_iff {r r' : Bool} {es es' : List (FileName × Entry)}
    (hroot : d.lead true root = .entry base (.dir r es))
    (hat : d.top.at? (base ++ names) = some (.dir r' es'))
    (hlink : ∀ target, d.kindAt (base ++ names ++ [.text "HEAD"]) ≠ some (.link target))
    (hsize : ∀ n ∈ names, n.size ≤ maxName)
    (hpath : sizeAlong root (names ++ [.text "HEAD"]) < maxPath) :
    (d.leadAlong everywhere root (names ++ [.text "HEAD"])).isFile = true ↔
      d.kindAt (base ++ names ++ [.text "HEAD"]) = some .file := by
  have hhead : (FileName.text "HEAD").size ≤ maxName := by decide +kernel
  have hall : ∀ n ∈ .text "HEAD" :: names, n.size ≤ maxName := List.forall_mem_cons.2 ⟨hhead, hsize⟩
  rw [kindAt_concat, hat, Option.bind_some] at hlink ⊢
  cases hchild : (Entry.dir r' es').child? (.text "HEAD") with
  | none =>
    obtain ⟨n, hn⟩ := exists_leadAlong_eq hroot
    have hfollow := @follow_downs_missing d n base.reverse (.text "HEAD") names r' es'
      (by rwa [List.reverse_reverse]) hchild hall
    rw [hn _ hpath, List.map_append, List.map_singleton, hfollow]
    simp [Lead.isFile]
  | some c =>
    rw [hchild] at hlink
    have hc : d.top.at? (base ++ (names ++ [.text "HEAD"])) = some c := by
      rw [← List.append_assoc, at?_concat, hat, Option.bind_some, hchild]
    have hnames : ∀ n ∈ names ++ [.text "HEAD"], n.size ≤ maxName := fun n hn ↦
      hall n (by simpa [or_comm] using hn)
    rw [leadAlong_of_at? hroot hc (fun target htarget ↦ hlink target (by rw [htarget]; rfl)) hnames
      hpath]
    cases c <;> simp [Lead.isFile, Entry.isFile, Entry.kind]

section Plain

variable {r : Bool} {es : List (FileName × Entry)}
variable (hplain : d.IsPlain root base) (hroot : d.lead true root = .entry base (.dir r es))
variable (hdir : d.IsDirAt (base ++ names))

include hplain hroot hdir

/-- Names lead down to each directory of a tree that is shown as it is. -/
theorem IsPlain.exists_leadAlong_eq :
    ∃ e, d.leadAlong everywhere root names = .entry (base ++ names) e := by
  obtain ⟨r', hkind⟩ := hdir
  obtain ⟨sub, hat⟩ := kindAt_eq_dir_iff.1 hkind
  obtain ⟨hsize, hpath⟩ := hplain.short ⟨r', hkind⟩
  have hshort : sizeAlong root names < maxPath :=
    Nat.lt_of_le_of_lt (sizeAlong_le_append root names _) hpath
  exact ⟨_, leadAlong_of_at? hroot hat nofun hsize hshort⟩

/-- And the file `HEAD` is seen in each that holds one. -/
theorem IsPlain.isFile_head_iff :
    (d.leadAlong everywhere root (names ++ [.text "HEAD"])).isFile = true ↔
      d.kindAt (base ++ names ++ [.text "HEAD"]) = some .file := by
  obtain ⟨r', hkind⟩ := hdir
  obtain ⟨sub, hat⟩ := kindAt_eq_dir_iff.1 hkind
  obtain ⟨hsize, hpath⟩ := hplain.short ⟨r', hkind⟩
  exact isFile_leadAlong_head_iff hroot hat (fun _ ↦ hplain.noLink) hsize hpath

end Plain

end GitGateway.Disk
