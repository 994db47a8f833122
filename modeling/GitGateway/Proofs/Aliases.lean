import GitGateway.Proofs.Confinement
import GitGateway.Proofs.DispatchOrder
import GitGateway.Proofs.Names

/-!
# Names that lead to one path

The access policy knows a repository by its name, the pack service by its path.  Below an absolute
root each accepted path has an **owner**, the name that does not climb.  A name that climbs above
the root and comes back along the root's own names leads to the same path under another text: a
path has exactly one name for each number of steps up (`exists_climb`, `eq_iff_climb_eq`), and the
dispatcher asks for the level of the one that the client wrote, not for that of the owner
(`exists_owner`).
-/

namespace GitGateway.Confine

open Handler GitGateway.Path RepoName

/-- Where a name leads below an absolute root. -/
theorem repoPath_ok_iff {root : String} {names : List String} {n : RepoName} {k : Nat}
    {down : List String} {p : RepoPath} (hroot : normalize root = .root :: names.map .normal)
    (hn : n.dirName = render (walk k down)) (hdown : IsDirectory down) :
    repoPath root n = .ok p ↔
      p.components = .root :: (names.take (names.length - k) ++ down).map .normal ∧
        names <+: names.take (names.length - k) ++ down ∧
        names.take (names.length - k) ++ down ≠ names := by
  have hrel : isAbsolute n.dirName = false := by
    rw [hn]
    exact isAbsolute_render_walk hdown.1
  have hresolved : normalize (join root n.dirName) =
      .root :: (names.take (names.length - k) ++ down).map .normal := by
    rw [normalize_join hrel, hroot, hn, normalize_render_walk hdown.1]
    exact resolve_root_walk k names down
  have hbelow : strictlyBelow (normalize root) (normalize (join root n.dirName)) = true ↔
      names <+: names.take (names.length - k) ++ down ∧
        names.take (names.length - k) ++ down ≠ names := by
    rw [strictlyBelow_iff, hresolved, hroot, List.cons_prefix_cons,
      List.prefix_map_iff_of_injective normal_injective, ne_eq, List.cons_inj_right,
      List.map_inj_right fun _ _ h ↦ normal_injective h]
    simp
  rw [repoPath, ensureWithin, hrel, if_neg Bool.false_ne_true]
  simp only
  split
  · next h =>
    rw [Except.ok.injEq, eq_comm, ← hresolved]
    cases p
    simp [hbelow.1 h]
  · next h =>
    refine ⟨fun habs ↦ ?_, fun hok ↦ absurd (hbelow.2 hok.2) h⟩
    cases habs

/-- Below any root, a name that only goes down leads there. -/
theorem repoPath_of_directory {root : String} {n : RepoName} {down : List String}
    (hn : n.dirName = render (walk 0 down)) (hdown : IsDirectory down) :
    repoPath root n = .ok ⟨normalize root ++ down.map .normal⟩ := by
  have hrel : isAbsolute n.dirName = false := by
    rw [hn]
    exact isAbsolute_render_walk hdown.1
  have hresolved : normalize (join root n.dirName) = normalize root ++ down.map .normal := by
    rw [normalize_join hrel, hn, normalize_render_walk hdown.1, walk_zero, resolve_append_names,
      resolve_normalize]
  have hbelow : strictlyBelow (normalize root) (normalize (join root n.dirName)) = true := by
    obtain ⟨-, init, last, rfl, -⟩ := hdown
    rw [hresolved, strictlyBelow_iff]
    exact ⟨List.prefix_append _ _, by simp⟩
  rw [repoPath, ensureWithin_of_strictlyBelow hrel hbelow, hresolved]

/-- The steps down of an accepted name go back along the names of the root that it climbed, and
then on along those of the owner. -/
theorem exists_rest {root : String} {names : List String} {n : RepoName} {k : Nat}
    {down : List String} {p : RepoPath} (hroot : normalize root = .root :: names.map .normal)
    (hn : n.dirName = render (walk k down)) (hdown : IsDirectory down)
    (hp : repoPath root n = .ok p) :
    ∃ rest, down = names.drop (names.length - k) ++ rest ∧ IsDirectory rest ∧
      p.components = .root :: (names ++ rest).map .normal := by
  obtain ⟨hcomponents, ⟨rest, hrest⟩, hne⟩ := (repoPath_ok_iff hroot hn hdown).1 hp
  have hback : down = names.drop (names.length - k) ++ rest := by
    have hboth : names.take (names.length - k) ++ down =
        names.take (names.length - k) ++ (names.drop (names.length - k) ++ rest) := by
      rw [← hrest, ← List.append_assoc, List.take_append_drop]
    exact List.append_cancel_left hboth
  refine ⟨rest, hback, ⟨fun name hname ↦ ?_, ?_⟩, by rw [hcomponents, hrest]⟩
  · exact hdown.1 name (by rw [hback]; exact List.mem_append_right _ hname)
  · obtain ⟨-, init, last, hdown, hlast⟩ := hdown
    rcases rest.eq_nil_or_concat with rfl | ⟨front, final, rfl⟩
    · exact absurd (by rw [← hrest, List.append_nil]) hne
    · rw [List.concat_eq_append] at hback ⊢
      rw [hdown, ← List.append_assoc] at hback
      have hfinal : last = final := List.singleton_inj.1 (List.append_inj_right' hback rfl)
      exact ⟨front, final, rfl, hfinal ▸ hlast⟩

theorem isDirectory_append {front rest : List String} (hfront : ∀ name ∈ front, IsProper name)
    (h : IsDirectory rest) : IsDirectory (front ++ rest) := by
  obtain ⟨hproper, init, last, rfl, hlast⟩ := h
  refine ⟨fun name hname ↦ ?_, front ++ init, last, (List.append_assoc ..).symm, hlast⟩
  rcases List.mem_append.1 hname with hname | hname
  · exact hfront name hname
  · exact hproper name hname

/-- Each path below the root has a name for each number of steps up. -/
theorem exists_alias {root : String} {names rest : List String} {p : RepoPath}
    (hroot : normalize root = .root :: names.map .normal) (hnames : ∀ name ∈ names, IsProper name)
    (hrest : IsDirectory rest) (hp : p.components = .root :: (names ++ rest).map .normal)
    (k : Nat) : ∃ raw, repoPath root (sanitize raw) = .ok p ∧ (sanitize raw).climb = k := by
  have hdown : IsDirectory (names.drop (names.length - k) ++ rest) :=
    isDirectory_append (fun name hname ↦ hnames name (List.mem_of_mem_drop hname)) hrest
  have hname : (sanitize ("/" ++ render (walk k _))).dirName = _ := dirName_sanitize hdown
  refine ⟨_, (repoPath_ok_iff hroot hname hdown).2 ?_, climb_of_dirName hname hdown⟩
  rw [← List.append_assoc, List.take_append_drop]
  refine ⟨hp, List.prefix_append names rest, fun heq ↦ ?_⟩
  obtain ⟨-, init, last, rfl, -⟩ := hrest
  simp at heq

/-- Of two names for one path, each climbs as far as the other only if it is the other. -/
theorem eq_iff_climb_eq {root : String} (hroot : isAbsolute root = true) {r₁ r₂ : String}
    {p : RepoPath} (h₁ : repoPath root (sanitize r₁) = .ok p)
    (h₂ : repoPath root (sanitize r₂) = .ok p) :
    sanitize r₁ = sanitize r₂ ↔ (sanitize r₁).climb = (sanitize r₂).climb := by
  obtain ⟨names, hnames, -⟩ := normalize_of_isAbsolute hroot
  obtain ⟨k₁, down₁, hn₁, hdown₁⟩ := exists_dirName r₁
  obtain ⟨k₂, down₂, hn₂, hdown₂⟩ := exists_dirName r₂
  refine ⟨congrArg climb, fun hclimb ↦ dirName_inj ?_⟩
  rw [climb_of_dirName hn₁ hdown₁, climb_of_dirName hn₂ hdown₂] at hclimb
  obtain ⟨rest₁, hback₁, -, hp₁⟩ := exists_rest hnames hn₁ hdown₁ h₁
  obtain ⟨rest₂, hback₂, -, hp₂⟩ := exists_rest hnames hn₂ hdown₂ h₂
  have hrests : names ++ rest₁ = names ++ rest₂ :=
    (List.map_inj_right fun _ _ h ↦ normal_injective h).1
      (List.cons.inj (hp₁.symm.trans hp₂)).2
  rw [hn₁, hn₂, hback₁, hback₂, hclimb, List.append_cancel_left hrests]

/-- Each path has a name for each number of steps up. -/
theorem exists_climb {root : String} (hroot : isAbsolute root = true) {raw : String} {p : RepoPath}
    (h : repoPath root (sanitize raw) = .ok p) (k : Nat) :
    ∃ other, repoPath root (sanitize other) = .ok p ∧ (sanitize other).climb = k := by
  obtain ⟨names, hnames, hproper⟩ := normalize_of_isAbsolute hroot
  obtain ⟨up, down, hn, hdown⟩ := exists_dirName raw
  obtain ⟨rest, -, hrest, hp⟩ := exists_rest hnames hn hdown h
  exact exists_alias hnames hproper hrest hp k

/-- The name a dispatch asks about is the owner of the path that it serves only if it does not
climb. -/
theorem exists_owner {root : String} (hroot : isAbsolute root = true) {s s' : Session}
    {t : List Call} {o : Dispatch.Verdict} (h : Does (dispatch root) s t o s')
    {service : Git.Service} {path : RepoPath} {io : PackIo} {served : Served}
    (hserve : (⟨.serve service path io, served⟩ : Call) ∈ t) :
    ∃ asked owner, (∃ raw ∈ s.command, asked = sanitize raw) ∧ (∃ raw, owner = sanitize raw) ∧
      (∃ level before, Dispatch.needed service ≤ level ∧
        t = ⟨.accessLevel asked s.key, .ok level⟩ ::
          (before ++ [⟨.serve service path io, served⟩])) ∧
      (∀ n key answer, (⟨.accessLevel n key, answer⟩ : Call) ∈ t → n = asked ∧ key = s.key) ∧
      repoPath root asked = .ok path ∧ repoPath root owner = .ok path ∧ owner.climb = 0 ∧
      (asked = owner ↔ asked.climb = 0) := by
  have hconduct := Dispatch.does_dispatch_iff.1 h
  obtain ⟨asked, level, before, hwords, hpath, hlevel, -, ht, -⟩ := hconduct.of_serve hserve
  obtain ⟨raw, hraw, rfl⟩ := Git.Request.exists_raw hwords
  obtain ⟨other, hother, hclimb⟩ := exists_climb hroot hpath 0
  refine ⟨_, sanitize other, ⟨raw, hraw, rfl⟩, ⟨other, rfl⟩, ⟨level, before, hlevel, ht⟩, ?_, hpath,
    hother, hclimb, ?_⟩
  · intro n key answer hasked
    obtain ⟨hkey, service', hwords'⟩ := hconduct.of_accessLevel hasked
    cases hwords.symm.trans hwords'
    exact ⟨rfl, hkey⟩
  · rw [eq_iff_climb_eq hroot hpath hother, hclimb]

/-- **Names and paths.**  Below an absolute root, two names for one path are the same exactly if
they climb equally far, and a path that has a name at all has one for each number of steps up.  So
whatever a dispatch is answered, the level it asked for before it serves a path is that of the
path's owner exactly if the name that the client wrote does not climb. -/
theorem same_path_iff_same_climb {root : String} (hroot : isAbsolute root = true) :
    (∀ r₁ r₂ p, repoPath root (sanitize r₁) = .ok p → repoPath root (sanitize r₂) = .ok p →
      (sanitize r₁ = sanitize r₂ ↔ (sanitize r₁).climb = (sanitize r₂).climb)) ∧
    (∀ raw p, repoPath root (sanitize raw) = .ok p → ∀ k,
      ∃ other, repoPath root (sanitize other) = .ok p ∧ (sanitize other).climb = k) ∧
    ∀ s s' t o, Does (dispatch root) s t o s' → ∀ service path io served,
      (⟨.serve service path io, served⟩ : Call) ∈ t →
      ∃ asked owner, (∃ raw ∈ s.command, asked = sanitize raw) ∧ (∃ raw, owner = sanitize raw) ∧
        (∃ level before, Dispatch.needed service ≤ level ∧
          t = ⟨.accessLevel asked s.key, .ok level⟩ ::
            (before ++ [⟨.serve service path io, served⟩])) ∧
        (∀ n key answer, (⟨.accessLevel n key, answer⟩ : Call) ∈ t → n = asked ∧ key = s.key) ∧
        repoPath root asked = .ok path ∧ repoPath root owner = .ok path ∧ owner.climb = 0 ∧
        (asked = owner ↔ asked.climb = 0) := by
  refine ⟨fun r₁ r₂ p h₁ h₂ ↦ eq_iff_climb_eq hroot h₁ h₂,
    fun raw p h k ↦ exists_climb hroot h k, ?_⟩
  intro s s' t o h service path io served hserve
  exact exists_owner hroot h hserve

/-- A repository below `/srv/repos` has another name that climbs three times. -/
theorem exists_threefold_climb : ∃ raw,
    repoPath "/srv/repos" (sanitize raw) =
      .ok ⟨[.root, .normal "srv", .normal "repos", .normal "x.git"]⟩ ∧
    (sanitize raw).climb = 3 ∧ sanitize raw ≠ sanitize "x" := by
  have hx : repoPath "/srv/repos" (sanitize "x") =
      .ok ⟨[.root, .normal "srv", .normal "repos", .normal "x.git"]⟩ := rfl
  obtain ⟨hsame, hevery, -⟩ :=
    same_path_iff_same_climb (show isAbsolute "/srv/repos" = true by rfl)
  obtain ⟨raw, hraw, hclimb⟩ := hevery "x" _ hx 3
  have hplain : (sanitize "x").climb = 0 := by decide
  refine ⟨raw, hraw, hclimb, fun heq ↦ ?_⟩
  have := (hsame raw "x" _ hraw hx).1 heq
  omega

/-- A repository that the settings call private is served to an anonymous session which gives the
name of its path that climbs once. -/
theorem private_repository_served_under_alias :
    let policy : Policy := ⟨.readOnly, true, [], [], [("x", { isPrivate := true })]⟩
    let path : RepoPath := ⟨[.root, .normal "srv", .normal "repos", .normal "x.git"]⟩
    let s : Session := { command := ["git-upload-pack", "../repos/x"] }
    let asked := policy.level [] (sanitize "../repos/x") none
    sanitize "../repos/x" ≠ sanitize "x" ∧
      repoPath "/srv/repos" (sanitize "../repos/x") = .ok path ∧
      repoPath "/srv/repos" (sanitize "x") = .ok path ∧
      policy.level [] (sanitize "x") none = .noAccess ∧
      Does (dispatch "/srv/repos") s
        [⟨.accessLevel (sanitize "../repos/x") none, .ok asked⟩,
          ⟨.serve .uploadPack path s.packIo, ⟨s.packIo, .ok (.ok ())⟩⟩]
        (.ok (.ok .completed)) s := by
  refine ⟨by decide, rfl, rfl, rfl, Dispatch.does_dispatch_iff.2 ?_⟩
  exact .granted (by rfl) rfl (by decide) (by decide) (.fetched (by decide) _)

end GitGateway.Confine
