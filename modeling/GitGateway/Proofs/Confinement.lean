import GitGateway.Config.Validate
import GitGateway.Proofs.Path
import GitGateway.Repo.Confine
import Mathlib.Data.Set.List

/-!
# What confinement gives

An accepted candidate is seen here from a directory `w` that the gateway may have been started in.
The accepted path always leads where the candidate below the root leads.  That it lies below the
root takes more: the root must be **anchored** for the candidate, that is, resolve to more than
steps up, or else the candidate must not begin with a step up.  A root such as `.` or `..` is no
anchor: a step up of the candidate only lengthens the run of steps up that the root resolves to,
and the longer run begins with the shorter one.
-/

namespace GitGateway.Confine

open GitGateway.Path

/-! ## Acceptance -/

theorem strictlyBelow_iff {outer inner : List Component} :
    strictlyBelow outer inner = true ↔ outer <+: inner ∧ inner ≠ outer := by
  simp [strictlyBelow, and_comm]

/-- What an accepted candidate is. -/
theorem ensureWithin_ok {root candidate : String} {p : RepoPath}
    (h : ensureWithin root candidate = .ok p) :
    isAbsolute candidate = false ∧ p.components = normalize (join root candidate) ∧
      strictlyBelow (normalize root) p.components = true := by
  unfold ensureWithin at h
  split at h
  · cases h
  · next habs =>
    simp only at h
    split at h
    · next hbelow =>
      cases h
      exact ⟨Bool.eq_false_iff.2 habs, rfl, hbelow⟩
    · cases h

theorem ensureWithin_of_strictlyBelow {root candidate : String}
    (hrel : isAbsolute candidate = false)
    (hbelow : strictlyBelow (normalize root) (normalize (join root candidate)) = true) :
    ensureWithin root candidate = .ok ⟨normalize (join root candidate)⟩ := by
  rw [ensureWithin, hrel, if_neg Bool.false_ne_true]
  simp only
  rw [if_pos hbelow]

/-- A refusal tells what was refused. -/
theorem ensureWithin_error {root candidate : String} {e : PathEscape}
    (h : ensureWithin root candidate = .error e) : e = ⟨root, candidate⟩ := by
  unfold ensureWithin at h
  split at h
  · cases h
    rfl
  · simp only at h
    split at h
    · cases h
    · cases h
      rfl

/-- A root from which the steps of a candidate cannot lead up: it resolves to more than steps up,
or the candidate does not begin with one. -/
def Anchored (root candidate : String) : Prop :=
  (∃ c ∈ normalize root, c ≠ .parent) ∨ .parent ∉ normalize candidate

instance (root candidate : String) : Decidable (Anchored root candidate) := by
  unfold Anchored
  infer_instance

/-- A directory with at least as many names as `root` and `candidate` have steps up. -/
def IsDeep (w root candidate : String) : Prop :=
  (components root).count .parent + (components candidate).count .parent ≤
    (components w).countP Component.isNormal

theorem anchored_of_isAbsolute {root : String} (h : isAbsolute root = true) (candidate : String) :
    Anchored root candidate := by
  obtain ⟨names, hroot, -⟩ := normalize_of_isAbsolute h
  exact .inl ⟨.root, by simp [hroot], by decide⟩

/-! ## Where an accepted path leads -/

/-- The path of an accepted candidate, written down and read again. -/
theorem normalize_text {root candidate : String} {p : RepoPath}
    (h : ensureWithin root candidate = .ok p) :
    normalize p.text = p.components ∧ isAbsolute p.text = isAbsolute root := by
  obtain ⟨hrel, hp, -⟩ := ensureWithin_ok h
  have habs : isAbsolute (join root candidate) = isAbsolute root := isAbsolute_join hrel
  cases hroot : isAbsolute root with
  | true =>
    obtain ⟨names, hnames, hproper⟩ := normalize_of_isAbsolute (habs.trans hroot)
    rw [RepoPath.text, hp, hnames]
    exact ⟨normalize_render_root hproper, isAbsolute_render_root names⟩
  | false =>
    obtain ⟨up, down, hwalk, hproper⟩ := normalize_of_not_isAbsolute (habs.trans hroot)
    rw [RepoPath.text, hp, hwalk]
    exact ⟨normalize_render_walk hproper, isAbsolute_render_walk hproper⟩

theorem text_ne_empty {root candidate : String} {p : RepoPath}
    (h : ensureWithin root candidate = .ok p) : p.text ≠ "" := by
  intro hempty
  have hnil : p.components = [] := by
    rw [← (normalize_text h).1, hempty]
    rfl
  obtain ⟨hbegins, hne⟩ := strictlyBelow_iff.1 (ensureWithin_ok h).2.2
  rw [hnil] at hbegins hne
  exact hne (List.prefix_nil.1 hbegins).symm

/-- Seen from anywhere, an accepted path leads where the candidate below the root leads. -/
theorem normalize_join_text {root candidate : String} {p : RepoPath}
    (h : ensureWithin root candidate = .ok p) (w : String) :
    normalize (join w p.text) = normalize (join (join w root) candidate) := by
  obtain ⟨hrel, hp, -⟩ := ensureWithin_ok h
  obtain ⟨htext, habs⟩ := normalize_text h
  cases hroot : isAbsolute root with
  | true =>
    rw [normalize_join_of_isAbsolute (habs.trans hroot), htext, hp, join.eq_def w root, hroot,
      if_pos rfl]
  | false =>
    rw [normalize_join (habs.trans hroot), htext, hp, normalize_join hrel, normalize_join hrel,
      normalize_join hroot, resolve_append_right, resolve_append_left, List.append_assoc]

/-- An accepted path of a relative root, beside that root. -/
theorem exists_walks {root candidate : String} {p : RepoPath}
    (h : ensureWithin root candidate = .ok p) (hroot : isAbsolute root = false) :
    ∃ up names k down, normalize root = walk up names ∧ normalize candidate = walk k down ∧
      p.components = walk (up + (k - names.length)) (names.take (names.length - k) ++ down) := by
  obtain ⟨hrel, hp, -⟩ := ensureWithin_ok h
  obtain ⟨up, names, hnames, -⟩ := normalize_of_not_isAbsolute hroot
  obtain ⟨k, down, hdown, -⟩ := normalize_of_not_isAbsolute hrel
  refine ⟨up, names, k, down, hnames, hdown, ?_⟩
  rw [hp, normalize_join hrel, hnames, hdown, resolve_walk_walk]

/-- A root is an anchor exactly if its names are enough for the steps up of the candidate. -/
theorem anchored_iff {root candidate : String} {p : RepoPath}
    (h : ensureWithin root candidate = .ok p) {up k : Nat} {names down : List String}
    (hnames : normalize root = walk up names) (hdown : normalize candidate = walk k down)
    (hp : p.components = walk (up + (k - names.length)) (names.take (names.length - k) ++ down)) :
    Anchored root candidate ↔ k ≤ names.length := by
  have hbelow := (strictlyBelow_iff.1 (ensureWithin_ok h).2.2).1
  rw [hnames, hp] at hbelow
  obtain ⟨-, hup, -⟩ := walk_isPrefix hbelow
  unfold Anchored
  rw [hnames, hdown]
  constructor
  · rintro (⟨c, hc, hne⟩ | hnone)
    · have hnil : names ≠ [] := by
        rintro rfl
        exact hne (List.eq_of_mem_replicate (by simpa [walk] using hc))
      have := hup hnil
      omega
    · cases k with
      | zero => exact Nat.zero_le _
      | succ k => exact absurd (by simp [walk, List.replicate_succ]) hnone
  · intro hk
    cases names with
    | nil =>
      obtain rfl := Nat.le_zero.1 hk
      exact .inr (by simp)
    | cons name names => exact .inl ⟨.normal name, by simp [walk], by simp⟩

/-- Below an anchored root, an accepted path lies strictly below the root from wherever both are
seen. -/
theorem strictlyBelow_of_anchored {root candidate w : String} {p : RepoPath}
    (h : ensureWithin root candidate = .ok p) (hanchor : Anchored root candidate)
    (hw : isAbsolute w = true) :
    strictlyBelow (normalize (join w root)) (normalize (join w p.text)) = true := by
  have hbelow := (ensureWithin_ok h).2.2
  obtain ⟨htext, habs⟩ := normalize_text h
  cases hroot : isAbsolute root with
  | true =>
    rwa [normalize_join_of_isAbsolute hroot, normalize_join_of_isAbsolute (habs.trans hroot),
      htext]
  | false =>
    obtain ⟨up, names, k, down, hnames, hdown, hp⟩ := exists_walks h hroot
    have hk := (anchored_iff h hnames hdown hp).1 hanchor
    obtain ⟨places, hplaces, -⟩ := normalize_of_isAbsolute hw
    obtain ⟨hbegins, hne⟩ := strictlyBelow_iff.1 hbelow
    rw [Nat.sub_eq_zero_of_le hk, Nat.add_zero] at hp
    rw [hnames, hp] at hbegins hne
    have hdeeper := (walk_isPrefix hbegins).2.2 rfl
    rw [normalize_join hroot, normalize_join (habs.trans hroot), htext, hp, hnames, hplaces,
      List.cons_append, List.cons_append, resolve_root_walk, resolve_root_walk, strictlyBelow_iff,
      List.cons_prefix_cons, List.prefix_map_iff_of_injective normal_injective]
    refine ⟨⟨rfl, (List.prefix_append_right_inj _).2 hdeeper⟩, fun heq ↦ hne ?_⟩
    have hnames := (List.map_inj_right fun _ _ h ↦ normal_injective h).1 (List.cons.inj heq).2
    rw [List.append_cancel_left hnames]

/-- There is always another name. -/
theorem exists_isProper_ne (taken : Option String) : ∃ name, IsProper name ∧ taken ≠ some name := by
  by_cases h : taken = some "a"
  · exact ⟨"b", by decide, by rw [h]; decide⟩
  · exact ⟨"a", by decide, h⟩

/-- A directory as deep as one likes, all of whose names are the same. -/
theorem exists_deep {name : String} (hname : IsProper name) (n : Nat) :
    ∃ w, isAbsolute w = true ∧ (components w).countP Component.isNormal = n ∧
      normalize w = .root :: (List.replicate n name).map .normal := by
  have hproper : ∀ other ∈ List.replicate n name, IsProper other := fun other hother ↦ by
    rwa [List.eq_of_mem_replicate hother]
  refine ⟨render (.root :: (List.replicate n name).map .normal), isAbsolute_render_root _, ?_,
    normalize_render_root hproper⟩
  rw [components_of_isAbsolute (isAbsolute_render_root _), render_root, moves_slash_append,
    moves_render_walk hproper]
  simp [Component.isNormal, List.countP_replicate]

/-- Without an anchor there is a directory, as deep as one likes, from which an accepted path
leads beside the root: none of its names is the one that the candidate goes down along. -/
theorem exists_beside_of_not_anchored {root candidate : String} {p : RepoPath}
    (h : ensureWithin root candidate = .ok p) (hanchor : ¬ Anchored root candidate) :
    ∃ w, isAbsolute w = true ∧ IsDeep w root candidate ∧
      strictlyBelow (normalize (join w root)) (normalize (join w p.text)) = false := by
  have hroot : isAbsolute root = false :=
    Bool.eq_false_iff.2 fun hroot ↦ hanchor (anchored_of_isAbsolute hroot candidate)
  obtain ⟨up, names, k, down, hnames, hdown, hp⟩ := exists_walks h hroot
  have hshort : names.length < k := by
    rw [anchored_iff h hnames hdown hp] at hanchor
    omega
  obtain rfl : names = [] := by
    by_contra hne
    have hbelow := (strictlyBelow_iff.1 (ensureWithin_ok h).2.2).1
    rw [hnames, hp] at hbelow
    have := (walk_isPrefix hbelow).2.1 hne
    omega
  obtain ⟨name, hname, hdiffers⟩ := exists_isProper_ne down.head?
  obtain ⟨w, hw, hcount, hwhere⟩ := exists_deep hname
    ((components root).count .parent + (components candidate).count .parent + (up + k))
  obtain ⟨htext, habs⟩ := normalize_text h
  refine ⟨w, hw, by rw [IsDeep, hcount]; omega, ?_⟩
  rw [normalize_join hroot, normalize_join (habs.trans hroot), htext, hp, hnames, hwhere,
    List.cons_append, List.cons_append, resolve_root_walk, resolve_root_walk, Bool.eq_false_iff,
    ne_eq, strictlyBelow_iff, List.cons_prefix_cons,
    List.prefix_map_iff_of_injective normal_injective]
  rintro ⟨⟨-, hbegins⟩, -⟩
  -- where the accepted path turns down, the directory goes on with its own name
  generalize hm : (components root).count .parent + (components candidate).count .parent = m
    at hbegins
  have hsplit : m + (up + k) - up = (m + (up + k) - (up + (k - 0))) + k := by omega
  rw [List.length_replicate, List.take_replicate, List.take_replicate, List.append_nil,
    List.take_nil, List.nil_append, Nat.min_eq_left (Nat.sub_le _ _),
    Nat.min_eq_left (Nat.sub_le _ _), List.length_nil, hsplit, ← List.replicate_append_replicate,
    List.prefix_append_right_inj] at hbegins
  obtain ⟨rest, hrest⟩ := hbegins
  obtain ⟨k, rfl⟩ := Nat.exists_eq_add_of_lt hshort
  refine hdiffers ?_
  rw [← hrest, List.replicate_succ]
  rfl

/-! ## Roots of accepted configurations -/

theorem staysInside_of_check {c : Config} (h : c.check = .ok ()) :
    Config.staysInside c.reposDir = true := by
  cases hstays : Config.staysInside c.reposDir with
  | true => rfl
  | false =>
    rw [Config.check, hstays] at h
    cases h

/-- A store's directory that stays inside the data path goes down along names. -/
theorem moves_of_staysInside {dir : String} (h : Config.staysInside dir = true) :
    isAbsolute dir = false ∧ ∃ names : List String, moves dir = names.map .normal := by
  have hall : ∀ c ∈ components dir, c.staysInside = true :=
    List.all_eq_true.1 (Bool.and_eq_true_iff.1 h).2
  have hrel : isAbsolute dir = false := by
    by_contra habs
    rw [components_of_isAbsolute (Bool.not_eq_false _ ▸ habs)] at hall
    cases hall .root List.mem_cons_self
  have hmoves : ∀ c ∈ moves dir, c ∈ components dir := by
    intro c hc
    rcases components_eq dir with ⟨-, hdir⟩ | hdir
    · exact hdir ▸ List.mem_cons_of_mem _ hc
    · exact hdir ▸ List.mem_append_right _ hc
  have hnames : ∀ c ∈ moves dir, c ∈ Set.range Component.normal := by
    intro c hc
    rcases eq_of_mem_moves hc with rfl | ⟨name, rfl, -⟩
    · cases hall _ (hmoves _ hc)
    · exact ⟨name, rfl⟩
  have hrange : moves dir ∈ Set.range (List.map Component.normal) := by
    rw [Set.range_list_map]
    exact hnames
  obtain ⟨names, hmap⟩ := hrange
  exact ⟨hrel, names, hmap.symm⟩

/-- The root of an accepted configuration goes on from the data path along the names of the store's
directory. -/
theorem normalize_reposPath {c : Config} (h : c.check = .ok ()) :
    ∃ names : List String, moves c.reposDir = names.map .normal ∧
      normalize c.reposDir = names.map .normal ∧
      normalize c.reposPath = normalize c.dataPath ++ names.map .normal := by
  obtain ⟨hrel, names, hmoves⟩ := moves_of_staysInside (staysInside_of_check h)
  have hdir : normalize c.reposDir = names.map .normal := by
    rw [normalize_eq, start, hrel, hmoves]
    exact resolve_append_names [] names
  refine ⟨names, hmoves, hdir, ?_⟩
  rw [Config.reposPath, normalize_join hrel, hdir, resolve_append_names, resolve_normalize]

/-- Where the store's directory has a name, the root of an accepted configuration is an anchor,
wherever the data path leads. -/
theorem anchored_reposPath {c : Config} (h : c.check = .ok ()) {name : String}
    (hname : .normal name ∈ components c.reposDir) (candidate : String) :
    Anchored c.reposPath candidate := by
  obtain ⟨names, hmoves, -, hroot⟩ := normalize_reposPath h
  refine .inl ⟨.normal name, ?_, by simp⟩
  rw [hroot, ← hmoves]
  refine List.mem_append_right _ ?_
  have hrel := (moves_of_staysInside (staysInside_of_check h)).1
  rcases components_eq c.reposDir with ⟨-, hdir⟩ | hdir
  · rw [hdir] at hname
    exact (List.mem_cons.1 hname).resolve_left (by simp)
  · rw [hdir, start, hrel] at hname
    exact hname

/-! ## The main results -/

/-- **Confinement.**  Seen from any directory, an accepted path leads where the candidate below the
root leads.  If the root is anchored for the candidate, it leads strictly below the root from every
directory; if not, there is a directory, with names enough for all steps up, from which it leads
beside the root.  Where the store's directory of an accepted configuration has a name, the root is
always anchored. -/
theorem accepted_path_below_root_iff_anchored {root candidate : String} {p : RepoPath}
    (h : ensureWithin root candidate = .ok p) :
    (∀ w, isAbsolute w = true →
      normalize (join w p.text) = normalize (join (join w root) candidate)) ∧
    (Anchored root candidate → ∀ w, isAbsolute w = true →
      strictlyBelow (normalize (join w root)) (normalize (join w p.text)) = true) ∧
    (¬ Anchored root candidate → ∃ w, isAbsolute w = true ∧ IsDeep w root candidate ∧
      strictlyBelow (normalize (join w root)) (normalize (join w p.text)) = false) ∧
    ∀ c : Config, c.check = .ok () → c.reposPath = root →
      (∃ name, .normal name ∈ components c.reposDir) → Anchored root candidate := by
  refine ⟨fun w _ ↦ normalize_join_text h w, fun hanchor w hw ↦ ?_, fun hanchor ↦ ?_, ?_⟩
  · exact strictlyBelow_of_anchored h hanchor hw
  · exact exists_beside_of_not_anchored h hanchor
  · rintro c hc rfl ⟨name, hname⟩
    exact anchored_reposPath hc hname candidate

/-- From a relative root that has no name of its own but is anchored by the candidate. -/
theorem accepted_path_below_parent :
    Anchored ".." "a/../b.git" ∧
      strictlyBelow (normalize (join "/srv/data" "..")) (normalize (join "/srv/data" "../b.git")) =
        true := by
  have hok : ensureWithin ".." "a/../b.git" = .ok ⟨[.parent, .normal "b.git"]⟩ := rfl
  have hanchor : Anchored ".." "a/../b.git" := by decide
  exact ⟨hanchor, (accepted_path_below_root_iff_anchored hok).2.1 hanchor "/srv/data" rfl⟩

/-- The current directory is no anchor, although a configuration may name it as the store's root:
a step up from it is accepted and leads out of it. -/
theorem step_up_leaves_current_directory :
    let c : Config := { dataPath := "", reposDir := "." }
    c.check = .ok () ∧ c.reposPath = "." ∧
      ensureWithin "." "../x.git" = .ok ⟨[.parent, .normal "x.git"]⟩ ∧
      IsDeep "/srv/data" "." "../x.git" ∧
      strictlyBelow (normalize (join "/srv/data" ".")) (normalize (join "/srv/data" "../x.git")) =
        false := by
  refine ⟨rfl, rfl, rfl, ?_, rfl⟩
  unfold IsDeep
  decide

end GitGateway.Confine
