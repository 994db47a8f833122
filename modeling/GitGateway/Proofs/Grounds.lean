import GitGateway.Proofs.Aliases
import GitGateway.Proofs.Rendered
import GitGateway.Proofs.Trees

/-!
# The ground of a store

A store stands on **ground** if its resolved root leads to a directory below which there are no
links, and the way there does not depend on what lies below.  Then a path along names below the root
leads nowhere but along these names (`IsGround.eq_of_leadsTo`), making directories along them makes
nothing else (`IsGround.makeDirs_grows`), and ground stays ground whatever happens below
(`IsGround.alters`).
-/

namespace GitGateway

namespace Disk

open Path

variable {d d' : Disk} {last : Bool} {links : Nat} {here place : List FileName}
variable {todo more : List Step}

/-! ## Going on from a directory -/

/-- A step down to a directory is taken, if there are more steps. -/
theorem Reaches.of_down {name : FileName} {r : Bool}
    (h : d.Reaches last links here (.down name :: more) place)
    (hdir : d.kindAt (here.reverse ++ [name]) = some (.dir r)) (hmore : more ≠ []) :
    d.Reaches last links (name :: here) more place := by
  cases h with
  | down _ _ h => exact h
  | through _ hlink => cases hdir.symm.trans hlink
  | stop => exact absurd rfl hmore

/-- A link is followed, if there are more steps. -/
theorem Reaches.of_through {name : FileName} {target : String}
    (h : d.Reaches last (links + 1) here (.down name :: more) place)
    (hlink : d.kindAt (here.reverse ++ [name]) = some (.link target)) (hmore : more ≠ []) :
    d.Reaches last links (if isAbsolute target then [] else here) (steps target ++ more) place := by
  cases h with
  | down _ hdir => cases hlink.symm.trans hdir
  | through _ hother _ h =>
    cases hlink.symm.trans hother
    exact h
  | stop => exact absurd rfl hmore

/-- Behind steps that reach a directory, more steps go on from there, although fewer links may be
left to follow. -/
theorem Reaches.append_iff (h : d.Reaches true links here todo place) (hdir : d.IsDirAt place) :
    ∃ n, ∀ last more q, more ≠ [] →
      (d.Reaches last links here (todo ++ more) q ↔ d.Reaches last n place.reverse more q) := by
  induction h with
  | here => exact ⟨_, fun last more q _ ↦ by rw [List.nil_append, List.reverse_reverse]⟩
  | stay h ih =>
    obtain ⟨n, hn⟩ := ih hdir
    refine ⟨n, fun last more q hmore ↦ ?_⟩
    rw [← hn last more q hmore]
    refine ⟨fun hall ↦ ?_, .stay⟩
    cases hall with
    | stay hrest => exact hrest
  | up h ih =>
    obtain ⟨n, hn⟩ := ih hdir
    refine ⟨n, fun last more q hmore ↦ ?_⟩
    rw [← hn last more q hmore]
    refine ⟨fun hall ↦ ?_, .up⟩
    cases hall with
    | up hrest => exact hrest
  | down hsize hkind h ih =>
    obtain ⟨n, hn⟩ := ih hdir
    refine ⟨n, fun last more q hmore ↦ ?_⟩
    rw [← hn last more q hmore]
    refine ⟨fun hall ↦ hall.of_down hkind (by simp [hmore]), .down hsize hkind⟩
  | through hsize hlink hlast h ih =>
    obtain ⟨n, hn⟩ := ih hdir
    refine ⟨n, fun last more q hmore ↦ ?_⟩
    rw [← hn last more q hmore, List.append_assoc]
    exact ⟨fun hall ↦ hall.of_through hlink (by simp [hmore]),
      .through hsize hlink (.inl (by simp [hmore]))⟩
  | stop hsize hstop =>
    obtain ⟨r, hr⟩ := hdir
    rw [hr] at hstop
    exact hstop.elim

/-- Where all links are followed, the steps but the last reach something on the way there. -/
theorem Reaches.exists_false (h : d.Reaches true links here todo place)
    (hsome : d.kindAt place ≠ none) :
    ∃ place', d.Reaches false links here todo place' ∧ d.kindAt place' ≠ none := by
  induction h with
  | here => exact ⟨_, .here, hsome⟩
  | stay h ih =>
    obtain ⟨place', h', hsome'⟩ := ih hsome
    exact ⟨place', .stay h', hsome'⟩
  | up h ih =>
    obtain ⟨place', h', hsome'⟩ := ih hsome
    exact ⟨place', .up h', hsome'⟩
  | down hsize hdir h ih =>
    obtain ⟨place', h', hsome'⟩ := ih hsome
    exact ⟨place', .down hsize hdir h', hsome'⟩
  | @through links here place todo name target hsize hlink hlast h ih =>
    cases todo with
    | nil => exact ⟨_, .stop hsize (by rw [hlink]; rfl), by rw [hlink]; simp⟩
    | cons step todo =>
      obtain ⟨place', h', hsome'⟩ := ih hsome
      exact ⟨place', .through hsize hlink (.inl (by simp)) h', hsome'⟩
  | @stop links here name hsize hstop =>
    refine ⟨_, .stop hsize ?_, hsome⟩
    cases hkind : d.kindAt (here.reverse ++ [name]) with
    | none => trivial
    | some k =>
      rw [hkind] at hstop
      cases k with
      | file => trivial
      | link target => rfl
      | dir r => exact hstop

/-- Steps that reach what is no link reach it also if all links are followed. -/
theorem Reaches.last_true (h : d.Reaches last links here todo place)
    (hlink : ∀ target, d.kindAt place ≠ some (.link target)) :
    d.Reaches true links here todo place := by
  induction h with
  | here => exact .here
  | stay h ih => exact .stay (ih hlink)
  | up h ih => exact .up (ih hlink)
  | down hsize hdir h ih => exact .down hsize hdir (ih hlink)
  | through hsize hkind hlast h ih => exact .through hsize hkind (.inr rfl) (ih hlink)
  | @stop links here name hsize hstop =>
    refine .stop hsize ?_
    cases hkind : d.kindAt (here.reverse ++ [name]) with
    | none => trivial
    | some k =>
      rw [hkind] at hstop
      cases k with
      | file => trivial
      | link target => exact absurd hkind (hlink target)
      | dir r => exact hstop

/-- Where there are no links, steps down along names reach what they name. -/
theorem Reaches.eq_of_plain {names : List FileName}
    (h : d.Reaches last links here (names.map .down) place)
    (hplain : ∀ rest target, d.kindAt (here.reverse ++ rest) ≠ some (.link target)) :
    place = here.reverse ++ names := by
  induction names generalizing here with
  | nil =>
    cases h
    rw [List.append_nil]
  | cons name names ih =>
    have hreverse : (name :: here).reverse ++ names = here.reverse ++ name :: names := by simp
    rw [List.map_cons] at h
    generalize hrest : names.map Step.down = rest at h
    cases h with
    | down hsize hdir h =>
      rw [← hrest] at h
      rw [← hreverse]
      refine ih h fun rest target ↦ ?_
      rw [List.reverse_cons, List.append_assoc]
      exact hplain _ target
    | through _ hlink => exact absurd hlink (hplain [name] _)
    | stop =>
      obtain rfl := List.map_eq_nil_iff.1 hrest
      rfl

/-- A directory that is there is not made again. -/
theorem makeDirs_eq_self {p : String} {fuel : Nat} (hsound : d.IsSound)
    (hreaches : d.Reaches true maxLinks (d.start p) (steps p) place) (hdir : d.IsDirAt place)
    (htrim : trimSlashes p = p) (h : d.makeDirs p fuel = .ok d') : d' = d := by
  obtain ⟨r, hr⟩ := hdir
  obtain ⟨place', hreaches', hsome⟩ := hreaches.exists_false (by simp [hr])
  cases fuel with
  | zero => cases h
  | succ fuel =>
    rw [makeDirs] at h
    split at h
    · cases h
      rfl
    next hempty =>
    split at h
    · next hmake =>
      obtain ⟨other, hleads, hnone, -⟩ := makeDir_eq_ok hsound hmake
      rw [htrim] at hleads
      rw [hreaches'.unique hleads.reaches hsound.start] at hnone
      exact absurd hnone hsome
    · next hmake =>
      -- a path that reaches something is not refused as missing
      have hto := hreaches'.isTo hsound.start
      rw [makeDir, htrim, lead, if_neg hempty] at hmake
      split at hmake
      · cases hmake
      · cases hmake
      · next hlead =>
        split at hlead
        · cases hlead
          cases hmake
        · split at hlead
          · cases hlead
            cases hmake
          · rw [Disk.start, hlead] at hto
            exact hto.elim
    · split at h
      · cases h
        rfl
      · cases h

/-- What a directory was made at is a directory afterwards. -/
theorem isDir_of_makeDirs {p : String} {fuel : Nat} (hsound : d.IsSound) (hne : p ≠ "")
    (htrim : trimSlashes p = p) (h : d.makeDirs p fuel = .ok d') : d'.isDir p = true := by
  have hone : ∀ {d d' : Disk}, d.IsSound → d.makeDir p = .ok d' → d'.isDir p = true := by
    intro d d' hsound h
    obtain ⟨place, hleads, -, ⟨r, hr⟩, hgrows⟩ := makeDir_eq_ok hsound h
    rw [htrim] at hleads
    have hafter := hleads.grows hgrows
    refine (isDir_iff (hsound.grows hgrows)).2 ⟨place, ⟨hafter.nul_notMem, hafter.ne_empty,
      hafter.size_lt, hafter.reaches.last_true ?_⟩, r, hr⟩
    rw [hr]
    rintro target ⟨⟩
  cases fuel with
  | zero => cases h
  | succ fuel =>
    rw [makeDirs] at h
    split at h
    · next hempty => exact absurd (eq_of_beq hempty) hne
    split at h
    · next hmake =>
      cases h
      exact hone hsound hmake
    · split at h
      · cases h
      · split at h
        · cases h
        · next d₁ habove =>
          split at h
          · next hmake =>
            cases h
            exact hone (hsound.grows (makeDirs_grows hsound habove)) hmake
          · split at h
            · next hdir =>
              cases h
              exact hdir
            · cases h
    · split at h
      · next hdir =>
        cases h
        exact hdir
      · cases h

/-! ## Grounds -/

/-- The path along names below a root, once the root is resolved. -/
def below (root : String) (names : List String) : String :=
  render (normalize root ++ names.map .normal)

/-- The place along names below another one. -/
def placeBelow (base : List FileName) (names : List String) : List FileName :=
  base ++ names.map .text

/-- Directories on the way from a place along names. -/
def IsOnWay (base : List FileName) (names : List String) (place : List FileName) (k : Kind) : Prop :=
  k = .dir true ∧ ∃ front, front <+: names ∧ place = placeBelow base front

/-- A disk is altered below a place: everything else keeps its kind, and what is new or has another
kind is as said and no new link. -/
structure Alters (base : List FileName) (new : List FileName → Kind → Prop) (d d' : Disk) :
    Prop where
  here_eq : d'.here = d.here
  kept {place : List FileName} {k : Kind} (h : ¬ (base <+: place ∧ place ≠ base)) :
    d.kindAt place = some k → d'.kindAt place = some k
  new_of {place : List FileName} {k : Kind} :
    d'.kindAt place = some k → d.kindAt place = some k ∨ new place k
  noLink {place : List FileName} {target : String} :
    d'.kindAt place = some (.link target) → d.kindAt place = some (.link target)

/-- The resolved root of a store leads to a directory below which there are no links.  The way to it
does not depend on what lies below it. -/
structure IsGround (d : Disk) (root : String) (base : List FileName) : Prop where
  isDirAt : d.IsDirAt base
  plain : ∀ rest target, d.kindAt (base ++ rest) ≠ some (.link target)
  way {d' : Disk} {new : List FileName → Kind → Prop} (h : Alters base new d d') : d'.IsSound ∧
    d'.Reaches true maxLinks (d'.start root) ((normalize root).filterMap step?) base

variable {root : String} {base : List FileName} {new : List FileName → Kind → Prop}

theorem below_concat (root : String) {names : List String} {name : String}
    (hnames : ∀ name ∈ names, IsProper name) (hname : IsProper name) :
    below root (names ++ [name]) = join (below root names) name := by
  have h := ((isResolved_normalize root).append hnames).render_concat hname
  rw [List.append_assoc] at h
  rwa [below, List.map_append, List.map_singleton]

theorem parent?_below_concat (root : String) {names : List String} {name : String}
    (hnames : ∀ name ∈ names, IsProper name) (hname : IsProper name) :
    parent? (below root (names ++ [name])) = some (below root names) := by
  have h := ((isResolved_normalize root).append hnames).parent?_concat hname
  rw [List.append_assoc] at h
  rwa [below, List.map_append, List.map_singleton]

theorem isAbsolute_below (root : String) {names : List String}
    (hnames : ∀ name ∈ names, IsProper name) :
    isAbsolute (below root names) = isAbsolute root := by
  rw [below, isAbsolute_render ((isResolved_normalize root).append hnames)]
  cases hroot : isAbsolute root with
  | true =>
    obtain ⟨front, hfront, -⟩ := normalize_of_isAbsolute hroot
    rw [hfront]
    rfl
  | false =>
    obtain ⟨up, front, hfront, -⟩ := normalize_of_not_isAbsolute hroot
    rw [hfront]
    cases up with
    | succ up => rfl
    | zero =>
      cases front with
      | cons name front => rfl
      | nil => cases names <;> rfl

theorem start_below (d : Disk) (root : String) {names : List String}
    (hnames : ∀ name ∈ names, IsProper name) : d.start (below root names) = d.start root := by
  rw [Disk.start, Disk.start, isAbsolute_below root hnames]

/-- The steps along names below a root are those of the root, and then down the names. -/
theorem steps_below (root : String) {names : List String} (hnames : ∀ name ∈ names, IsProper name)
    (hne : names ≠ []) : steps (below root names) =
      (normalize root).filterMap step? ++ (names.map FileName.text).map .down := by
  rw [below, steps_render ((isResolved_normalize root).append hnames) (by simp [hne]) ?_,
    List.filterMap_append, filterMap_step?_map, List.map_map]
  · rfl
  · intro hroot
    -- a name stands behind the root, so the path is not the root alone
    obtain ⟨init, name, rfl⟩ : ∃ init name, names = init ++ [name] := by
      rcases names.eq_nil_or_concat with rfl | ⟨init, name, rfl⟩
      · exact absurd rfl hne
      · exact ⟨init, name, List.concat_eq_append⟩
    rw [List.map_append, ← List.append_assoc] at hroot
    have := congrArg List.getLast? hroot
    simp at this

theorem Grows.alters (h : Grows new d d') (base : List FileName) : Alters base new d d' where
  here_eq := h.here_eq
  kept _ hk := h.kept hk
  new_of {place k} hk := by
    cases hold : d.kindAt place with
    | none => exact .inr (h.new_of hold hk)
    | some k' =>
      cases (h.kept hold).symm.trans hk
      exact .inl rfl
  noLink {place target} hk := by
    cases hold : d.kindAt place with
    | none => exact absurd hk (h.noLink hold)
    | some k' =>
      cases (h.kept hold).symm.trans hk
      rfl

namespace Alters

variable {new' : List FileName → Kind → Prop}

theorem refl (base : List FileName) (new : List FileName → Kind → Prop) (d : Disk) :
    Alters base new d d :=
  (Grows.refl d).alters base

theorem mono (h : Alters base new d d') (himp : ∀ place k, new place k → new' place k) :
    Alters base new' d d' where
  here_eq := h.here_eq
  kept := h.kept
  new_of hk := (h.new_of hk).imp_right (himp _ _)
  noLink := h.noLink

/-- What is new was not there before. -/
theorem fresh (h : Alters base new d d') :
    Alters base (fun place k ↦ new place k ∧ d.kindAt place ≠ some k) d d' where
  here_eq := h.here_eq
  kept := h.kept
  new_of {place k} hk := by
    by_cases hold : d.kindAt place = some k
    · exact .inl hold
    · exact .inr ⟨(h.new_of hk).resolve_left hold, hold⟩
  noLink := h.noLink

theorem trans {d'' : Disk} (h : Alters base new d d') (h' : Alters base new d' d'') :
    Alters base new d d'' where
  here_eq := h'.here_eq.trans h.here_eq
  kept hout hk := h'.kept hout (h.kept hout hk)
  new_of hk := (h'.new_of hk).elim h.new_of .inr
  noLink hk := h.noLink (h'.noLink hk)

/-- What is below a place below is below. -/
theorem of_prefix {target : List FileName} (h : Alters target new d d') (hbase : base <+: target) :
    Alters base new d d' where
  here_eq := h.here_eq
  kept hout hk := by
    refine h.kept (fun ⟨hbelow, hne⟩ ↦ hout ⟨hbase.trans hbelow, fun heq ↦ hne ?_⟩) hk
    rw [heq] at hbelow ⊢
    exact hbase.eq_of_length (Nat.le_antisymm hbase.length_le hbelow.length_le)
  new_of := h.new_of
  noLink := h.noLink

end Alters

namespace IsGround

theorem sound (h : d.IsGround root base) : d.IsSound := (h.way (.refl base (fun _ _ ↦ True) d)).1

theorem resolved (h : d.IsGround root base) :
    d.Reaches true maxLinks (d.start root) ((normalize root).filterMap step?) base :=
  (h.way (.refl base (fun _ _ ↦ True) d)).2

/-- Ground stays ground, however it is altered below its root. -/
theorem alters (h : d.IsGround root base) (halters : Alters base new d d') :
    d'.IsGround root base where
  isDirAt := by
    obtain ⟨r, hr⟩ := h.isDirAt
    exact ⟨r, halters.kept (fun hbelow ↦ hbelow.2 rfl) hr⟩
  plain rest target hlink := h.plain rest target (halters.noLink hlink)
  way {d'' new'} h' := by
    have hboth : Alters base (fun _ _ ↦ True) d d'' :=
      (halters.mono fun _ _ _ ↦ trivial).trans (h'.mono fun _ _ _ ↦ trivial)
    exact h.way hboth

theorem grows (h : d.IsGround root base) (hgrows : Grows new d d') : d'.IsGround root base :=
  h.alters (hgrows.alters base)

/-- Behind the root, a path along names goes down these names. -/
theorem reaches_iff (h : d.IsGround root base) {names : List String}
    (hnames : ∀ name ∈ names, IsProper name) (hne : names ≠ []) : ∃ n, ∀ last place,
      d.Reaches last maxLinks (d.start (below root names)) (steps (below root names)) place ↔
        d.Reaches last n base.reverse ((names.map FileName.text).map .down) place := by
  obtain ⟨n, hn⟩ := h.resolved.append_iff h.isDirAt
  refine ⟨n, fun last place ↦ ?_⟩
  rw [start_below d root hnames, steps_below root hnames hne]
  exact hn last _ place (by simpa using hne)

/-- A path along names below the root leads along these names only. -/
theorem eq_of_reaches (h : d.IsGround root base) {names : List String}
    (hnames : ∀ name ∈ names, IsProper name) (hne : names ≠ [])
    (hreaches : d.Reaches last maxLinks (d.start (below root names)) (steps (below root names))
      place) : place = placeBelow base names := by
  obtain ⟨n, hn⟩ := h.reaches_iff hnames hne
  have heq := ((hn last place).1 hreaches).eq_of_plain fun rest target ↦ by
    rw [List.reverse_reverse]
    exact h.plain rest target
  rwa [List.reverse_reverse] at heq

theorem eq_of_leadsTo (h : d.IsGround root base) {names : List String}
    (hnames : ∀ name ∈ names, IsProper name) (hne : names ≠ [])
    (hleads : d.LeadsTo last (below root names) place) : place = placeBelow base names :=
  h.eq_of_reaches hnames hne hleads.reaches

/-- Making the directory that the root leads to changes nothing. -/
theorem makeDirs_root (h : d.IsGround root base) {fuel : Nat}
    (hmake : d.makeDirs (below root []) fuel = .ok d') : d' = d := by
  have hresolved := isResolved_normalize root
  have hbelow : below root [] = render (normalize root) := by
    rw [below, List.map_nil, List.append_nil]
  have hstart : d.start (render (normalize root)) = d.start root := by
    rw [← hbelow]
    exact start_below d root (by simp)
  rw [hbelow] at hmake
  by_cases hempty : normalize root = []
  · rw [hempty] at hmake
    cases fuel with
    | zero => cases hmake
    | succ fuel =>
      cases hmake
      rfl
  · refine makeDirs_eq_self h.sound ?_ h.isDirAt (trimSlashes_render hresolved) hmake
    rw [hstart]
    by_cases hroot : normalize root = [.root]
    · have hstay : steps (render [.root]) = [.stay] := by decide
      have hreaches := h.resolved
      rw [hroot] at hreaches ⊢
      rw [hstay]
      exact .stay hreaches
    · rw [steps_render hresolved hempty hroot]
      exact h.resolved

/-- Making directories along names below the root makes no others. -/
theorem makeDirs_grows (h : d.IsGround root base) {names : List String} {fuel : Nat}
    (hnames : ∀ name ∈ names, IsProper name)
    (hmake : d.makeDirs (below root names) fuel = .ok d') :
    Grows (IsOnWay base names) d d' := by
  induction fuel generalizing d d' names with
  | zero => cases hmake
  | succ fuel ih =>
    rcases names.eq_nil_or_concat with rfl | ⟨init, name, rfl⟩
    · rw [makeDirs_root h hmake]
      exact .refl d
    rw [List.concat_eq_append] at hnames hmake ⊢
    have hinit : ∀ n ∈ init, IsProper n := fun n hn ↦ hnames n (List.mem_append_left _ hn)
    have hone : ∀ {d d' : Disk}, d.IsGround root base →
        d.makeDir (below root (init ++ [name])) = .ok d' →
        Grows (IsOnWay base (init ++ [name])) d d' := by
      intro d d' h hmake
      obtain ⟨place, hleads, -, -, hgrows⟩ := makeDir_eq_ok h.sound hmake
      rw [below, trimSlashes_render ((isResolved_normalize root).append hnames)] at hleads
      rw [h.eq_of_leadsTo hnames (by simp) hleads] at hgrows
      exact hgrows.mono fun _ _ hnew ↦ ⟨hnew.2, _, List.prefix_rfl, hnew.1⟩
    rw [makeDirs] at hmake
    split at hmake
    · cases hmake
      exact .refl d
    split at hmake
    · next hok =>
      cases hmake
      exact hone h hok
    · rw [parent?_below_concat root hinit (hnames name (by simp))] at hmake
      simp only at hmake
      split at hmake
      · cases hmake
      · next d₁ habove =>
        have hgrows : Grows (IsOnWay base (init ++ [name])) d d₁ :=
          (ih h hinit habove).mono fun _ _ ⟨hk, front, hfront, hplace⟩ ↦
            ⟨hk, front, hfront.trans (List.prefix_append _ _), hplace⟩
        split at hmake
        · next hok =>
          cases hmake
          exact hgrows.trans (hone (h.grows hgrows) hok)
        · split at hmake
          · cases hmake
            exact hgrows
          · cases hmake
    · split at hmake
      · cases hmake
        exact .refl d
      · cases hmake

end IsGround

/-- Steps down along the names of a directory reach it. -/
theorem reaches_of_isDirAt {names : List FileName} (h : d.IsDirAt (here.reverse ++ names))
    (hsize : ∀ n ∈ names, n.size ≤ maxName) :
    d.Reaches last links here (names.map .down) (here.reverse ++ names) := by
  induction names generalizing here with
  | nil =>
    rw [List.append_nil]
    exact .here
  | cons name names ih =>
    have hreverse : here.reverse ++ name :: names = (name :: here).reverse ++ names := by simp
    rw [hreverse] at h ⊢
    obtain ⟨r, hr⟩ := h.of_append
    rw [List.reverse_cons] at hr
    exact .down (hsize name List.mem_cons_self) hr
      (ih h fun n hn ↦ hsize n (List.mem_cons_of_mem _ hn))

/-- Names that steps go down without a link are not too long. -/
theorem Reaches.size_le {names : List FileName}
    (h : d.Reaches last links here (names.map .down) place)
    (hplain : ∀ rest target, d.kindAt (here.reverse ++ rest) ≠ some (.link target)) :
    ∀ n ∈ names, n.size ≤ maxName := by
  induction names generalizing here with
  | nil => exact List.forall_mem_nil _
  | cons name names ih =>
    rw [List.map_cons] at h
    generalize hrest : names.map Step.down = rest at h
    cases h with
    | down hsize hdir h =>
      rw [← hrest] at h
      refine List.forall_mem_cons.2 ⟨hsize, ih h fun rest target ↦ ?_⟩
      rw [List.reverse_cons, List.append_assoc]
      exact hplain _ target
    | through _ hlink => exact absurd hlink (hplain [name] _)
    | stop hsize =>
      obtain rfl := List.map_eq_nil_iff.1 hrest
      exact List.forall_mem_cons.2 ⟨hsize, List.forall_mem_nil _⟩

/-- Steps down along the names of a file reach it. -/
theorem reaches_of_isFile {names : List FileName}
    (h : d.kindAt (here.reverse ++ names) = some .file) (hsize : ∀ n ∈ names, n.size ≤ maxName) :
    d.Reaches last links here (names.map .down) (here.reverse ++ names) := by
  induction names generalizing here with
  | nil =>
    rw [List.append_nil]
    exact .here
  | cons name names ih =>
    have hname := hsize name List.mem_cons_self
    cases names with
    | nil =>
      refine .stop hname ?_
      rw [h]
      trivial
    | cons next names =>
      have hreverse : here.reverse ++ name :: next :: names =
          (name :: here).reverse ++ next :: names := by simp
      rw [hreverse] at h ⊢
      obtain ⟨r, hr⟩ := exists_dir_of_kindAt h
      rw [List.reverse_cons] at hr
      exact .down hname hr (ih h fun n hn ↦ hsize n (List.mem_cons_of_mem _ hn))

/-- A path that can be followed on one ground leads to a file on another one, if there is a file at
its place. -/
theorem IsGround.leadsTo_of_isFile {names : List String} (h : d.IsGround root base)
    (h' : d'.IsGround root base) (hnames : ∀ name ∈ names, IsProper name) (hne : names ≠ [])
    (hleads : d'.LeadsTo true (below root names) place)
    (hfile : d.kindAt (placeBelow base names) = some .file) :
    d.LeadsTo true (below root names) (placeBelow base names) where
  nul_notMem := hleads.nul_notMem
  ne_empty := hleads.ne_empty
  size_lt := hleads.size_lt
  reaches := by
    obtain ⟨n', hn'⟩ := h'.reaches_iff hnames hne
    have hsize := ((hn' true place).1 hleads.reaches).size_le fun rest target ↦ by
      rw [List.reverse_reverse]
      exact h'.plain rest target
    obtain ⟨n, hn⟩ := h.reaches_iff hnames hne
    refine (hn true _).2 ?_
    have hplace : placeBelow base names = base.reverse.reverse ++ names.map .text := by
      rw [List.reverse_reverse]
      rfl
    rw [hplace] at hfile ⊢
    exact reaches_of_isFile hfile hsize

/-- An absolute root stands on ground if its own names lead to a directory without links, and
relative paths do not start below it. -/
theorem isGround_of_isAbsolute {names : List String} (habs : isAbsolute root = true)
    (hroot : normalize root = .root :: names.map .normal)
    (hsize : ∀ n ∈ names, n.utf8ByteSize ≤ maxName) (hdir : d.IsDirAt (names.map .text))
    (hplain : ∀ rest target, d.kindAt (names.map .text ++ rest) ≠ some (.link target))
    (hhere : d.IsDirAt d.here.reverse)
    (hout : ¬ (names.map .text <+: d.here.reverse ∧ d.here.reverse ≠ names.map .text)) :
    d.IsGround root (names.map .text) where
  isDirAt := hdir
  plain := hplain
  way {d' new} h := by
    have hkept : ∀ {place}, ¬ (names.map .text <+: place ∧ place ≠ names.map .text) →
        d.IsDirAt place → d'.IsDirAt place := fun hplace ⟨r, hr⟩ ↦ ⟨r, h.kept hplace hr⟩
    have hbase : d'.IsDirAt (names.map .text) := hkept (fun hbelow ↦ hbelow.2 rfl) hdir
    refine ⟨⟨hbase.top, by rw [h.here_eq]; exact hkept hout hhere⟩, ?_⟩
    have hstart : d'.start root = [] := by rw [Disk.start, habs, if_pos rfl]
    have hsteps : (normalize root).filterMap step? = (names.map FileName.text).map .down := by
      rw [hroot, List.filterMap_cons_none rfl, filterMap_step?_map, List.map_map]
      rfl
    have htexts : ∀ n ∈ names.map FileName.text, n.size ≤ maxName := by
      intro n hn
      obtain ⟨name, hname, rfl⟩ := List.mem_map.1 hn
      exact hsize name hname
    rw [hstart, hsteps]
    exact @reaches_of_isDirAt d' true maxLinks [] _ hbase htexts

end Disk

namespace Confine

open Path RepoName

theorem isDirectory_of_append {front rest : List String} (h : IsDirectory (front ++ rest))
    (hne : rest ≠ []) : IsDirectory rest := by
  obtain ⟨hproper, init, last, hinit, hlast⟩ := h
  refine ⟨fun name hname ↦ hproper name (List.mem_append_right _ hname), ?_⟩
  obtain ⟨before, final, rfl⟩ : ∃ before final, rest = before ++ [final] := by
    rcases rest.eq_nil_or_concat with rfl | ⟨before, final, rfl⟩
    · exact absurd rfl hne
    · exact ⟨before, final, List.concat_eq_append⟩
  rw [← List.append_assoc] at hinit
  obtain rfl : final = last := List.singleton_inj.1 (List.append_inj_right' hinit rfl)
  exact ⟨before, final, rfl, hlast⟩

/-- The path of a name is a resolved one that ends in a name. -/
theorem exists_concat {root raw : String} {p : RepoPath}
    (h : repoPath root (sanitize raw) = .ok p) :
    ∃ cs name, IsResolved cs ∧ IsProper name ∧ p.components = cs ++ [.normal name] := by
  obtain ⟨hrel, hp, -⟩ := ensureWithin_ok h
  obtain ⟨k, down, hn, hproper, init, last, rfl, -⟩ := exists_dirName raw
  have hcandidate : normalize (sanitize raw).dirName = walk k (init ++ [last]) := by
    rw [hn, normalize_render_walk hproper]
  have hlast : IsProper last := hproper last (by simp)
  have hinit : ∀ name ∈ init, IsProper name := fun name hname ↦
    hproper name (List.mem_append_left _ hname)
  rw [hp, normalize_join hrel, hcandidate]
  cases hroot : isAbsolute root with
  | true =>
    obtain ⟨names, hnames, hfront⟩ := normalize_of_isAbsolute hroot
    refine ⟨.root :: (names.take (names.length - k) ++ init).map .normal, last, .absolute ?_,
      hlast, ?_⟩
    · exact fun name hname ↦ (List.mem_append.1 hname).elim
        (fun hname ↦ hfront name (List.mem_of_mem_take hname)) (hinit name)
    · rw [hnames, List.cons_append, resolve_root_walk]
      simp
  | false =>
    obtain ⟨up, names, hnames, hfront⟩ := normalize_of_not_isAbsolute hroot
    refine ⟨walk (up + (k - names.length)) (names.take (names.length - k) ++ init), last,
      .relative ?_, hlast, ?_⟩
    · exact fun name hname ↦ (List.mem_append.1 hname).elim
        (fun hname ↦ hfront name (List.mem_of_mem_take hname)) (hinit name)
    · rw [hnames, resolve_walk_walk]
      simp [walk]

/-- The directory of a name lies along names below the root. -/
structure LiesAlong (root : String) (n : RepoName) (rest : List String) : Prop where
  isDirectory : IsDirectory rest
  repoPath_eq : repoPath root n = .ok ⟨normalize root ++ rest.map .normal⟩

namespace LiesAlong

variable {root : String} {n : RepoName} {rest : List String} {p : RepoPath}

theorem text_eq (h : LiesAlong root n rest) (hp : repoPath root n = .ok p) :
    p.text = Disk.below root rest := by
  cases hp.symm.trans h.repoPath_eq
  rfl

theorem eq_of_components {rest' : List String}
    (h : normalize root ++ rest'.map .normal = normalize root ++ rest.map .normal) :
    rest' = rest :=
  (List.map_inj_right fun _ _ h ↦ normal_injective h).1 (List.append_cancel_left h)

/-- The directory of a name lies along no other names. -/
theorem unique {rest' : List String} (h : LiesAlong root n rest) (h' : LiesAlong root n rest') :
    rest' = rest := by
  have heq := h'.repoPath_eq.symm.trans h.repoPath_eq
  rw [Except.ok.injEq, RepoPath.mk.injEq] at heq
  exact eq_of_components heq

/-- One directory lies strictly below another one if its names go on from those of the other. -/
theorem strictlyBelow_iff {a : RepoName} {front : List String} {p' : RepoPath}
    (ha : LiesAlong root a front) (h : LiesAlong root n rest) (hp : repoPath root a = .ok p)
    (hp' : repoPath root n = .ok p') :
    strictlyBelow p.components p'.components = true ↔ front <+: rest ∧ rest ≠ front := by
  cases hp.symm.trans ha.repoPath_eq
  cases hp'.symm.trans h.repoPath_eq
  rw [Confine.strictlyBelow_iff, List.prefix_append_right_inj,
    List.prefix_map_iff_of_injective normal_injective]
  refine and_congr_right fun _ ↦ not_congr ⟨eq_of_components, ?_⟩
  rintro rfl
  rfl

end LiesAlong

/-- Below an anchored root, the path of a name goes down from the root along the last names of its
directory, and along all of them if the name does not climb. -/
theorem exists_liesAlong {root raw : String} {n : RepoName} {p : RepoPath} (hn : n = sanitize raw)
    (h : repoPath root n = .ok p) (hanchor : Anchored root n.dirName) :
    ∃ down rest, n.dirName = render (walk n.climb down) ∧ IsDirectory down ∧
      LiesAlong root n rest ∧ rest <:+ down ∧ (n.climb = 0 → rest = down) := by
  subst hn
  obtain ⟨hrel, hp, hbelow⟩ := ensureWithin_ok h
  obtain ⟨k, down, hn, hdown⟩ := exists_dirName raw
  have hclimb := climb_of_dirName hn hdown
  have hcandidate : normalize (sanitize raw).dirName = walk k down := by
    rw [hn, normalize_render_walk hdown.1]
  obtain ⟨hbegins, hne⟩ := strictlyBelow_iff.1 hbelow
  -- the root and the path begin with the same steps and then go down along names
  have hcommon : ∃ (front : List Component) (names : List String),
      normalize root = front ++ names.map .normal ∧
      p.components = front ++ (names.take (names.length - k) ++ down).map .normal ∧
      ∀ name ∈ names, IsProper name := by
    cases hroot : isAbsolute root with
    | true =>
      obtain ⟨names, hnames, hproper⟩ := normalize_of_isAbsolute hroot
      refine ⟨[.root], names, hnames, ?_, hproper⟩
      rw [hp, normalize_join hrel, hnames, hcandidate]
      exact resolve_root_walk k names down
    | false =>
      obtain ⟨up, names, hnames, hproper⟩ := normalize_of_not_isAbsolute hroot
      have hwalk : p.components =
          walk (up + (k - names.length)) (names.take (names.length - k) ++ down) := by
        rw [hp, normalize_join hrel, hnames, hcandidate]
        exact resolve_walk_walk up k names down
      have hk := (anchored_iff h hnames hcandidate hwalk).1 hanchor
      rw [Nat.sub_eq_zero_of_le hk, Nat.add_zero] at hwalk
      exact ⟨_, names, hnames, hwalk, hproper⟩
  obtain ⟨front, names, hnames, hfull, hproper⟩ := hcommon
  rw [hnames, hfull] at hbegins hne
  rw [List.prefix_append_right_inj, List.prefix_map_iff_of_injective normal_injective] at hbegins
  obtain ⟨rest, hrest⟩ := hbegins
  have hback : down = names.drop (names.length - k) ++ rest := by
    have hboth : names.take (names.length - k) ++ down =
        names.take (names.length - k) ++ (names.drop (names.length - k) ++ rest) := by
      rw [← hrest, ← List.append_assoc, List.take_append_drop]
    exact List.append_cancel_left hboth
  refine ⟨down, rest, by rw [hclimb, hn], hdown, ⟨isDirectory_of_append (hback ▸ hdown) ?_, ?_⟩,
    ⟨_, hback.symm⟩, fun hzero ↦ ?_⟩
  · rintro rfl
    exact hne (by rw [← hrest, List.append_nil])
  · rw [h, Except.ok.injEq, RepoPath.mk.injEq, hfull, ← hrest, hnames, List.map_append,
      List.append_assoc]
  · rw [hclimb] at hzero
    rw [hback, hzero, Nat.sub_zero, List.drop_length, List.nil_append]

/-- Below a root that resolves to more than steps up, every accepted name lies along names. -/
theorem exists_liesAlong_of_root {root raw : String} {n : RepoName} {p : RepoPath}
    (hroot : ∃ c ∈ normalize root, c ≠ .parent) (hn : n = sanitize raw)
    (h : repoPath root n = .ok p) : ∃ rest, LiesAlong root n rest := by
  obtain ⟨-, rest, -, -, halong, -⟩ := exists_liesAlong hn h (.inl hroot)
  exact ⟨rest, halong⟩

end Confine

end GitGateway
