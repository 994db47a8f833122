import GitGateway.Proofs.Disks

/-!
# Disks as maps of places

What a path leads to depends only on the **kind** of what lies at each place: a file, a link with a
target, or a directory that can be read or not.  `Reaches` follows steps with nothing but kinds, to
a place at which there may be something or nothing yet.  Following a path reaches a place like that
or is refused (`lead_cases`), and there is only one such place (`LeadsTo.unique`).

A disk **grows** if everything on it keeps its kind and new entries are no links.  Then a path that
reached a place still reaches it (`Reaches.grows`).  Making directories and writing files are steps
of growth, and what they add is told by the place that their path reaches.
-/

namespace GitGateway

open Path

/-- The kind of an entry. -/
inductive Kind where
  | file
  | link (target : String)
  | dir (readable : Bool)
deriving DecidableEq, Repr

namespace Entry

/-- The kind of an entry. -/
def kind : Entry → Kind
  | .file _ => .file
  | .link target => .link target
  | .dir readable _ => .dir readable

/-- The kind of what lies at a place, without following links. -/
def kindAt (e : Entry) (place : List FileName) : Option Kind := (e.at? place).map kind

variable {e c : Entry} {name : FileName} {place dir : List FileName}

theorem kind_eq_dir_iff {r : Bool} : e.kind = .dir r ↔ ∃ es, e = .dir r es := by
  cases e <;> simp [kind]

@[simp] theorem kindAt_nil : e.kindAt [] = some e.kind := rfl

theorem kindAt_cons : e.kindAt (name :: place) = (e.child? name).bind fun c ↦ c.kindAt place := by
  rw [kindAt, at?, Option.map_bind]
  rfl

theorem kindAt_append : e.kindAt (dir ++ place) = (e.at? dir).bind fun c ↦ c.kindAt place := by
  rw [kindAt, Disk.at?_append, Option.map_bind]
  rfl

theorem lookup_map (f : FileName → Entry → Entry) (es : List (FileName × Entry))
    (name : FileName) :
    (es.map fun p ↦ (p.1, f p.1 p.2)).lookup name = (es.lookup name).map (f name) := by
  induction es with
  | nil => rfl
  | cons p es ih =>
    rw [List.map_cons, List.lookup_cons, List.lookup_cons]
    cases hname : name == p.1 with
    | true =>
      rw [eq_of_beq hname]
      rfl
    | false => exact ih

/-- Putting an entry under a name of a directory changes what lies under that name only. -/
theorem child?_setChild {r : Bool} {es : List (FileName × Entry)} (other : FileName) :
    ((Entry.dir r es).setChild name c).child? other =
      if other = name then some c else (Entry.dir r es).child? other := by
  rw [setChild]
  split
  · next hpresent =>
    have hmap : (es.map fun p ↦ if p.1 == name then (name, c) else p) =
        es.map fun p ↦ (p.1, if p.1 == name then c else p.2) := by
      refine List.map_congr_left fun p _ ↦ ?_
      split
      · next hname => rw [eq_of_beq hname]
      · rfl
    have hlookup := lookup_map (fun n e ↦ if n == name then c else e) es other
    rw [child?, entries, hmap, hlookup]
    by_cases hother : other = name
    · subst hother
      obtain ⟨e, he⟩ := Option.isSome_iff_exists.1 hpresent
      simp [he]
    · rw [if_neg hother]
      simp [hother, child?, entries]
  · next habsent =>
    rw [Option.not_isSome_iff_eq_none] at habsent
    rw [child?, entries, List.lookup_append]
    by_cases hother : other = name
    · subst hother
      simp [habsent]
    · have hne : (other == name) = false := by simpa using hother
      simp [hother, List.lookup_cons, hne, child?, entries]

theorem kind_setChild (e : Entry) (name : FileName) (c : Entry) :
    (e.setChild name c).kind = e.kind := by
  cases e with
  | dir r es =>
    rw [setChild]
    split <;> rfl
  | file | link => rfl

/-- Nothing lies below an entry without entries. -/
theorem kindAt_cons_of_entries (h : c.entries = []) : c.kindAt (name :: place) = none := by
  rw [kindAt_cons, child?, h]
  rfl

/-- Putting an entry that has none itself under a name of a directory, where there was no directory,
changes what lies at that place only. -/
theorem kindAt_put {r : Bool} {es : List (FileName × Entry)} (hdir : e.at? dir = some (.dir r es))
    (hfree : ∀ old, (Entry.dir r es).child? name = some old → old.entries = [])
    (hc : c.entries = []) (place : List FileName) :
    (e.modifyAt (fun p ↦ p.setChild name c) dir).kindAt place =
      if place = dir ++ [name] then some c.kind else e.kindAt place := by
  induction dir generalizing e place with
  | nil =>
    cases hdir
    cases place with
    | nil => simp [modifyAt, kind_setChild]
    | cons first place =>
      rw [modifyAt, kindAt_cons, child?_setChild, kindAt_cons]
      by_cases hfirst : first = name
      · subst hfirst
        rw [if_pos rfl, Option.bind_some]
        cases place with
        | nil => simp
        | cons next place =>
          have hold : ((Entry.dir r es).child? first).bind (fun c ↦ c.kindAt (next :: place)) =
              none := by
            cases hchild : (Entry.dir r es).child? first with
            | none => rfl
            | some old => exact kindAt_cons_of_entries (hfree old hchild)
          rw [kindAt_cons_of_entries hc, hold, if_neg (by simp)]
      · simp [hfirst]
  | cons above dir ih =>
    rw [at?] at hdir
    obtain ⟨next, hnext, hbelow⟩ := Option.bind_eq_some_iff.1 hdir
    obtain ⟨r', es', rfl⟩ := Disk.exists_of_child? hnext
    rw [modifyAt, hnext]
    cases place with
    | nil => simp [kind_setChild]
    | cons first place =>
      rw [kindAt_cons, child?_setChild, kindAt_cons]
      by_cases hfirst : first = above
      · subst hfirst
        rw [if_pos rfl, Option.bind_some, hnext, Option.bind_some, ih hbelow]
        simp
      · simp [hfirst]

end Entry

namespace Disk

/-- The kind of what lies at a place, without following links. -/
def kindAt (d : Disk) (place : List FileName) : Option Kind := d.top.kindAt place

variable {d d' : Disk} {last : Bool} {links : Nat} {here place dir rest : List FileName}
variable {name : FileName} {todo : List Step} {e : Entry} {k : Kind}

theorem kindAt_eq_dir_iff {r : Bool} :
    d.kindAt place = some (.dir r) ↔ ∃ es, d.top.at? place = some (.dir r es) := by
  rw [kindAt, Entry.kindAt, Option.map_eq_some_iff]
  constructor
  · rintro ⟨e, he, hkind⟩
    obtain ⟨es, rfl⟩ := Entry.kind_eq_dir_iff.1 hkind
    exact ⟨es, he⟩
  · rintro ⟨es, he⟩
    exact ⟨_, he, rfl⟩

/-- What lies below a place lies in directories all the way. -/
theorem exists_dir_of_kindAt (h : d.kindAt (place ++ name :: rest) = some k) :
    ∃ r, d.kindAt place = some (.dir r) := by
  rw [kindAt, Entry.kindAt_append] at h
  obtain ⟨e, he, h⟩ := Option.bind_eq_some_iff.1 h
  rw [Entry.kindAt_cons] at h
  obtain ⟨c, hc, -⟩ := Option.bind_eq_some_iff.1 h
  obtain ⟨r, es, rfl⟩ := exists_of_child? hc
  exact ⟨r, kindAt_eq_dir_iff.2 ⟨es, he⟩⟩

theorem at?_concat (d : Disk) (place : List FileName) (name : FileName) :
    d.top.at? (place ++ [name]) = (d.top.at? place).bind fun e ↦ e.child? name := by
  rw [at?_append]
  refine congrArg _ (funext fun e ↦ ?_)
  rw [Entry.at?]
  cases e.child? name <;> rfl

theorem kindAt_concat : d.kindAt (place ++ [name]) =
    ((d.top.at? place).bind fun e ↦ e.child? name).map Entry.kind := by
  rw [kindAt, Entry.kindAt, at?_concat]

/-! ## Places that steps reach -/

/-- Whether steps may end at what is, or is not, at the place that the last of them goes down to. -/
def stopsAt (last : Bool) : Option Kind → Prop
  | none | some .file => True
  | some (.link _) => last = false
  | some (.dir _) => False

/-- Steps from a directory, given innermost first, reach a place: all that they go through are
directories and links to be followed, but at the place itself there may be anything or nothing. -/
inductive Reaches (d : Disk) (last : Bool) :
    (links : Nat) → (here : List FileName) → List Step → (place : List FileName) → Prop where
  | here {links : Nat} {here : List FileName} : Reaches d last links here [] here.reverse
  | stay {links : Nat} {here place : List FileName} {todo : List Step}
      (h : Reaches d last links here todo place) : Reaches d last links here (.stay :: todo) place
  | up {links : Nat} {here place : List FileName} {todo : List Step}
      (h : Reaches d last links here.tail todo place) :
      Reaches d last links here (.up :: todo) place
  | down {links : Nat} {here place : List FileName} {todo : List Step} {name : FileName} {r : Bool}
      (hsize : name.size ≤ maxName) (hdir : d.kindAt (here.reverse ++ [name]) = some (.dir r))
      (h : Reaches d last links (name :: here) todo place) :
      Reaches d last links here (.down name :: todo) place
  | through {links : Nat} {here place : List FileName} {todo : List Step} {name : FileName}
      {target : String} (hsize : name.size ≤ maxName)
      (hlink : d.kindAt (here.reverse ++ [name]) = some (.link target))
      (hlast : todo ≠ [] ∨ last = true)
      (h : Reaches d last links (if isAbsolute target then [] else here) (steps target ++ todo)
        place) : Reaches d last (links + 1) here (.down name :: todo) place
  | stop {links : Nat} {here : List FileName} {name : FileName} (hsize : name.size ≤ maxName)
      (hstop : stopsAt last (d.kindAt (here.reverse ++ [name]))) :
      Reaches d last links here [.down name] (here.reverse ++ [name])

/-- A lead to a place, where there is something or nothing. -/
def Lead.IsTo (d : Disk) (place : List FileName) : Lead → Prop
  | .entry there e => there = place ∧ d.top.at? place = some e
  | .missing dir name => dir ++ [name] = place ∧ d.kindAt place = none
  | .refused _ => False

theorem Lead.IsTo.unique {lead : Lead} {other : List FileName} (h : lead.IsTo d place)
    (hother : lead.IsTo d other) : other = place := by
  cases lead with
  | entry there e => exact hother.1.symm.trans h.1
  | missing dir name => exact hother.1.symm.trans h.1
  | refused e => cases h

/-- Steps that are followed reach the place that they lead to, or they are refused. -/
theorem follow_cases (d : Disk) (last : Bool) (links : Nat) (here : List FileName)
    (todo : List Step) : (∃ place, (d.follow last links here todo).IsTo d place ∧
      Reaches d last links here todo place) ∨ ∃ e, d.follow last links here todo = .refused e := by
  induction links, here, todo using steps_induction with
  | nil links here =>
    rw [follow_nil]
    cases hat : d.top.at? here.reverse with
    | none => exact .inr ⟨_, rfl⟩
    | some e => exact .inl ⟨_, ⟨rfl, hat⟩, .here⟩
  | stay links here todo ih =>
    rw [follow_stay]
    exact ih.imp_left fun ⟨place, hto, h⟩ ↦ ⟨place, hto, .stay h⟩
  | up links here todo ih =>
    rw [follow_up]
    exact ih.imp_left fun ⟨place, hto, h⟩ ↦ ⟨place, hto, .up h⟩
  | down links here name todo ih ihlink =>
    rw [follow_down]
    by_cases hsize : maxName < name.size
    · rw [if_pos hsize]
      exact .inr ⟨_, rfl⟩
    rw [if_neg hsize]
    have hshort := Nat.not_lt.1 hsize
    have hkind := @kindAt_concat d here.reverse name
    have hplace := at?_concat d here.reverse name
    generalize (d.top.at? here.reverse).bind (fun e ↦ e.child? name) = child at hkind hplace
    cases child with
    | none =>
      cases todo with
      | nil => exact .inl ⟨_, ⟨rfl, hkind⟩, .stop hshort (by rw [hkind]; trivial)⟩
      | cons => exact .inr ⟨_, rfl⟩
    | some c =>
      cases c with
      | dir r es =>
        exact ih.imp_left fun ⟨place, hto, h⟩ ↦ ⟨place, hto, .down hshort hkind h⟩
      | file data =>
        cases todo with
        | nil =>
          exact .inl ⟨_, ⟨List.reverse_cons, hplace⟩, .stop hshort (by rw [hkind]; trivial)⟩
        | cons => exact .inr ⟨_, rfl⟩
      | link target =>
        by_cases hlast : todo.isEmpty && !last
        · obtain ⟨hnil, hnot⟩ := Bool.and_eq_true_iff.1 hlast
          obtain rfl := List.isEmpty_iff.1 hnil
          obtain rfl : last = false := by simpa using hnot
          exact .inl ⟨_, ⟨List.reverse_cons, hplace⟩, .stop hshort (by rw [hkind]; rfl)⟩
        · simp only [if_neg hlast]
          cases links with
          | zero => exact .inr ⟨_, rfl⟩
          | succ n =>
            refine (ihlink n target rfl).imp_left fun ⟨place, hto, h⟩ ↦
              ⟨place, hto, .through hshort hkind ?_ h⟩
            cases todo with
            | nil => exact .inr (by simpa using hlast)
            | cons => exact .inl (by simp)

/-- A place is a directory. -/
def IsDirAt (d : Disk) (place : List FileName) : Prop := ∃ r, d.kindAt place = some (.dir r)

theorem IsDirAt.of_append {front : List FileName} (h : d.IsDirAt (front ++ rest)) :
    d.IsDirAt front := by
  cases rest with
  | nil => rwa [List.append_nil] at h
  | cons name rest =>
    obtain ⟨r, h⟩ := h
    exact exists_dir_of_kindAt h

theorem IsDirAt.top (h : d.IsDirAt place) : d.IsDirAt [] := by
  rw [← List.nil_append place] at h
  exact h.of_append

theorem IsDirAt.tail (h : d.IsDirAt here.reverse) : d.IsDirAt here.tail.reverse := by
  cases here with
  | nil => exact h
  | cons name here =>
    rw [List.reverse_cons] at h
    exact h.of_append

theorem IsDirAt.start (h : d.IsDirAt here.reverse) (absolute : Bool) :
    d.IsDirAt (if absolute then [] else here).reverse := by
  cases absolute with
  | true => exact h.top
  | false => exact h

/-- Steps from a directory that reach a place lead there. -/
theorem Reaches.isTo (h : Reaches d last links here todo place) (hhere : d.IsDirAt here.reverse) :
    (d.follow last links here todo).IsTo d place := by
  induction h with
  | here =>
    obtain ⟨r, hr⟩ := hhere
    obtain ⟨es, hat⟩ := kindAt_eq_dir_iff.1 hr
    rw [follow_nil, hat]
    exact ⟨rfl, hat⟩
  | stay h ih =>
    rw [follow_stay]
    exact ih hhere
  | up h ih =>
    rw [follow_up]
    exact ih hhere.tail
  | @down links here place todo name r hsize hdir h ih =>
    have hbelow := ih (by rw [List.reverse_cons]; exact ⟨r, hdir⟩)
    rw [kindAt_concat, Option.map_eq_some_iff] at hdir
    obtain ⟨c, hc, hkind⟩ := hdir
    obtain ⟨es, rfl⟩ := Entry.kind_eq_dir_iff.1 hkind
    rw [follow_down, if_neg (Nat.not_lt.2 hsize), hc]
    exact hbelow
  | @through links here place todo name target hsize hlink hlast h ih =>
    have hbehind := ih (hhere.start _)
    rw [kindAt_concat, Option.map_eq_some_iff] at hlink
    obtain ⟨c, hc, hkind⟩ := hlink
    have hpass : ¬ (todo.isEmpty && !last) = true := by
      rcases hlast with hne | rfl
      · simp [hne]
      · simp
    cases c with
    | link other =>
      cases hkind
      rw [follow_down, if_neg (Nat.not_lt.2 hsize), hc]
      simp only [if_neg hpass]
      exact hbehind
    | dir | file => cases hkind
  | @stop links here name hsize hstop =>
    have hplace := at?_concat d here.reverse name
    have hkind := @kindAt_concat d here.reverse name
    rw [follow_down, if_neg (Nat.not_lt.2 hsize)]
    generalize (d.top.at? here.reverse).bind (fun e ↦ e.child? name) = child at hkind hplace
    rw [hkind] at hstop
    cases child with
    | none => exact ⟨rfl, hkind⟩
    | some c =>
      cases c with
      | dir r es => exact hstop.elim
      | file data => exact ⟨List.reverse_cons, hplace⟩
      | link target =>
        obtain rfl : last = false := hstop
        exact ⟨List.reverse_cons, hplace⟩

/-- Only one place is reached by steps from a directory. -/
theorem Reaches.unique {other : List FileName} (h : Reaches d last links here todo place)
    (hother : Reaches d last links here todo other) (hhere : d.IsDirAt here.reverse) :
    other = place :=
  (h.isTo hhere).unique (hother.isTo hhere)

/-- What is reached lies in a directory, unless it is the top. -/
theorem Reaches.isDirAt_above (h : Reaches d last links here todo (dir ++ [name]))
    (hhere : d.IsDirAt here.reverse) : d.IsDirAt dir := by
  generalize hplace : dir ++ [name] = place at h
  induction h with
  | here =>
    rw [← hplace] at hhere
    exact hhere.of_append
  | stay h ih => exact ih hhere hplace
  | up h ih => exact ih hhere.tail hplace
  | down hsize hdir h ih => exact ih (by rw [List.reverse_cons]; exact ⟨_, hdir⟩) hplace
  | through hsize hlink hlast h ih => exact ih (hhere.start _) hplace
  | stop hsize hstop =>
    obtain ⟨rfl, -⟩ := List.append_inj' hplace rfl
    exact hhere

/-! ## Growth -/

/-- A disk grows into another one: everything keeps its kind, and every new entry is as said and no
link. -/
structure Grows (new : List FileName → Kind → Prop) (d d' : Disk) : Prop where
  here_eq : d'.here = d.here
  kept {place : List FileName} {k : Kind} : d.kindAt place = some k → d'.kindAt place = some k
  new_of {place : List FileName} {k : Kind} :
    d.kindAt place = none → d'.kindAt place = some k → new place k
  noLink {place : List FileName} {target : String} :
    d.kindAt place = none → d'.kindAt place ≠ some (.link target)

variable {new new' : List FileName → Kind → Prop}

namespace Grows

theorem refl (d : Disk) : Grows new d d where
  here_eq := rfl
  kept h := h
  new_of h h' := nomatch h.symm.trans h'
  noLink h h' := nomatch h.symm.trans h'

theorem mono (h : Grows new d d') (himp : ∀ place k, new place k → new' place k) :
    Grows new' d d' where
  here_eq := h.here_eq
  kept := h.kept
  new_of hnone hsome := himp _ _ (h.new_of hnone hsome)
  noLink := h.noLink

theorem trans {d'' : Disk} (h : Grows new d d') (h' : Grows new d' d'') : Grows new d d'' where
  here_eq := h'.here_eq.trans h.here_eq
  kept hk := h'.kept (h.kept hk)
  new_of {place k} hnone hsome := by
    cases hmid : d'.kindAt place with
    | none => exact h'.new_of hmid hsome
    | some k' =>
      cases (h'.kept hmid).symm.trans hsome
      exact h.new_of hnone hmid
  noLink {place target} hnone hsome := by
    cases hmid : d'.kindAt place with
    | none => exact h'.noLink hmid hsome
    | some k' =>
      cases (h'.kept hmid).symm.trans hsome
      exact h.noLink hnone hmid

theorem isDirAt (h : Grows new d d') (hdir : d.IsDirAt place) : d'.IsDirAt place := by
  obtain ⟨r, hr⟩ := hdir
  exact ⟨r, h.kept hr⟩

theorem of_forall_eq (hhere : d'.here = d.here) (hkind : ∀ place, d'.kindAt place = d.kindAt place) :
    Grows new d d' where
  here_eq := hhere
  kept h := (hkind _).trans h
  new_of h h' := nomatch (h.symm.trans (hkind _).symm).trans h'
  noLink h h' := nomatch (h.symm.trans (hkind _).symm).trans h'

/-- One new entry appears, and nothing else changes. -/
theorem of_kindAt {k : Kind} (hhere : d'.here = d.here) (hnone : d.kindAt dir = none)
    (hk : ∀ target, k ≠ .link target)
    (hkind : ∀ place, d'.kindAt place = if place = dir then some k else d.kindAt place) :
    Grows (fun place k' ↦ place = dir ∧ k' = k) d d' where
  here_eq := hhere
  kept {place k'} h := by
    rw [hkind, if_neg]
    · exact h
    · rintro rfl
      cases hnone.symm.trans h
  new_of {place k'} h h' := by
    rw [hkind] at h'
    split at h'
    · next hplace =>
      cases h'
      exact ⟨hplace, rfl⟩
    · cases h.symm.trans h'
  noLink {place target} h h' := by
    rw [hkind] at h'
    split at h'
    · cases h'
      exact hk _ rfl
    · cases h.symm.trans h'

end Grows

/-- What steps reached is still reached after growth. -/
theorem Reaches.grows (h : Reaches d last links here todo place) (hgrows : Grows new d d') :
    Reaches d' last links here todo place := by
  induction h with
  | here => exact .here
  | stay h ih => exact .stay ih
  | up h ih => exact .up ih
  | down hsize hdir h ih => exact .down hsize (hgrows.kept hdir) ih
  | through hsize hlink hlast h ih => exact .through hsize (hgrows.kept hlink) hlast ih
  | @stop links here name hsize hstop =>
    cases hold : d.kindAt (here.reverse ++ [name]) with
    | some k =>
      rw [hold] at hstop
      exact .stop hsize (by rwa [hgrows.kept hold])
    | none =>
      cases hnew : d'.kindAt (here.reverse ++ [name]) with
      | none => exact .stop hsize (by rw [hnew]; trivial)
      | some k =>
        cases k with
        | file => exact .stop hsize (by rw [hnew]; trivial)
        | link target => exact absurd hnew (hgrows.noLink hold)
        | dir r =>
          have hdown : Reaches d' last links here [.down name] (name :: here).reverse :=
            .down hsize hnew .here
          rwa [List.reverse_cons] at hdown

/-! ## Paths -/

/-- The place that a path starts from, innermost name first. -/
def start (d : Disk) (p : String) : List FileName := if isAbsolute p then [] else d.here

/-- A path that the system can follow reaches a place. -/
structure LeadsTo (d : Disk) (last : Bool) (p : String) (place : List FileName) : Prop where
  nul_notMem : '\x00' ∉ p.toList
  ne_empty : p ≠ ""
  size_lt : p.utf8ByteSize < maxPath
  reaches : Reaches d last maxLinks (d.start p) (steps p) place

/-- The top of a disk and the place that relative paths start from are directories. -/
structure IsSound (d : Disk) : Prop where
  top : d.IsDirAt []
  here : d.IsDirAt d.here.reverse

theorem IsSound.start {p : String} (h : d.IsSound) : d.IsDirAt (d.start p).reverse := by
  unfold Disk.start
  split
  · exact h.top
  · exact h.here

theorem IsSound.grows (h : d.IsSound) (hgrows : Grows new d d') : d'.IsSound where
  top := hgrows.isDirAt h.top
  here := by
    rw [hgrows.here_eq]
    exact hgrows.isDirAt h.here

variable {p : String}

theorem LeadsTo.grows (h : d.LeadsTo last p place) (hgrows : Grows new d d') :
    d'.LeadsTo last p place where
  nul_notMem := h.nul_notMem
  ne_empty := h.ne_empty
  size_lt := h.size_lt
  reaches := by
    have hstart : d'.start p = d.start p := by rw [Disk.start, Disk.start, hgrows.here_eq]
    rw [hstart]
    exact h.reaches.grows hgrows

theorem LeadsTo.unique {other : List FileName} (h : d.LeadsTo last p place)
    (hother : d.LeadsTo last p other) (hsound : d.IsSound) : other = place :=
  h.reaches.unique hother.reaches hsound.start

theorem lead_cases (d : Disk) (last : Bool) (p : String) :
    (∃ place, (d.lead last p).IsTo d place ∧ d.LeadsTo last p place) ∨
      ∃ e, d.lead last p = .refused e := by
  unfold lead
  split
  · exact .inr ⟨_, rfl⟩
  · next hnul =>
    split
    · exact .inr ⟨_, rfl⟩
    · next hempty =>
      split
      · exact .inr ⟨_, rfl⟩
      · next hsize =>
        refine (follow_cases d last maxLinks _ (steps p)).imp_left fun ⟨place, hto, h⟩ ↦ ?_
        exact ⟨place, hto, by simpa using hnul, by simpa using hempty, Nat.lt_of_not_le hsize, h⟩

theorem LeadsTo.isTo (h : d.LeadsTo last p place) (hsound : d.IsSound) :
    (d.lead last p).IsTo d place := by
  have hnul : p.toList.contains '\x00' = false := by simpa using h.nul_notMem
  have hempty : (p == "") = false := by simpa using h.ne_empty
  rw [lead, hnul, hempty, if_neg Bool.false_ne_true, if_neg Bool.false_ne_true,
    if_neg (Nat.not_le.2 h.size_lt)]
  exact h.reaches.isTo hsound.start

theorem kindAt_of_at? (h : d.top.at? place = some e) : d.kindAt place = some e.kind := by
  rw [kindAt, Entry.kindAt, h]
  rfl

/-- What a path leads to is what lies at the place it leads to. -/
theorem stat_eq_ok_iff (hsound : d.IsSound) :
    d.stat p = .ok e ↔ ∃ place, d.LeadsTo true p place ∧ d.top.at? place = some e := by
  unfold stat
  constructor
  · intro h
    rcases lead_cases d true p with ⟨place, hto, hleads⟩ | ⟨cause, hrefused⟩
    · cases hlead : d.lead true p with
      | entry there e' =>
        rw [hlead] at h hto
        cases h
        exact ⟨place, hleads, hto.1 ▸ hto.2⟩
      | missing | refused =>
        rw [hlead] at h
        cases h
    · rw [hrefused] at h
      cases h
  · rintro ⟨place, hleads, hat⟩
    have hto := hleads.isTo hsound
    cases hlead : d.lead true p with
    | entry there e' =>
      rw [hlead] at hto
      obtain ⟨rfl, hat'⟩ := hto
      cases hat.symm.trans hat'
      rfl
    | missing dir name =>
      rw [hlead] at hto
      cases (kindAt_of_at? hat).symm.trans hto.2
    | refused cause =>
      rw [hlead] at hto
      exact hto.elim

theorem stat_any_iff (hsound : d.IsSound) (test : Entry → Bool) :
    (d.stat p).toOption.any test = true ↔
      ∃ place e, d.LeadsTo true p place ∧ d.top.at? place = some e ∧ test e = true := by
  have hstat : (d.stat p).toOption.any test = true ↔ ∃ e, d.stat p = .ok e ∧ test e = true := by
    cases d.stat p <;> simp [Except.toOption]
  simp only [hstat, stat_eq_ok_iff hsound]
  constructor
  · rintro ⟨e, ⟨place, hleads, hat⟩, htest⟩
    exact ⟨place, e, hleads, hat, htest⟩
  · rintro ⟨place, e, hleads, hat, htest⟩
    exact ⟨e, ⟨place, hleads, hat⟩, htest⟩

theorem isFile_iff (hsound : d.IsSound) :
    d.isFile p = true ↔ ∃ place, d.LeadsTo true p place ∧ d.kindAt place = some .file := by
  rw [isFile, stat_any_iff hsound]
  refine exists_congr fun place ↦ ?_
  constructor
  · rintro ⟨e, hleads, hat, htest⟩
    refine ⟨hleads, (kindAt_of_at? hat).trans ?_⟩
    cases e with
    | file => rfl
    | link | dir => cases htest
  · rintro ⟨hleads, hkind⟩
    obtain ⟨e, hat, he⟩ := Option.map_eq_some_iff.1 hkind
    refine ⟨e, hleads, hat, ?_⟩
    cases e with
    | file => rfl
    | link | dir => cases he

theorem isDir_iff (hsound : d.IsSound) :
    d.isDir p = true ↔ ∃ place, d.LeadsTo true p place ∧ d.IsDirAt place := by
  rw [isDir, stat_any_iff hsound]
  refine exists_congr fun place ↦ ?_
  constructor
  · rintro ⟨e, hleads, hat, htest⟩
    refine ⟨hleads, ?_⟩
    cases e with
    | dir r es => exact ⟨r, kindAt_of_at? hat⟩
    | file | link => cases htest
  · rintro ⟨hleads, r, hkind⟩
    obtain ⟨es, hat⟩ := kindAt_eq_dir_iff.1 hkind
    exact ⟨_, hleads, hat, rfl⟩

/-! ## Making directories and writing files -/

/-- Putting an entry without entries where there was nothing, or a file, changes nothing else. -/
theorem kindAt_put {c : Entry} (hdir : d.IsDirAt dir)
    (hfree : d.kindAt (dir ++ [name]) = none ∨ d.kindAt (dir ++ [name]) = some .file)
    (hc : c.entries = []) (place : List FileName) :
    (d.put dir name c).kindAt place =
      if place = dir ++ [name] then some c.kind else d.kindAt place := by
  obtain ⟨r, hr⟩ := hdir
  obtain ⟨es, hat⟩ := kindAt_eq_dir_iff.1 hr
  refine Entry.kindAt_put hat (fun old hold ↦ ?_) hc place
  rw [kindAt_concat, hat, Option.bind_some, hold] at hfree
  cases old with
  | file | link => rfl
  | dir r es => rcases hfree with h | h <;> cases h

/-- A directory is made where its path leads, if nothing is there. -/
theorem makeDir_eq_ok (hsound : d.IsSound) (h : d.makeDir p = .ok d') :
    ∃ place, d.LeadsTo false (trimSlashes p) place ∧ d.kindAt place = none ∧ d'.IsDirAt place ∧
      Grows (fun other k ↦ other = place ∧ k = .dir true) d d' := by
  unfold makeDir at h
  rcases lead_cases d false (trimSlashes p) with ⟨place, hto, hleads⟩ | ⟨cause, hrefused⟩
  · cases hlead : d.lead false (trimSlashes p) with
    | entry there e =>
      rw [hlead] at h
      cases h
    | missing dir name =>
      rw [hlead] at h hto
      cases h
      obtain ⟨rfl, hnone⟩ := hto
      have hdir := hleads.reaches.isDirAt_above hsound.start
      have hkind := kindAt_put (c := .emptyDir) hdir (.inl hnone) rfl
      refine ⟨_, hleads, hnone, ⟨true, by rw [hkind, if_pos rfl]; rfl⟩, ?_⟩
      exact .of_kindAt rfl hnone (by rintro target ⟨⟩) hkind
    | refused cause =>
      rw [hlead] at h
      cases h
  · rw [hrefused] at h
    cases h

/-- Steps that follow every link end at no link. -/
theorem Reaches.kindAt_ne_link (h : Reaches d true links here todo place)
    (hhere : d.IsDirAt here.reverse) (target : String) : d.kindAt place ≠ some (.link target) := by
  induction h with
  | here =>
    obtain ⟨r, hr⟩ := hhere
    rw [hr]
    rintro ⟨⟩
  | stay h ih => exact ih hhere
  | up h ih => exact ih hhere.tail
  | down hsize hdir h ih => exact ih (by rw [List.reverse_cons]; exact ⟨_, hdir⟩)
  | through hsize hlink hlast h ih => exact ih (hhere.start _)
  | stop hsize hstop =>
    intro hlink
    rw [hlink] at hstop
    cases hstop

/-- A file is written where its path leads, over nothing or over a file. -/
theorem writeFile_eq_ok {data : List UInt8} (hsound : d.IsSound)
    (h : d.writeFile p data = .ok d') :
    ∃ place, d.LeadsTo true p place ∧ d'.kindAt place = some .file ∧
      Grows (fun other k ↦ other = place ∧ k = .file) d d' := by
  unfold writeFile at h
  rcases lead_cases d true p with ⟨place, hto, hleads⟩ | ⟨cause, hrefused⟩
  · cases hlead : d.lead true p with
    | entry there e =>
      rw [hlead] at h hto
      obtain ⟨rfl, hat⟩ := hto
      cases e with
      | dir r es => cases h
      | link target =>
        exact absurd (kindAt_of_at? hat) (hleads.reaches.kindAt_ne_link hsound.start target)
      | file old =>
        have hfile : d.kindAt there = some .file := kindAt_of_at? hat
        rcases there.eq_nil_or_concat with rfl | ⟨dir, name, hthere⟩
        · cases h
        · obtain rfl : there = dir ++ [name] := by rw [hthere, List.concat_eq_append]
          simp only [List.getLast?_append, List.getLast?_singleton, List.dropLast_concat] at h
          cases h
          have hdir : d.IsDirAt dir := exists_dir_of_kindAt hfile
          have hkind := kindAt_put (c := .file data) hdir (.inr hfile) rfl
          refine ⟨_, hleads, by rw [hkind, if_pos rfl]; rfl, .of_forall_eq rfl fun place ↦ ?_⟩
          rw [hkind]
          split
          · next hplace =>
            rw [hplace, hfile]
            rfl
          · rfl
    | missing dir name =>
      rw [hlead] at h hto
      cases h
      obtain ⟨rfl, hnone⟩ := hto
      have hdir := hleads.reaches.isDirAt_above hsound.start
      have hkind := kindAt_put (c := .file data) hdir (.inl hnone) rfl
      exact ⟨_, hleads, by rw [hkind, if_pos rfl]; rfl,
        .of_kindAt rfl hnone (by rintro target ⟨⟩) hkind⟩
    | refused cause =>
      rw [hlead] at h
      cases h
  · rw [hrefused] at h
    cases h

/-- Making a directory and those above it adds empty directories only. -/
theorem makeDirs_grows {fuel : Nat} (hsound : d.IsSound) (h : d.makeDirs p fuel = .ok d') :
    Grows (fun _ k ↦ k = .dir true) d d' := by
  induction fuel generalizing d d' p with
  | zero => cases h
  | succ fuel ih =>
    have hone : ∀ {d d' : Disk} {p : String}, d.IsSound → d.makeDir p = .ok d' →
        Grows (fun _ k ↦ k = .dir true) d d' := by
      intro d d' p hsound h
      obtain ⟨place, -, -, -, hgrows⟩ := makeDir_eq_ok hsound h
      exact hgrows.mono fun _ _ hnew ↦ hnew.2
    rw [makeDirs] at h
    split at h
    · cases h
      exact .refl d
    · split at h
      · next hmake =>
        cases h
        exact hone hsound hmake
      · split at h
        · cases h
        · split at h
          · cases h
          · next d₁ habove =>
            have hgrows := ih hsound habove
            split at h
            · next hmake =>
              cases h
              exact hgrows.trans (hone (hsound.grows hgrows) hmake)
            · split at h
              · cases h
                exact hgrows
              · cases h
      · split at h
        · cases h
          exact .refl d
        · cases h

theorem makeDirAll_grows (hsound : d.IsSound) (h : d.makeDirAll p = .ok d') :
    Grows (fun _ k ↦ k = .dir true) d d' :=
  makeDirs_grows hsound h

end Disk

end GitGateway
