import GitGateway.Files.Disk
import GitGateway.Proofs.Path

/-!
# What lies behind a path

A path that goes on to a name leads through a directory: whatever links it passes, the steps before
the last one must have led to a directory, or the system would have refused the last one
(`follow_concat_down`).  So where no directory is, no file is seen below it
(`isDir_of_isFile_join`).
-/

namespace GitGateway.Disk

open GitGateway.Path

variable {d : Disk} {links : Nat} {here place : List FileName} {name : FileName}
variable {todo rest : List Step} {e : Entry}

/-! ## Steps -/

theorem follow_nil (last : Bool) (links : Nat) : d.follow last links here [] =
    match d.top.at? here.reverse with
    | some e => .entry here.reverse e
    | none => .refused .notFound := by
  cases links <;> rfl

theorem follow_stay (last : Bool) (links : Nat) :
    d.follow last links here (.stay :: rest) = d.follow last links here rest := by
  cases links <;> rfl

theorem follow_up (last : Bool) (links : Nat) :
    d.follow last links here (.up :: rest) = d.follow last links here.tail rest := by
  cases links <;> rfl

theorem follow_down (last : Bool) (links : Nat) : d.follow last links here (.down name :: rest) =
    if maxName < name.size then .refused .nameTooLong
    else
      match (d.top.at? here.reverse).bind fun e ↦ e.child? name with
      | none => if rest.isEmpty then .missing here.reverse name else .refused .notFound
      | some (.dir _ _) => d.follow last links (name :: here) rest
      | some (.file data) =>
        if rest.isEmpty then .entry (name :: here).reverse (.file data) else .refused .notDirectory
      | some (.link target) =>
        if rest.isEmpty && !last then .entry (name :: here).reverse (.link target)
        else
          match links with
          | 0 => .refused .tooManyLinks
          | n + 1 => d.follow last n (if isAbsolute target then [] else here)
              (steps target ++ rest) := by
  cases links <;> rfl

/-- Only a directory has children. -/
theorem exists_of_child? {c : Entry} (h : e.child? name = some c) :
    ∃ readable es, e = .dir readable es := by
  cases e with
  | dir readable es => exact ⟨readable, es, rfl⟩
  | file data => cases h
  | link target => cases h

/-- A step down that leads on, or to a directory, goes on below the name or where a link under it
leads. -/
theorem follow_down_cases (h : d.follow true links here (.down name :: rest) = .entry place e)
    (hrest : rest = [] → ∃ readable es, e = .dir readable es) :
    (∀ rest', d.follow true links here (.down name :: rest') =
      d.follow true links (name :: here) rest') ∨
    ∃ target n, links = n + 1 ∧ ∀ rest', d.follow true links here (.down name :: rest') =
      d.follow true n (if isAbsolute target then [] else here) (steps target ++ rest') := by
  rw [follow_down] at h
  split at h
  · cases h
  · next hsize =>
    split at h
    · split at h <;> cases h
    · next hchild =>
      refine .inl fun rest' ↦ ?_
      rw [follow_down, if_neg hsize, hchild]
    · split at h
      · next hnil =>
        obtain ⟨readable, es, rfl⟩ := hrest (List.isEmpty_iff.1 hnil)
        cases h
      · cases h
    · next target hchild =>
      rw [if_neg (by simp)] at h
      cases links with
      | zero => cases h
      | succ n =>
        refine .inr ⟨target, n, rfl, fun rest' ↦ ?_⟩
        rw [follow_down, if_neg hsize, hchild]
        simp

/-- Induction along the steps that are followed.  A link uses up one that may be followed and puts
its own steps in front, and every other step is taken off the list. -/
@[elab_as_elim]
theorem steps_induction {motive : Nat → List FileName → List Step → Prop}
    (nil : ∀ links here, motive links here [])
    (stay : ∀ links here todo, motive links here todo → motive links here (.stay :: todo))
    (up : ∀ links here todo, motive links here.tail todo → motive links here (.up :: todo))
    (down : ∀ links here name todo, motive links (name :: here) todo →
      (∀ n target, links = n + 1 →
        motive n (if isAbsolute target then [] else here) (steps target ++ todo)) →
      motive links here (.down name :: todo))
    (links : Nat) (here : List FileName) (todo : List Step) : motive links here todo := by
  induction links using Nat.strongRecOn generalizing here todo with
  | _ links ih =>
    induction todo generalizing here with
    | nil => exact nil links here
    | cons step todo ihtodo =>
      cases step with
      | stay => exact stay links here todo (ihtodo here)
      | up => exact up links here todo (ihtodo here.tail)
      | down name =>
        refine down links here name todo (ihtodo (name :: here)) fun n target hlinks ↦ ?_
        exact ih n (by omega) _ _

/-- Behind steps that lead to a directory, more steps are followed from there, although fewer links
may be left to follow. -/
theorem follow_append {readable : Bool} {es : List (FileName × Entry)}
    (h : d.follow true links here todo = .entry place (.dir readable es)) :
    ∃ n, ∀ rest, d.follow true links here (todo ++ rest) = d.follow true n place.reverse rest := by
  induction links, here, todo using steps_induction with
  | nil links here =>
    rw [follow_nil] at h
    split at h
    · cases h
      exact ⟨links, fun rest ↦ by rw [List.reverse_reverse, List.nil_append]⟩
    · cases h
  | stay links here todo ih =>
    rw [follow_stay] at h
    obtain ⟨n, hn⟩ := ih h
    exact ⟨n, fun rest ↦ by rw [List.cons_append, follow_stay, hn]⟩
  | up links here todo ih =>
    rw [follow_up] at h
    obtain ⟨n, hn⟩ := ih h
    exact ⟨n, fun rest ↦ by rw [List.cons_append, follow_up, hn]⟩
  | down links here name todo ih ihlink =>
    rcases follow_down_cases h (fun _ ↦ ⟨readable, es, rfl⟩) with hbelow | ⟨target, m, hm, hlink⟩
    · rw [hbelow] at h
      obtain ⟨n, hn⟩ := ih h
      exact ⟨n, fun rest ↦ by rw [List.cons_append, hbelow, hn]⟩
    · rw [hlink] at h
      obtain ⟨n, hn⟩ := ihlink m target hm h
      exact ⟨n, fun rest ↦ by rw [List.cons_append, hlink, ← List.append_assoc, hn]⟩

/-- Staying where steps have led changes nothing. -/
theorem follow_concat_stay {readable : Bool} {es : List (FileName × Entry)}
    (h : d.follow true links here todo = .entry place (.dir readable es)) :
    d.follow true links here (todo ++ [.stay]) = .entry place (.dir readable es) := by
  obtain ⟨n, hn⟩ := follow_append h
  have hhere := hn []
  rw [List.append_nil, h] at hhere
  rw [hn, follow_stay, hhere]

/-- A last step down that leads to something is taken from a directory. -/
theorem follow_nil_of_down (h : d.follow true links here [.down name] = .entry place e) :
    ∃ place' readable es, d.follow true links here [] = .entry place' (.dir readable es) := by
  rw [follow_down] at h
  split at h
  · cases h
  · cases hplace : d.top.at? here.reverse with
    | none =>
      rw [hplace] at h
      cases h
    | some above =>
      cases hchild : above.child? name with
      | none =>
        rw [hplace, Option.bind_some, hchild] at h
        cases h
      | some c =>
        obtain ⟨readable, es, rfl⟩ := exists_of_child? hchild
        exact ⟨here.reverse, readable, es, by rw [follow_nil, hplace]⟩

/-- Steps that lead to something by a last step down lead to a directory without it. -/
theorem follow_concat_down
    (h : d.follow true links here (todo ++ [.down name]) = .entry place e) :
    ∃ place' readable es, d.follow true links here todo = .entry place' (.dir readable es) := by
  induction links, here, todo using steps_induction with
  | nil links here => exact follow_nil_of_down h
  | stay links here todo ih =>
    rw [List.cons_append, follow_stay] at h
    rw [follow_stay]
    exact ih h
  | up links here todo ih =>
    rw [List.cons_append, follow_up] at h
    rw [follow_up]
    exact ih h
  | down links here next todo ih ihlink =>
    rcases follow_down_cases h (by simp) with hbelow | ⟨target, n, hn, hlink⟩
    · rw [List.cons_append, hbelow] at h
      rw [hbelow]
      exact ih h
    · rw [List.cons_append, hlink, ← List.append_assoc] at h
      rw [hlink]
      exact ihlink n target hn h

/-! ## Paths -/

theorem steps_eq (p : String) : steps p =
    (if (pieces p).head? = some "" then (pieces p).tail else pieces p).map stepOf := by
  unfold steps
  split
  · next rest h =>
    rw [h]
    rfl
  · next hne =>
    rw [if_neg fun hhead ↦ ?_]
    obtain ⟨rest, hrest⟩ := List.head?_eq_some_iff.1 hhead
    exact hne rest hrest

theorem steps_append_slash (a b : String) :
    steps (a ++ "/" ++ b) = steps a ++ (pieces b).map stepOf := by
  have hne : pieces a ≠ [] := by simp [pieces, List.splitOn_ne_nil]
  obtain ⟨first, rest, hfirst⟩ := List.exists_cons_of_ne_nil hne
  rw [steps_eq, steps_eq, pieces_append_slash, hfirst, List.cons_append, List.head?_cons,
    List.head?_cons, List.tail_cons, List.tail_cons]
  split
  · exact List.map_append
  · rw [← List.cons_append, List.map_append]

theorem map_stepOf_of_isProper {name : String} (h : IsProper name) :
    (pieces name).map stepOf = [.down (.text name)] := by
  have hpieces : pieces (String.intercalate "/" [name]) = [name] :=
    pieces_intercalate (by simpa using h.2.2.2) (by simp)
  rw [String.intercalate_singleton] at hpieces
  simp [hpieces, stepOf, h.1, h.2.1, h.2.2.1]

/-- What a path's own text must be for the system to follow it. -/
theorem lead_eq_entry_iff {p : String} : d.lead true p = .entry place e ↔
    '\x00' ∉ p.toList ∧ p ≠ "" ∧ p.utf8ByteSize < maxPath ∧
      d.follow true maxLinks (if isAbsolute p then [] else d.here) (steps p) = .entry place e := by
  unfold lead
  split
  · next h => simp_all
  · next h =>
    split
    · next hp => simp_all
    · next hp =>
      split
      · next hsize => simp [Nat.not_lt.2 hsize]
      · next hsize => simp_all

/-- A path that goes on to a name leads to something only through a directory. -/
theorem lead_of_join {p name : String} (hp : p ≠ "") (hname : IsProper name)
    (h : d.lead true (join p name) = .entry place e) :
    ∃ place' readable es, d.lead true p = .entry place' (.dir readable es) := by
  have hrel : isAbsolute name = false := isAbsolute_of_isProper hname
  obtain ⟨hnul, -, hsize, hfollow⟩ := lead_eq_entry_iff.1 h
  rw [isAbsolute_join hrel] at hfollow
  have hdir : ∃ place' readable es, d.follow true maxLinks (if isAbsolute p then [] else d.here)
      (steps p) = .entry place' (.dir readable es) := by
    rcases join_cases p hrel with ⟨rfl, -⟩ | ⟨front, rfl, hjoin⟩ | ⟨-, hjoin⟩
    · exact absurd rfl hp
    · rw [hjoin, steps_append_slash, map_stepOf_of_isProper hname] at hfollow
      obtain ⟨place', readable, es, hfront⟩ := follow_concat_down hfollow
      refine ⟨place', readable, es, ?_⟩
      have hsteps : steps (front ++ "/") = steps front ++ [.stay] := by
        have := steps_append_slash front ""
        rwa [String.append_empty] at this
      rw [hsteps]
      exact follow_concat_stay hfront
    · rw [hjoin, steps_append_slash, map_stepOf_of_isProper hname] at hfollow
      exact follow_concat_down hfollow
  obtain ⟨place', readable, es, hdir⟩ := hdir
  obtain ⟨more, hmore⟩ := exists_join_eq_append p hrel
  rw [hmore] at hnul hsize
  refine ⟨place', readable, es, lead_eq_entry_iff.2 ⟨fun hmem ↦ hnul ?_, hp, ?_, hdir⟩⟩
  · rw [String.toList_append]
    exact List.mem_append_left _ hmem
  · rw [String.utf8ByteSize_append] at hsize
    omega

theorem isDir_of_isFile_join {p name : String} (hp : p ≠ "") (hname : IsProper name)
    (h : d.isFile (join p name) = true) : d.isDir p = true := by
  unfold isFile stat at h
  cases hlead : d.lead true (join p name) with
  | entry place e =>
    obtain ⟨place', readable, es, hdir⟩ := lead_of_join hp hname hlead
    rw [isDir, stat, hdir]
    rfl
  | missing dir next =>
    rw [hlead] at h
    cases h
  | refused cause =>
    rw [hlead] at h
    cases h

/-! ## What lies at a place -/

theorem at?_append (e : Entry) (front rest : List FileName) :
    e.at? (front ++ rest) = (e.at? front).bind fun c ↦ c.at? rest := by
  induction front generalizing e with
  | nil => rfl
  | cons name front ih =>
    rw [List.cons_append, Entry.at?, Entry.at?]
    cases e.child? name with
    | none => rfl
    | some c => exact ih c

/-- Steps down along the names of a place lead to what lies there, unless that is a link. -/
theorem follow_downs {names : List FileName} (hat : d.top.at? (here.reverse ++ names) = some e)
    (hlink : ∀ target, e ≠ .link target) (hsize : ∀ n ∈ names, n.size ≤ maxName) :
    d.follow true links here (names.map .down) = .entry (here.reverse ++ names) e := by
  induction names generalizing here with
  | nil =>
    rw [List.append_nil] at hat ⊢
    rw [List.map_nil, follow_nil, hat]
  | cons name names ih =>
    have hshort : ¬ maxName < name.size := Nat.not_lt.2 (hsize name List.mem_cons_self)
    have hreverse : (name :: here).reverse ++ names = here.reverse ++ name :: names := by simp
    have hbelow := ih (hreverse ▸ hat) fun n hn ↦ hsize n (List.mem_cons_of_mem _ hn)
    rw [at?_append] at hat
    obtain ⟨above, habove, hat⟩ := Option.bind_eq_some_iff.1 hat
    rw [Entry.at?] at hat
    obtain ⟨c, hc, hat⟩ := Option.bind_eq_some_iff.1 hat
    rw [List.map_cons, follow_down, if_neg hshort, habove, Option.bind_some, hc]
    cases c with
    | dir readable es => rw [hbelow, hreverse]
    | file data =>
      cases names with
      | nil =>
        cases hat
        simp
      | cons next rest => cases hat
    | link target =>
      cases names with
      | nil =>
        cases hat
        exact absurd rfl (hlink target)
      | cons next rest => cases hat

/-- A last step down to a name that its directory does not have ends there. -/
theorem follow_downs_missing {names : List FileName} {readable : Bool}
    {es : List (FileName × Entry)}
    (hat : d.top.at? (here.reverse ++ names) = some (.dir readable es))
    (hnone : es.lookup name = none) (hsize : ∀ n ∈ name :: names, n.size ≤ maxName) :
    d.follow true links here (names.map .down ++ [.down name]) =
      .missing (here.reverse ++ names) name := by
  obtain ⟨n, hn⟩ := follow_append (follow_downs hat (by simp) fun m hm ↦
    hsize m (List.mem_cons_of_mem _ hm))
  have hshort : ¬ maxName < name.size := Nat.not_lt.2 (hsize name List.mem_cons_self)
  have hchild : (Entry.dir readable es).child? name = none := hnone
  rw [hn, follow_down, if_neg hshort, List.reverse_reverse, hat, Option.bind_some, hchild]
  rfl

/-- A path that is written down along the names of a place leads to what lies there. -/
theorem lead_of_at? {p : String} {names : List FileName} (hat : d.top.at? names = some e)
    (hlink : ∀ target, e ≠ .link target) (hsize : ∀ n ∈ names, n.size ≤ maxName)
    (hsteps : steps p = names.map .down) (habs : isAbsolute p = true)
    (hnul : '\x00' ∉ p.toList) (hpath : p.utf8ByteSize < maxPath) :
    d.lead true p = .entry names e := by
  refine lead_eq_entry_iff.2 ⟨hnul, ?_, hpath, ?_⟩
  · rintro rfl
    cases habs
  · rw [habs, if_pos rfl, hsteps]
    exact follow_downs hat hlink hsize

theorem isDir_eq_false {p : String} {dir : List FileName}
    (h : d.follow true maxLinks (if isAbsolute p then [] else d.here) (steps p) =
      .missing dir name) : d.isDir p = false := by
  unfold isDir stat
  cases hlead : d.lead true p with
  | entry place e =>
    have hentry := (lead_eq_entry_iff.1 hlead).2.2.2
    cases h.symm.trans hentry
  | missing dir name => rfl
  | refused cause => rfl

end GitGateway.Disk
