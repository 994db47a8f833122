import GitGateway.Path
import Mathlib.Data.List.Induction

/-!
# The algebra of lexical resolution

What resolving a path leaves is a **walk**: some steps up and then steps down along names, behind
the root if the path is absolute.  Three facts carry everything that is said about names and
confinement elsewhere:

* joining two paths puts their steps one after the other (`moves_join`);
* resolving a part of a path beforehand changes nothing (`resolve_append`);
* a walk after a walk first takes back names of the one before it (`resolve_walk_walk`), and above
  the root there is nothing to take back (`resolve_root_walk`).

A walk along proper names can be written down and read again (`moves_render_walk`).
-/

namespace GitGateway.Path

/-! ## Pieces and steps -/

/-- A name that can stand between slashes and means a step down. -/
def IsProper (name : String) : Prop :=
  name ≠ "" ∧ name ≠ "." ∧ name ≠ ".." ∧ '/' ∉ name.toList

instance (name : String) : Decidable (IsProper name) := by
  unfold IsProper
  infer_instance

/-- The components of a path apart from its start. -/
def moves (p : String) : List Component := (pieces p).filterMap component?

/-- The start of a path: the root, if the path is absolute. -/
def start (p : String) : List Component := if isAbsolute p then [.root] else []

theorem component?_of_isProper {name : String} (h : IsProper name) :
    component? name = some (.normal name) := by
  simp [component?, h.1, h.2.1, h.2.2.1]

theorem isAbsolute_of_isProper {name : String} (h : IsProper name) : isAbsolute name = false := by
  by_contra habs
  refine h.2.2.2 (List.mem_of_mem_head? ?_)
  simpa [isAbsolute] using habs

/-- A piece means a step up or a step down along itself, unless it means nothing. -/
theorem component?_eq_some {piece : String} {c : Component} (h : component? piece = some c) :
    c = .parent ∨ c = .normal piece ∧ piece ≠ "" ∧ piece ≠ "." ∧ piece ≠ ".." := by
  unfold component? at h
  split at h
  · cases h
  · split at h
    · exact .inl (Option.some.inj h).symm
    · simp_all

theorem notMem_of_mem_splitOn {c : Char} {part cs : List Char} (h : part ∈ cs.splitOn c) :
    c ∉ part := by
  induction cs generalizing part with
  | nil =>
    rw [List.splitOn_nil, List.mem_singleton] at h
    simp [h]
  | cons d cs ih =>
    rw [List.splitOn_cons_eq_if_modifyHead] at h
    split at h
    · rcases List.mem_cons.1 h with rfl | h
      · exact List.not_mem_nil
      · exact ih h
    · next hd =>
      cases hs : cs.splitOn c with
      | nil => exact absurd hs (List.splitOn_ne_nil c cs)
      | cons first rest =>
        rw [hs] at h ih
        rcases List.mem_cons.1 h with rfl | h
        · have hfirst := ih List.mem_cons_self
          simp only [List.mem_cons, not_or]
          exact ⟨fun hc ↦ hd (by rw [hc, beq_self_eq_true]), hfirst⟩
        · exact ih (List.mem_cons_of_mem _ h)

/-- A step of a path goes up or down along a proper name. -/
theorem eq_of_mem_moves {p : String} {c : Component} (h : c ∈ moves p) :
    c = .parent ∨ ∃ name, c = .normal name ∧ IsProper name := by
  obtain ⟨piece, hpiece, hc⟩ := List.mem_filterMap.1 h
  obtain ⟨cs, hcs, rfl⟩ := List.mem_map.1 hpiece
  rcases component?_eq_some hc with rfl | ⟨rfl, hne, hdot, hdots⟩
  · exact .inl rfl
  · refine .inr ⟨_, rfl, hne, hdot, hdots, ?_⟩
    rw [String.toList_ofList]
    exact notMem_of_mem_splitOn hcs

theorem pieces_append_slash (a b : String) : pieces (a ++ "/" ++ b) = pieces a ++ pieces b := by
  have hslash : "/".toList = ['/'] := rfl
  unfold pieces
  rw [String.toList_append, String.toList_append, hslash, List.append_assoc,
    List.singleton_append, List.splitOn_append_cons_self, List.map_append]

/-- An absolute path has an empty piece in front. -/
theorem pieces_of_isAbsolute {p : String} (h : isAbsolute p = true) :
    ∃ rest, pieces p = "" :: rest := by
  unfold isAbsolute at h
  cases hcs : p.toList with
  | nil => simp [hcs] at h
  | cons c cs =>
    obtain rfl : c = '/' := by simpa [hcs] using h
    refine ⟨(cs.splitOn '/').map String.ofList, ?_⟩
    rw [pieces, hcs, List.splitOn_cons_eq_if_modifyHead]
    rfl

@[simp] theorem moves_empty : moves "" = [] := by decide

theorem moves_append_slash (a b : String) : moves (a ++ "/" ++ b) = moves a ++ moves b := by
  rw [moves, pieces_append_slash, List.filterMap_append]
  rfl

theorem isAbsolute_append {a : String} (h : a ≠ "") (b : String) :
    isAbsolute (a ++ b) = isAbsolute a := by
  obtain ⟨c, cs, hcs⟩ := List.exists_cons_of_ne_nil fun hnil ↦ h (String.toList_eq_nil_iff.1 hnil)
  rw [isAbsolute, isAbsolute, String.toList_append, hcs]
  rfl

/-- The three ways to join a path: nothing is in front, a slash is there already, or it is put
there. -/
theorem join_cases (base : String) {rel : String} (h : isAbsolute rel = false) :
    (base = "" ∧ join base rel = rel) ∨
      (∃ front, base = front ++ "/" ∧ join base rel = front ++ "/" ++ rel) ∨
      base ≠ "" ∧ join base rel = base ++ "/" ++ rel := by
  unfold join
  rw [h, if_neg Bool.false_ne_true]
  split
  · next hlast =>
    rcases List.eq_nil_or_concat base.toList with hbase | ⟨init, c, hbase⟩
    · obtain rfl := String.toList_eq_nil_iff.1 hbase
      exact .inl ⟨rfl, String.empty_append⟩
    · obtain rfl : c = '/' := by simpa [hbase] using hlast
      have hsplit : base = String.ofList init ++ "/" := by
        rw [← String.toList_inj, hbase, String.toList_append, String.toList_ofList,
          List.concat_eq_append]
        rfl
      exact .inr (.inl ⟨String.ofList init, hsplit, by rw [← hsplit]⟩)
  · next hlast =>
    refine .inr (.inr ⟨?_, rfl⟩)
    rintro rfl
    exact hlast rfl

theorem exists_join_eq_append (base : String) {rel : String} (h : isAbsolute rel = false) :
    ∃ more, join base rel = base ++ more := by
  rcases join_cases base h with ⟨rfl, hjoin⟩ | ⟨front, rfl, hjoin⟩ | ⟨-, hjoin⟩
  · exact ⟨rel, by rw [hjoin, String.empty_append]⟩
  · exact ⟨rel, hjoin⟩
  · exact ⟨"/" ++ rel, by rw [hjoin, String.append_assoc]⟩

/-- Joining two paths puts their steps one after the other. -/
theorem moves_join {base rel : String} (h : isAbsolute rel = false) :
    moves (join base rel) = moves base ++ moves rel := by
  rcases join_cases base h with ⟨rfl, hjoin⟩ | ⟨front, rfl, hjoin⟩ | ⟨-, hjoin⟩
  · rw [hjoin, moves_empty, List.nil_append]
  · have hfront : moves (front ++ "/") = moves front := by
      have := moves_append_slash front ""
      rwa [String.append_empty, moves_empty, List.append_nil] at this
    rw [hjoin, hfront, moves_append_slash]
  · rw [hjoin, moves_append_slash]

/-- Joining a path to another changes nothing about where it starts. -/
theorem isAbsolute_join {base rel : String} (h : isAbsolute rel = false) :
    isAbsolute (join base rel) = isAbsolute base := by
  rcases join_cases base h with ⟨rfl, hjoin⟩ | ⟨front, rfl, hjoin⟩ | ⟨hne, hjoin⟩
  · rw [hjoin, h]
    rfl
  · rw [hjoin, isAbsolute_append (by simp)]
  · rw [hjoin, String.append_assoc, isAbsolute_append hne]

theorem start_join {base rel : String} (h : isAbsolute rel = false) :
    start (join base rel) = start base := by
  rw [start, isAbsolute_join h, start]

/-! ## Resolving -/

/-- Resolving a part of a path beforehand changes nothing, whatever it is resolved upon. -/
theorem foldl_resolveStep_resolve (cs done : List Component) :
    (resolve cs).foldl resolveStep done = cs.foldl resolveStep done := by
  induction cs using List.reverseRecOn with
  | nil => rfl
  | append_singleton cs c ih =>
    have hstep : resolve (cs ++ [c]) = (resolveStep (cs.foldl resolveStep []) c).reverse := by
      rw [resolve, List.foldl_append]
      rfl
    rw [hstep, List.foldl_append, ← ih, resolve]
    generalize cs.foldl resolveStep [] = top
    -- a step up is the only one that looks at what it is taken from
    cases c with
    | current => rfl
    | root => simp [resolveStep]
    | normal name => simp [resolveStep]
    | parent =>
      cases top with
      | nil => rfl
      | cons last above => cases last <;> simp [resolveStep, List.foldl_append]

theorem resolve_append (cs ds : List Component) :
    resolve (cs ++ ds) = resolve (resolve cs ++ resolve ds) := by
  simp only [resolve.eq_def (cs ++ ds), resolve.eq_def (resolve cs ++ resolve ds),
    List.foldl_append, foldl_resolveStep_resolve]

theorem resolve_resolve (cs : List Component) : resolve (resolve cs) = resolve cs := by
  rw [resolve, foldl_resolveStep_resolve, ← resolve]

theorem resolve_append_left (cs ds : List Component) :
    resolve (resolve cs ++ ds) = resolve (cs ++ ds) := by
  rw [resolve_append, resolve_resolve, ← resolve_append]

theorem resolve_append_right (cs ds : List Component) :
    resolve (cs ++ resolve ds) = resolve (cs ++ ds) := by
  rw [resolve_append, resolve_resolve, ← resolve_append]

/-- The components of a path are its steps behind its start, or behind a leading `.`. -/
theorem components_eq (p : String) :
    isAbsolute p = false ∧ components p = .current :: moves p ∨
      components p = start p ++ moves p := by
  unfold components
  split
  · next rest hp =>
    refine .inl ⟨?_, by rw [moves, hp]; rfl⟩
    by_contra habs
    obtain ⟨_, hrest⟩ := pieces_of_isAbsolute (Bool.not_eq_false _ ▸ habs)
    rw [hp] at hrest
    exact absurd (List.cons.inj hrest).1 (by decide)
  · exact .inr rfl

theorem components_of_isAbsolute {p : String} (h : isAbsolute p = true) :
    components p = .root :: moves p := by
  rcases components_eq p with ⟨hrel, -⟩ | hp
  · cases h.symm.trans hrel
  · rw [hp, start, h]
    rfl

/-- A path resolves as its start and its steps do: a leading `.` makes no difference. -/
theorem normalize_eq (p : String) : normalize p = resolve (start p ++ moves p) := by
  rcases components_eq p with ⟨hrel, hp⟩ | hp
  · rw [normalize, hp, start, hrel]
    rfl
  · rw [normalize, hp]

theorem resolve_normalize (p : String) : resolve (normalize p) = normalize p := by
  rw [normalize_eq, resolve_resolve]

/-- The resolved components of a path that was joined to another. -/
theorem normalize_join {base rel : String} (h : isAbsolute rel = false) :
    normalize (join base rel) = resolve (normalize base ++ normalize rel) := by
  have hrel : normalize rel = resolve (moves rel) := by
    rw [normalize_eq, start, h]
    rfl
  rw [normalize_eq, start_join h, moves_join h, ← List.append_assoc, resolve_append,
    ← normalize_eq, hrel]

theorem normalize_join_of_isAbsolute {base rel : String} (h : isAbsolute rel = true) :
    normalize (join base rel) = normalize rel := by
  rw [join, h, if_pos rfl]

/-! ## Walks -/

/-- Some steps up, then steps down along names. -/
def walk (up : Nat) (down : List String) : List Component :=
  List.replicate up .parent ++ down.map .normal

@[simp] theorem walk_zero (down : List String) : walk 0 down = down.map .normal := rfl

theorem foldl_names (names : List String) (done : List Component) :
    (names.map Component.normal).foldl resolveStep done =
      (names.map Component.normal).reverse ++ done := by
  induction names generalizing done with
  | nil => rfl
  | cons name names ih => simp [resolveStep, ih]

/-- Names stay behind whatever they are resolved upon. -/
theorem resolve_append_names (cs : List Component) (names : List String) :
    resolve (cs ++ names.map .normal) = resolve cs ++ names.map .normal := by
  simp only [resolve, List.foldl_append, foldl_names, List.reverse_append, List.reverse_reverse]

/-- Steps up take back names; those that are left over go on above. -/
theorem foldl_parents_names (k : Nat) (names : List String) (done : List Component) :
    (List.replicate k Component.parent).foldl resolveStep (names.map .normal ++ done) =
      (names.drop k).map .normal ++
        (List.replicate (k - names.length) Component.parent).foldl resolveStep done := by
  induction k generalizing names with
  | zero => simp
  | succ k ih =>
    cases names with
    | nil => simp
    | cons name names =>
      rw [List.replicate_succ, List.foldl_cons, List.length_cons, Nat.add_sub_add_right]
      exact ih names

theorem foldl_parents_root (k : Nat) :
    (List.replicate k Component.parent).foldl resolveStep [.root] = [.root] := by
  induction k with
  | zero => rfl
  | succ k ih => exact ih

theorem foldl_parents_parents (k up : Nat) :
    (List.replicate k Component.parent).foldl resolveStep (List.replicate up .parent) =
      List.replicate (up + k) .parent := by
  induction k generalizing up with
  | zero => rfl
  | succ k ih =>
    have hstep : resolveStep (List.replicate up .parent) .parent =
        List.replicate (up + 1) .parent := by
      cases up <;> rfl
    rw [List.replicate_succ, List.foldl_cons, hstep, ih, Nat.add_right_comm, Nat.add_assoc]

/-- A walk after a walk takes back names of the first one. -/
theorem resolve_walk_walk (up k : Nat) (names down : List String) :
    resolve (walk up names ++ walk k down) =
      walk (up + (k - names.length)) (names.take (names.length - k) ++ down) := by
  have hup := foldl_parents_parents up 0
  have htop := foldl_parents_names k names.reverse (List.replicate up .parent)
  rw [List.replicate_zero, Nat.zero_add] at hup
  rw [List.map_reverse, List.length_reverse, foldl_parents_parents, List.drop_reverse] at htop
  simp only [resolve, walk, List.foldl_append, foldl_names, hup, htop]
  simp

/-- Above the root there is nothing to take back. -/
theorem resolve_root_walk (k : Nat) (names down : List String) :
    resolve (.root :: (names.map .normal ++ walk k down)) =
      .root :: (names.take (names.length - k) ++ down).map .normal := by
  have htop := foldl_parents_names k names.reverse [.root]
  rw [List.map_reverse, foldl_parents_root, List.drop_reverse] at htop
  have hroot : resolveStep [] .root = [.root] := rfl
  simp only [resolve, walk, List.foldl_cons, List.foldl_append, foldl_names, hroot, htop]
  simp

theorem resolve_walk (up : Nat) (down : List String) : resolve (walk up down) = walk up down := by
  simpa [walk] using resolve_walk_walk up 0 down []

/-- Steps that start nowhere in particular resolve to a walk along some of their names. -/
theorem exists_walk {cs : List Component} (h : ∀ c ∈ cs, c = .parent ∨
    ∃ name, c = .normal name ∧ IsProper name) :
    ∃ up down, resolve cs = walk up down ∧ ∀ name ∈ down, IsProper name := by
  induction cs using List.reverseRecOn with
  | nil => exact ⟨0, [], rfl, by simp⟩
  | append_singleton cs c ih =>
    obtain ⟨up, names, hcs, hnames⟩ := ih fun d hd ↦ h d (List.mem_append_left _ hd)
    obtain ⟨k, down, hc, hdown⟩ : ∃ k down, resolve [c] = walk k down ∧
        ∀ name ∈ down, IsProper name := by
      rcases h c (by simp) with rfl | ⟨name, rfl, hname⟩
      · exact ⟨1, [], rfl, by simp⟩
      · exact ⟨0, [name], rfl, by simpa using hname⟩
    refine ⟨up + (k - names.length), names.take (names.length - k) ++ down, ?_, fun n hn ↦ ?_⟩
    · rw [resolve_append, hcs, hc, resolve_walk_walk]
    · rcases List.mem_append.1 hn with hn | hn
      · exact hnames n (List.mem_of_mem_take hn)
      · exact hdown n hn

theorem exists_walk_moves (p : String) :
    ∃ up down, resolve (moves p) = walk up down ∧ ∀ name ∈ down, IsProper name :=
  exists_walk fun _ hc ↦ eq_of_mem_moves hc

/-- A path that is not absolute resolves to a walk. -/
theorem normalize_of_not_isAbsolute {p : String} (h : isAbsolute p = false) :
    ∃ up down, normalize p = walk up down ∧ ∀ name ∈ down, IsProper name := by
  rw [normalize_eq, start, h]
  exact exists_walk_moves p

/-- An absolute path resolves to steps down from the root. -/
theorem normalize_of_isAbsolute {p : String} (h : isAbsolute p = true) :
    ∃ names : List String, normalize p = .root :: names.map .normal ∧
      ∀ name ∈ names, IsProper name := by
  obtain ⟨up, names, hwalk, hnames⟩ := exists_walk_moves p
  refine ⟨names, ?_, hnames⟩
  have hroot := resolve_root_walk up [] names
  rw [normalize_eq, start, h, if_pos rfl, resolve_append, hwalk]
  simpa [resolve, resolveStep] using hroot

theorem normal_injective : Function.Injective Component.normal := fun _ _ h ↦ by
  cases h
  rfl

/-- A walk that another one goes on from climbs as far, unless it only climbs. -/
theorem walk_isPrefix {i j : Nat} {names down : List String}
    (h : walk i names <+: walk j down) :
    i ≤ j ∧ (names ≠ [] → i = j) ∧ (i = j → names <+: down) := by
  induction i generalizing j with
  | zero =>
    refine ⟨Nat.zero_le j, fun hne ↦ ?_, ?_⟩
    · obtain ⟨name, rest, rfl⟩ := List.exists_cons_of_ne_nil hne
      cases j with
      | zero => rfl
      | succ j => exact absurd (List.cons_prefix_cons.1 h).1 (by simp)
    · rintro rfl
      exact (List.prefix_map_iff_of_injective normal_injective).1 h
  | succ i ih =>
    cases j with
    | zero =>
      cases down with
      | nil => exact absurd (List.prefix_nil.1 h) (by simp [walk, List.replicate_succ])
      | cons name down => exact absurd (List.cons_prefix_cons.1 h).1 (by simp)
    | succ j =>
      obtain ⟨hle, heq, hnames⟩ := ih (List.cons_prefix_cons.1 h).2
      refine ⟨Nat.succ_le_succ hle, fun hne ↦ congrArg _ (heq hne), fun hij ↦ hnames ?_⟩
      exact Nat.succ.inj hij

/-! ## Writing a walk down -/

theorem pieces_intercalate {texts : List String} (h : ∀ t ∈ texts, '/' ∉ t.toList)
    (hne : texts ≠ []) : pieces (String.intercalate "/" texts) = texts := by
  have hslash : "/".toList = ['/'] := rfl
  have hparts : ∀ part ∈ texts.map String.toList, '/' ∉ part := by
    intro part hpart
    obtain ⟨t, ht, rfl⟩ := List.mem_map.1 hpart
    exact h t ht
  rw [pieces, String.toList_intercalate, hslash, List.splitOn_intercalate '/' hparts (by simpa),
    List.map_map]
  simp [Function.comp_def]

/-- A piece that stands behind a slash is the same as one that stands alone. -/
theorem moves_slash_append (p : String) : moves ("/" ++ p) = moves p := by
  have := moves_append_slash "" p
  rwa [String.empty_append, moves_empty, List.nil_append] at this

theorem filterMap_component? {names : List String} (h : ∀ name ∈ names, IsProper name) :
    names.filterMap component? = names.map .normal := by
  induction names with
  | nil => rfl
  | cons name names ih =>
    rw [List.filterMap_cons_some (component?_of_isProper (h name List.mem_cons_self)),
      ih fun n hn ↦ h n (List.mem_cons_of_mem _ hn), List.map_cons]

theorem filterMap_text_walk {up : Nat} {down : List String} (h : ∀ name ∈ down, IsProper name) :
    ((walk up down).map Component.text).filterMap component? = walk up down := by
  have hparent : component? (Component.text .parent) = some .parent := by decide
  have htext : Component.text ∘ Component.normal = id := rfl
  rw [walk, List.map_append, List.filterMap_append, List.map_replicate, List.map_map, htext,
    List.map_id, List.filterMap_replicate_of_some hparent, filterMap_component? h]

theorem text_walk_ne_empty {up : Nat} {down : List String} (h : ∀ name ∈ down, IsProper name) :
    "" ∉ (walk up down).map Component.text := by
  intro hmem
  obtain ⟨c, hc, htext⟩ := List.mem_map.1 hmem
  rcases List.mem_append.1 hc with hc | hc
  · rw [List.eq_of_mem_replicate hc] at htext
    exact absurd htext (by decide)
  · obtain ⟨name, hname, rfl⟩ := List.mem_map.1 hc
    exact (h name hname).1 htext

theorem slash_notMem_text_walk {up : Nat} {down : List String}
    (h : ∀ name ∈ down, IsProper name) :
    ∀ t ∈ (walk up down).map Component.text, '/' ∉ t.toList := by
  intro t ht
  obtain ⟨c, hc, rfl⟩ := List.mem_map.1 ht
  rcases List.mem_append.1 hc with hc | hc
  · rw [List.eq_of_mem_replicate hc]
    decide
  · obtain ⟨name, hname, rfl⟩ := List.mem_map.1 hc
    exact (h name hname).2.2.2

/-- The text of a walk. -/
theorem render_walk (up : Nat) (down : List String) :
    render (walk up down) = String.intercalate "/" ((walk up down).map Component.text) := by
  cases up with
  | zero => cases down <;> rfl
  | succ up => rfl

/-- Reading what a walk is written as gives the walk back. -/
theorem moves_render_walk {up : Nat} {down : List String} (h : ∀ name ∈ down, IsProper name) :
    moves (render (walk up down)) = walk up down := by
  rw [render_walk, moves]
  by_cases hne : (walk up down).map Component.text = []
  · have hwalk : walk up down = [] := List.map_eq_nil_iff.1 hne
    rw [hne, hwalk]
    decide
  · rw [pieces_intercalate (slash_notMem_text_walk h) hne, filterMap_text_walk h]

theorem isAbsolute_render_walk {up : Nat} {down : List String}
    (h : ∀ name ∈ down, IsProper name) : isAbsolute (render (walk up down)) = false := by
  by_cases hne : (walk up down).map Component.text = []
  · rw [render_walk, hne]
    decide
  · have hpieces := pieces_intercalate (slash_notMem_text_walk h) hne
    rw [← render_walk] at hpieces
    -- an absolute path begins with an empty piece, and no component is written so
    by_contra habs
    obtain ⟨rest, hrest⟩ := pieces_of_isAbsolute (Bool.not_eq_false _ ▸ habs)
    have hmem : "" ∈ (walk up down).map Component.text := by
      rw [← hpieces, hrest]
      exact List.mem_cons_self
    exact text_walk_ne_empty h hmem

theorem normalize_render_walk {up : Nat} {down : List String} (h : ∀ name ∈ down, IsProper name) :
    normalize (render (walk up down)) = walk up down := by
  rw [normalize_eq, start, isAbsolute_render_walk h, moves_render_walk h]
  exact resolve_walk up down

/-- The text of steps down from the root. -/
theorem render_root (names : List String) :
    render (.root :: names.map .normal) = "/" ++ render (walk 0 names) := by
  rw [render_walk]
  rfl

theorem isAbsolute_render_root (names : List String) :
    isAbsolute (render (.root :: names.map .normal)) = true := by
  rw [render_root, isAbsolute, String.toList_append]
  rfl

theorem normalize_render_root {names : List String} (h : ∀ name ∈ names, IsProper name) :
    normalize (render (.root :: names.map .normal)) = .root :: names.map .normal := by
  rw [normalize_eq, start, isAbsolute_render_root, render_root, moves_slash_append,
    moves_render_walk h]
  simpa using resolve_root_walk 0 [] names

end GitGateway.Path
