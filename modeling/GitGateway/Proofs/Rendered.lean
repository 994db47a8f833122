import GitGateway.Proofs.Disks
import GitGateway.Proofs.Path

/-!
# Resolved paths as text

A **resolved** path goes down along proper names, from the top if it is absolute and otherwise from
as many steps up as it begins with.  Written down it is the text of the path above it with its last
name behind (`IsResolved.render_concat`, `IsResolved.parent?_concat`), and the system reads it step
by step as it was meant (`steps_render`).
-/

namespace GitGateway

namespace Path

/-! ## Resolved paths as text -/

/-- The components of a path in which nothing is left to resolve. -/
inductive IsResolved : List Component → Prop where
  | absolute {names : List String} (h : ∀ name ∈ names, IsProper name) :
      IsResolved (.root :: names.map .normal)
  | relative {up : Nat} {names : List String} (h : ∀ name ∈ names, IsProper name) :
      IsResolved (walk up names)

theorem isResolved_normalize (p : String) : IsResolved (normalize p) := by
  cases hp : isAbsolute p with
  | true =>
    obtain ⟨names, hnames, hproper⟩ := normalize_of_isAbsolute hp
    rw [hnames]
    exact .absolute hproper
  | false =>
    obtain ⟨up, names, hnames, hproper⟩ := normalize_of_not_isAbsolute hp
    rw [hnames]
    exact .relative hproper

variable {cs : List Component} {name : String} {names : List String}

theorem IsResolved.append (h : IsResolved cs) (hnames : ∀ name ∈ names, IsProper name) :
    IsResolved (cs ++ names.map .normal) := by
  cases h with
  | absolute hfront =>
    rw [List.cons_append, ← List.map_append]
    exact .absolute fun name hname ↦ (List.mem_append.1 hname).elim (hfront name) (hnames name)
  | relative hfront =>
    rw [walk, List.append_assoc, ← List.map_append]
    exact .relative fun name hname ↦ (List.mem_append.1 hname).elim (hfront name) (hnames name)

theorem IsResolved.concat (h : IsResolved cs) (hname : IsProper name) :
    IsResolved (cs ++ [.normal name]) := by
  have hnames : ∀ n ∈ [name], IsProper n := by simpa using hname
  exact h.append hnames

theorem intercalate_concat {ts : List String} (hne : ts ≠ []) (t : String) :
    String.intercalate "/" (ts ++ [t]) = String.intercalate "/" ts ++ "/" ++ t := by
  rw [String.intercalate_append_of_ne_nil hne (by simp), String.intercalate_singleton]

theorem exists_concat_of_notMem (hne : name ≠ "") (hslash : '/' ∉ name.toList) :
    ∃ front c, name.toList = front ++ [c] ∧ c ≠ '/' := by
  rcases name.toList.eq_nil_or_concat with hnil | ⟨front, c, hcs⟩
  · exact absurd (String.toList_eq_nil_iff.1 hnil) hne
  · rw [List.concat_eq_append] at hcs
    exact ⟨front, c, hcs, fun hc ↦ hslash (by rw [hcs, hc]; simp)⟩

/-- Texts with slashes between them end as the last of them does. -/
theorem exists_concat_intercalate {ts : List String} (hne : ts ≠ [])
    (hslash : ∀ t ∈ ts, '/' ∉ t.toList ∧ t ≠ "") (start : String) :
    ∃ front c, (start ++ String.intercalate "/" ts).toList = front ++ [c] ∧ c ≠ '/' := by
  obtain ⟨init, last, rfl⟩ : ∃ init last, ts = init ++ [last] := by
    rcases ts.eq_nil_or_concat with rfl | ⟨init, last, rfl⟩
    · exact absurd rfl hne
    · exact ⟨init, last, List.concat_eq_append⟩
  obtain ⟨hlast, hempty⟩ := hslash last (by simp)
  obtain ⟨front, c, hcs, hc⟩ := exists_concat_of_notMem hempty hlast
  cases init with
  | nil => exact ⟨start.toList ++ front, c, by simp [hcs], hc⟩
  | cons first rest =>
    refine ⟨(start ++ (String.intercalate "/" (first :: rest) ++ "/")).toList ++ front, c, ?_, hc⟩
    rw [intercalate_concat (by simp), ← String.append_assoc, String.toList_append, hcs,
      List.append_assoc]

theorem join_intercalate {ts : List String} (hne : ts ≠ [])
    (hslash : ∀ t ∈ ts, '/' ∉ t.toList ∧ t ≠ "") (start : String) (hname : IsProper name) :
    join (start ++ String.intercalate "/" ts) name =
      start ++ String.intercalate "/" (ts ++ [name]) := by
  obtain ⟨front, c, hcs, hc⟩ := exists_concat_intercalate hne hslash start
  rw [join, isAbsolute_of_isProper hname, if_neg Bool.false_ne_true, hcs, List.getLast?_concat,
    Option.all_some, if_neg (by simpa using hc), intercalate_concat hne]
  simp [String.append_assoc]

/-- The names of a walk are texts that no slash stands in and that mean something. -/
theorem text_walk {up : Nat} (h : ∀ name ∈ names, IsProper name) :
    ∀ t ∈ (walk up names).map Component.text, ('/' ∉ t.toList ∧ t ≠ "") ∧ t ≠ "." := by
  intro t ht
  refine ⟨⟨slash_notMem_text_walk h t ht, fun hempty ↦ text_walk_ne_empty h (hempty ▸ ht)⟩, ?_⟩
  rintro rfl
  obtain ⟨c, hc, htext⟩ := List.mem_map.1 ht
  rcases List.mem_append.1 hc with hc | hc
  · rw [List.eq_of_mem_replicate hc] at htext
    exact absurd htext (by decide)
  · obtain ⟨n, hn, rfl⟩ := List.mem_map.1 hc
    exact (h n hn).2.1 htext

/-- A resolved path that goes on to a name is written with the name behind it. -/
theorem IsResolved.render_concat (h : IsResolved cs) (hname : IsProper name) :
    render (cs ++ [.normal name]) = join (render cs) name := by
  have hrel := isAbsolute_of_isProper hname
  cases h with
  | @absolute names hnames =>
    by_cases hne : names = []
    · subst hne
      have hroot : isAbsolute name = false := hrel
      simp [render, join, hroot, Component.text]
    · have hslash : ∀ t ∈ names, '/' ∉ t.toList ∧ t ≠ "" := fun t ht ↦
        ⟨(hnames t ht).2.2.2, (hnames t ht).1⟩
      have hjoin := join_intercalate hne hslash "/" hname
      have htext : Component.text ∘ Component.normal = id := rfl
      simp only [List.cons_append, render, List.map_append, List.map_map, htext, List.map_id,
        List.map_cons, List.map_nil, Component.text]
      exact hjoin.symm
  | @relative up names hnames =>
    have hconcat : walk up names ++ [.normal name] = walk up (names ++ [name]) := by
      simp [walk]
    have htexts : (walk up (names ++ [name])).map Component.text =
        (walk up names).map Component.text ++ [name] := by
      rw [← hconcat, List.map_append]
      rfl
    rw [hconcat, render_walk, render_walk, htexts]
    by_cases hne : (walk up names).map Component.text = []
    · rw [hne]
      simp [join, hrel]
    · have hjoin := join_intercalate hne (fun t ht ↦ (text_walk hnames t ht).1) "" hname
      rw [String.empty_append, String.empty_append] at hjoin
      exact hjoin.symm

theorem dropTrivial_of_forall {ts : List String} (h : ∀ t ∈ ts, t ≠ "" ∧ t ≠ ".") :
    dropTrivial ts = ts := by
  rcases ts.eq_nil_or_concat with rfl | ⟨init, last, rfl⟩
  · rfl
  · obtain ⟨hne, hdot⟩ := h last (by simp)
    rw [dropTrivial, List.concat_eq_append, List.reverse_append, List.reverse_singleton,
      List.singleton_append, List.dropWhile_cons_of_neg (by simp [hne, hdot])]
    simp

theorem splitStart_slash_append (p : String) : splitStart ("/" ++ p) = ("/", pieces p) := by
  have hpieces : pieces ("/" ++ p) = "" :: pieces p := by
    have := pieces_append_slash "" p
    rwa [String.empty_append] at this
  have hlist : ("/" ++ p).toList = '/' :: p.toList := String.toList_append
  unfold splitStart
  rw [hpieces, hlist]
  rfl

theorem splitStart_of_not_isAbsolute {p : String} (h : isAbsolute p = false)
    (hdot : (pieces p).head? ≠ some ".") : splitStart p = ("", pieces p) := by
  unfold splitStart
  split
  · next rest hrest => exact absurd (by rw [hrest]; rfl) hdot
  · split
    · next rest hrest =>
      rw [isAbsolute, hrest] at h
      cases h
    · rfl

/-- The path above a resolved one is written without the last name. -/
theorem IsResolved.parent?_concat (h : IsResolved cs) (hname : IsProper name) :
    parent? (render (cs ++ [.normal name])) = some (render cs) := by
  cases h with
  | @absolute names hnames =>
    have hproper : ∀ t ∈ names ++ [name], IsProper t := fun t ht ↦
      (List.mem_append.1 ht).elim (hnames t) fun ht ↦ List.mem_singleton.1 ht ▸ hname
    have hrender : render (.root :: names.map .normal ++ [.normal name]) =
        "/" ++ String.intercalate "/" (names ++ [name]) := by
      simp [render, Component.text, Function.comp_def]
    rw [parent?, hrender, splitStart_slash_append,
      pieces_intercalate (fun t ht ↦ (hproper t ht).2.2.2) (by simp)]
    simp only
    rw [dropTrivial_of_forall fun t ht ↦ ⟨(hproper t ht).1, (hproper t ht).2.1⟩]
    split
    · next hnil => simp at hnil
    · rw [List.dropLast_concat,
        dropTrivial_of_forall fun t ht ↦ ⟨(hnames t ht).1, (hnames t ht).2.1⟩, render_root,
        render_walk]
      simp [Component.text, Function.comp_def]
  | @relative up names hnames =>
    have hproper : ∀ t ∈ names ++ [name], IsProper t := fun t ht ↦
      (List.mem_append.1 ht).elim (hnames t) fun ht ↦ List.mem_singleton.1 ht ▸ hname
    have hconcat : walk up names ++ [.normal name] = walk up (names ++ [name]) := by simp [walk]
    have htexts : (walk up (names ++ [name])).map Component.text =
        (walk up names).map Component.text ++ [name] := by
      rw [← hconcat, List.map_append]
      rfl
    have hpieces : pieces (render (walk up (names ++ [name]))) =
        (walk up (names ++ [name])).map Component.text := by
      rw [render_walk, pieces_intercalate fun t ht ↦ (text_walk hproper t ht).1.1]
      simp [htexts]
    have hdot : (pieces (render (walk up (names ++ [name])))).head? ≠ some "." := by
      rw [hpieces]
      exact fun hhead ↦ (text_walk hproper _ (List.mem_of_mem_head? hhead)).2 rfl
    rw [hconcat, parent?, splitStart_of_not_isAbsolute (isAbsolute_render_walk hproper) hdot,
      hpieces]
    simp only
    rw [dropTrivial_of_forall fun t ht ↦
      ⟨(text_walk hproper t ht).1.2, (text_walk hproper t ht).2⟩, htexts]
    split
    · next hnil => simp at hnil
    · rw [List.dropLast_concat, dropTrivial_of_forall fun t ht ↦
        ⟨(text_walk hnames t ht).1.2, (text_walk hnames t ht).2⟩, String.empty_append,
        ← render_walk]

end Path

namespace Disk

open Path

variable {cs : List Component} {name : String} {names : List String}

theorem trimSlashes_eq_self {p : String} {front : List Char} {c : Char}
    (h : p.toList = front ++ [c]) (hc : c ≠ '/') : trimSlashes p = p := by
  rw [trimSlashes, h, List.reverse_append, List.reverse_singleton, List.singleton_append,
    List.dropWhile_cons_of_neg (by simpa using hc)]
  simp only [List.isEmpty_cons, Bool.false_eq_true, if_false]
  rw [List.reverse_cons, List.reverse_reverse, ← h, String.ofList_toList]

/-- A resolved path has no slash to be dropped from its end. -/
theorem trimSlashes_render (h : IsResolved cs) : trimSlashes (render cs) = render cs := by
  cases h with
  | @absolute names hnames =>
    have htexts : (walk 0 names).map Component.text = names := by
      simp [Component.text, Function.comp_def]
    rw [render_root, render_walk, htexts]
    by_cases hne : names = []
    · subst hne
      decide
    · obtain ⟨front, c, hcs, hc⟩ := exists_concat_intercalate hne
        (fun t ht ↦ ⟨(hnames t ht).2.2.2, (hnames t ht).1⟩) "/"
      exact trimSlashes_eq_self hcs hc
  | @relative up names hnames =>
    rw [render_walk]
    by_cases hne : (walk up names).map Component.text = []
    · rw [hne]
      decide
    · obtain ⟨front, c, hcs, hc⟩ := exists_concat_intercalate hne
        (fun t ht ↦ (text_walk hnames t ht).1) ""
      rw [String.empty_append] at hcs
      exact trimSlashes_eq_self hcs hc

/-- The step that a component stands for; the start of an absolute path is none. -/
def step? : Component → Option Step
  | .root => none
  | .current => some .stay
  | .parent => some .up
  | .normal name => some (.down (.text name))

theorem filterMap_step?_map (names : List String) :
    (names.map Component.normal).filterMap step? = names.map fun n ↦ .down (.text n) := by
  simp [List.filterMap_map, Function.comp_def, step?]

theorem stepOf_of_isProper (h : IsProper name) : stepOf name = .down (.text name) := by
  simp [stepOf, h.1, h.2.1, h.2.2.1]

theorem map_stepOf_names (h : ∀ name ∈ names, IsProper name) :
    names.map stepOf = names.map fun n ↦ .down (.text n) :=
  List.map_congr_left fun n hn ↦ stepOf_of_isProper (h n hn)

theorem map_stepOf_walk {up : Nat} (h : ∀ name ∈ names, IsProper name) :
    ((walk up names).map Component.text).map stepOf = (walk up names).filterMap step? := by
  have hparent : stepOf (Component.text .parent) = .up := by decide
  have hup : step? .parent = some .up := rfl
  have htexts : (names.map Component.normal).map Component.text = names := by
    simp [Component.text, Function.comp_def]
  rw [walk, List.map_append, List.map_append, List.filterMap_append, filterMap_step?_map,
    List.map_replicate, List.map_replicate, hparent, List.filterMap_replicate_of_some hup, htexts,
    map_stepOf_names h]

/-- A resolved path is read as it was written, unless it names nothing. -/
theorem steps_render (h : IsResolved cs) (hne : cs ≠ []) (hroot : cs ≠ [.root]) :
    steps (render cs) = cs.filterMap step? := by
  cases h with
  | @absolute names hnames =>
    have hpieces : pieces (String.intercalate "/" names) = names :=
      pieces_intercalate (fun t ht ↦ (hnames t ht).2.2.2) (by simpa using hroot)
    have hslash := pieces_append_slash "" (String.intercalate "/" names)
    have hempty : pieces "" = [""] := rfl
    rw [String.empty_append, hpieces, hempty] at hslash
    have hrender : render (.root :: names.map .normal) = "/" ++ String.intercalate "/" names := by
      rw [render_root, render_walk]
      simp [Component.text, Function.comp_def]
    rw [hrender, steps_eq, hslash, List.singleton_append, List.head?_cons, if_pos rfl,
      List.tail_cons, map_stepOf_names hnames, List.filterMap_cons_none rfl, filterMap_step?_map]
  | @relative up names hnames =>
    have hpieces : pieces (render (walk up names)) = (walk up names).map Component.text := by
      rw [render_walk, pieces_intercalate fun t ht ↦ (text_walk hnames t ht).1.1]
      simpa using hne
    have hhead : ((walk up names).map Component.text).head? ≠ some "" := fun hhead ↦
      (text_walk hnames _ (List.mem_of_mem_head? hhead)).1.2 rfl
    rw [steps_eq, hpieces, if_neg hhead, map_stepOf_walk hnames]

theorem isAbsolute_render (h : IsResolved cs) :
    isAbsolute (render cs) = (cs.head? == some .root) := by
  cases h with
  | absolute h => rw [isAbsolute_render_root]; rfl
  | @relative up names h =>
    rw [isAbsolute_render_walk h]
    cases up with
    | zero => cases names <;> rfl
    | succ up => rfl

end Disk

end GitGateway
