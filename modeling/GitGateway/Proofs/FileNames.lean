import GitGateway.Proofs.Rendered
import GitGateway.Store.Walk
import Mathlib.Data.List.Basic

/-!
# Names of entries

A system gives an entry a name in which no slash stands, and which is none of the names for the
directory itself and the one above.  Such a **proper** name is shown as a text of the same kind,
also where its bytes are no text (`FileName.IsProper.shown`).  So the path that goes down from
another one along proper names has their texts as its last components (`components_trail`), and
nothing else stands behind the path that it went down from (`below?_trail`).
-/

namespace GitGateway

/-! ## Broken bytes as text -/

namespace Text.Utf8

variable {lead b : UInt8} {bytes : List UInt8}

theorem eq_of_ofNat_eq_slash {n : Nat} (h : Char.ofNat n = '/') : n = 47 := by
  by_cases hvalid : n.isValidChar
  · rw [Char.ofNat, dif_pos hvalid] at h
    exact congrArg Char.toNat h
  · rw [Char.ofNat, dif_neg hvalid] at h
    cases h

theorem ofNat_ne_slash {n : Nat} (h : 64 ≤ n) : Char.ofNat n ≠ '/' := fun heq ↦ by
  rw [eq_of_ofNat_eq_slash heq] at h
  exact absurd h (by decide)

theorem le_of_width_two (h : width lead = 2) : 194 ≤ lead ∧ lead ≤ 223 := by
  unfold width at h
  grind

theorem le_of_width_three (h : width lead = 3) : 224 ≤ lead ∧ lead ≤ 239 := by
  unfold width at h
  grind

theorem le_of_width_four (h : width lead = 4) : 240 ≤ lead ∧ lead ≤ 244 := by
  unfold width at h
  grind

/-- Behind a first byte that gives nothing to the character, the second one does. -/
theorem payload_pos (h : mayFollow lead b = true) (hlead : lead = 224 ∨ lead = 240) :
    0 < payload b := by
  rcases hlead with rfl | rfl
  all_goals
    simp [mayFollow, UInt8.le_iff_toNat_le] at h
    unfold payload
    omega

/-! What is read from more than one byte stands behind the slash among the characters. -/

theorem le_value_two (h : width lead = 2) (b : UInt8) :
    64 ≤ lead.toNat % 32 * 64 + payload b := by
  obtain ⟨hle, hge⟩ := le_of_width_two h
  rw [UInt8.le_iff_toNat_le] at hle hge
  simp only [UInt8.reduceToNat] at hle hge
  omega

theorem le_value_three (h : width lead = 3) (hfollow : mayFollow lead b = true) (c : UInt8) :
    64 ≤ (lead.toNat % 16 * 64 + payload b) * 64 + payload c := by
  obtain ⟨hle, hge⟩ := le_of_width_three h
  rw [UInt8.le_iff_toNat_le] at hle hge
  simp only [UInt8.reduceToNat] at hle hge
  by_cases hlead : lead = 224
  · have hpos := payload_pos hfollow (.inl hlead)
    omega
  · have hne : lead.toNat ≠ 224 := fun heq ↦ hlead (UInt8.toNat_inj.1 heq)
    omega

theorem le_value_four (h : width lead = 4) (hfollow : mayFollow lead b = true) (c d : UInt8) :
    64 ≤ ((lead.toNat % 8 * 64 + payload b) * 64 + payload c) * 64 + payload d := by
  obtain ⟨hle, hge⟩ := le_of_width_four h
  rw [UInt8.le_iff_toNat_le] at hle hge
  simp only [UInt8.reduceToNat] at hle hge
  by_cases hlead : lead = 240
  · have hpos := payload_pos hfollow (.inr hlead)
    omega
  · have hne : lead.toNat ≠ 240 := fun heq ↦ hlead (UInt8.toNat_inj.1 heq)
    omega

/-- Only its own byte is read as a slash. -/
theorem eq_of_piece {rest : List UInt8} (h : (piece lead rest).1 = .char '/') : lead = 47 := by
  unfold piece at h
  split at h
  · exact UInt8.toNat_inj.1 (eq_of_ofNat_eq_slash (Piece.char.inj h))
  · next hwidth =>
    split at h
    · split at h
      · exact absurd (Piece.char.inj h) (ofNat_ne_slash (le_value_two hwidth _))
      · cases h
    · cases h
  · next hwidth =>
    split at h
    · split at h
      · next hfollow =>
        split at h
        · exact absurd (Piece.char.inj h) (ofNat_ne_slash (le_value_three hwidth hfollow _))
        · cases h
      · cases h
    · cases h
    · cases h
  · next hwidth =>
    split at h
    · split at h
      · next hfollow =>
        split at h
        · split at h
          · exact absurd (Piece.char.inj h) (ofNat_ne_slash (le_value_four hwidth hfollow _ _))
          · cases h
        · cases h
      · cases h
    · cases h
    · cases h
    · cases h
  · cases h

/-- Each piece that is found begins with one of the bytes. -/
theorem eq_of_mem_piecesFrom {done : List Piece} {p : Piece} (h : p ∈ piecesFrom done bytes) :
    p ∈ done ∨ ∃ b ∈ bytes, ∃ rest, (piece b rest).1 = p := by
  induction done, bytes using piecesFrom.induct with
  | case1 done =>
    rw [piecesFrom] at h
    exact .inl (List.mem_reverse.1 h)
  | case2 done b rest _ ih =>
    rw [piecesFrom] at h
    rcases ih h with h | ⟨b', hb', hpiece⟩
    · rcases List.mem_cons.1 h with rfl | h
      · exact .inr ⟨b, List.mem_cons_self, rest, rfl⟩
      · exact .inl h
    · exact .inr ⟨b', List.mem_cons_of_mem _ (List.mem_of_mem_drop hb'), hpiece⟩

theorem slash_notMem_decodeLossy (h : 47 ∉ bytes) : '/' ∉ (decodeLossy bytes).toList := by
  rw [decodeLossy, String.toList_ofList]
  intro hmem
  obtain ⟨p, hp, hslash⟩ := List.mem_map.1 hmem
  rcases eq_of_mem_piecesFrom hp with hnil | ⟨b, hb, rest, rfl⟩
  · cases hnil
  · cases hpiece : (piece b rest).1 with
    | char c =>
      rw [hpiece] at hslash
      obtain rfl : c = '/' := hslash
      exact h (eq_of_piece hpiece ▸ hb)
    | broken =>
      rw [hpiece] at hslash
      cases hslash

/-- Bytes that are no text show the replacement character. -/
theorem replacement_mem_decodeLossy (h : decode? bytes = none) :
    '\uFFFD' ∈ (decodeLossy bytes).toList := by
  have hbroken : (pieces bytes).contains .broken = true := by
    by_contra hnot
    rw [decode?, if_neg hnot] at h
    cases h
  rw [decodeLossy, String.toList_ofList]
  exact List.mem_map.2 ⟨.broken, List.contains_iff_mem.1 hbroken, rfl⟩

end Text.Utf8

/-! ## Proper names -/

namespace FileName

/-- A name that a system can give an entry. -/
def IsProper : FileName → Prop
  | .text s => Path.IsProper s
  | .raw bytes => Text.Utf8.decode? bytes = none ∧ 47 ∉ bytes

instance : DecidablePred IsProper
  | .text s => inferInstanceAs (Decidable (Path.IsProper s))
  | .raw bytes => inferInstanceAs (Decidable (Text.Utf8.decode? bytes = none ∧ 47 ∉ bytes))

/-- A proper name is shown as a proper text. -/
theorem IsProper.shown {name : FileName} (h : name.IsProper) : Path.IsProper name.shown := by
  cases name with
  | text s => exact h
  | raw bytes =>
    obtain ⟨hbroken, hslash⟩ := h
    have hmem := Text.Utf8.replacement_mem_decodeLossy hbroken
    refine ⟨fun heq ↦ ?_, fun heq ↦ ?_, fun heq ↦ ?_, Text.Utf8.slash_notMem_decodeLossy hslash⟩
    all_goals
      rw [FileName.shown] at heq
      rw [heq] at hmem
      exact absurd hmem (by decide)

end FileName

namespace Entry

/-- Every name in an entry is of one kind, here and below. -/
inductive Named (kind : FileName → Prop) : Entry → Prop where
  | file (data : List UInt8) : Named kind (.file data)
  | link (target : String) : Named kind (.link target)
  | dir {r : Bool} {es : List (FileName × Entry)} (hname : ∀ p ∈ es, kind p.1)
      (hbelow : ∀ p ∈ es, Named kind p.2) : Named kind (.dir r es)

theorem named_dir_iff {kind : FileName → Prop} {r : Bool} {es : List (FileName × Entry)} :
    Named kind (.dir r es) ↔ ∀ p ∈ es, kind p.1 ∧ Named kind p.2 := by
  constructor
  · intro h
    cases h with
    | dir hname hbelow => exact fun p hp ↦ ⟨hname p hp, hbelow p hp⟩
  · exact fun h ↦ .dir (fun p hp ↦ (h p hp).1) fun p hp ↦ (h p hp).2

theorem Named.mono {kind kind' : FileName → Prop} {e : Entry} (h : e.Named kind)
    (himp : ∀ name, kind name → kind' name) : e.Named kind' := by
  induction h with
  | file data => exact .file data
  | link target => exact .link target
  | dir hname _ ih => exact .dir (fun p hp ↦ himp _ (hname p hp)) ih

end Entry

/-! ## Paths along names -/

namespace Path

variable {base : String} {name : String}

/-- What the components of a path begin with, before its steps. -/
def lead (p : String) : List Component :=
  if (pieces p).head? = some "." then [.current] else start p

theorem components_eq_lead (p : String) : components p = lead p ++ moves p := by
  unfold components lead
  split
  · next rest hp =>
    rw [hp, List.head?_cons, if_pos rfl, moves, hp]
    rfl
  · next hne =>
    have hhead : (pieces p).head? ≠ some "." := by
      intro hhead
      obtain ⟨rest, hrest⟩ := List.head?_eq_some_iff.1 hhead
      exact hne rest hrest
    rw [if_neg hhead]
    rfl

theorem pieces_of_isProper (h : IsProper name) : pieces name = [name] := by
  have hslash : ∀ t ∈ [name], '/' ∉ t.toList := by simpa using h.2.2.2
  have hpieces := pieces_intercalate hslash (by simp)
  rwa [String.intercalate_singleton] at hpieces

theorem moves_of_isProper (h : IsProper name) : moves name = [.normal name] := by
  rw [moves, pieces_of_isProper h, List.filterMap_cons_some (component?_of_isProper h),
    List.filterMap_nil]

/-- What a path begins with stays when a name is joined to it. -/
theorem lead_join (h : IsProper name) : lead (join base name) = lead base := by
  have hrel := isAbsolute_of_isProper h
  have hhead : ∀ a b : String, (pieces (a ++ "/" ++ b)).head? = (pieces a).head? := by
    intro a b
    rw [pieces_append_slash, List.head?_append_of_ne_nil _ (by simp [pieces, List.splitOn_ne_nil])]
  have hstart : start (join base name) = start base := start_join hrel
  rcases join_cases base hrel with ⟨rfl, hjoin⟩ | ⟨front, rfl, hjoin⟩ | ⟨-, hjoin⟩
  · have hdot : (pieces name).head? ≠ some "." := by
      rw [pieces_of_isProper h]
      simpa using h.2.1
    have hempty : (pieces "").head? ≠ some "." := by decide
    rw [lead, lead, hstart, hjoin, if_neg hdot, if_neg hempty]
  · have hfront := hhead front ""
    rw [String.append_empty] at hfront
    rw [lead, lead, hstart, hjoin, hhead, hfront]
  · rw [lead, lead, hstart, hjoin, hhead]

/-- A name that is joined to a path is its last component. -/
theorem components_join_of_isProper (h : IsProper name) :
    components (join base name) = components base ++ [.normal name] := by
  rw [components_eq_lead, lead_join h, moves_join (isAbsolute_of_isProper h),
    moves_of_isProper h, ← List.append_assoc, ← components_eq_lead]

variable {root : String} {below : List FileName}

theorem components_trail (h : ∀ name ∈ below, name.IsProper) :
    components (trail root below) =
      components root ++ (below.reverse.map FileName.shown).map .normal := by
  induction below with
  | nil => simp [trail]
  | cons name below ih =>
    rw [List.forall_mem_cons] at h
    rw [trail, components_join_of_isProper h.1.shown, ih h.2]
    simp

/-- The text of names is that of the steps down along them. -/
theorem render_shown (below : List FileName) :
    render ((below.reverse.map FileName.shown).map .normal) = Listing.shown below := by
  have htexts : ∀ names : List String, (names.map Component.normal).map Component.text = names := by
    intro names
    rw [List.map_map]
    exact List.map_id names
  rw [← walk_zero, render_walk, walk_zero, htexts, Listing.shown]

theorem isProper_of_mem_shown (h : ∀ name ∈ below, name.IsProper) :
    ∀ t ∈ below.reverse.map FileName.shown, IsProper t := by
  intro t ht
  obtain ⟨name, hname, rfl⟩ := List.mem_map.1 ht
  exact (h name (List.mem_reverse.1 hname)).shown

theorem isAbsolute_shown (h : ∀ name ∈ below, name.IsProper) :
    isAbsolute (Listing.shown below) = false := by
  rw [← render_shown, ← walk_zero]
  exact isAbsolute_render_walk (isProper_of_mem_shown h)

/-- Behind the path that it went down from, a path has the names that it went along. -/
theorem below?_trail (h : ∀ name ∈ below, name.IsProper) :
    below? root (trail root below) = some (Listing.shown below) := by
  have hprefix : (components root).isPrefixOf? (components (trail root below)) =
      some ((below.reverse.map FileName.shown).map .normal) := by
    rw [List.isPrefixOf?_eq_some_iff_append_eq, components_trail h]
  rw [below?, hprefix, Option.map_some, render_shown]

/-- What is joined to a path stands behind the same text, whatever it is. -/
theorem exists_join_eq (base : String) :
    ∃ front, ∀ rel, isAbsolute rel = false → join base rel = front ++ rel := by
  by_cases hlast : base.toList.getLast?.all (· == '/') = true
  · refine ⟨base, fun rel hrel ↦ ?_⟩
    rw [join, hrel, if_neg Bool.false_ne_true, if_pos hlast]
  · refine ⟨base ++ "/", fun rel hrel ↦ ?_⟩
    rw [join, hrel, if_neg Bool.false_ne_true, if_neg hlast]

/-- To go down along names is to join their path. -/
theorem trail_eq_join (h : ∀ name ∈ below, name.IsProper) (hne : below ≠ []) :
    trail root below = join root (Listing.shown below) := by
  obtain ⟨front, hfront⟩ := exists_join_eq root
  induction below with
  | nil => exact absurd rfl hne
  | cons name below ih =>
    rw [hfront _ (isAbsolute_shown h)]
    rw [List.forall_mem_cons] at h
    by_cases hnil : below = []
    · subst hnil
      rw [trail, trail, hfront _ (isAbsolute_of_isProper h.1.shown)]
      simp [Listing.shown]
    · have hslash : ∀ t ∈ below.reverse.map FileName.shown, '/' ∉ t.toList ∧ t ≠ "" :=
        fun t ht ↦ ⟨(isProper_of_mem_shown h.2 t ht).2.2.2, (isProper_of_mem_shown h.2 t ht).1⟩
      rw [trail, ih h.2 hnil, hfront _ (isAbsolute_shown h.2), Listing.shown,
        join_intercalate (by simpa using hnil) hslash front h.1.shown, Listing.shown]
      simp

end Path

end GitGateway
