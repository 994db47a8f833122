import GitGateway.Access.Policy
import Mathlib.Order.MinMax

/-!
# Levels

The levels are linearly ordered, and the level of an identity on a repository is a **verdict**: an
administrator's key may do everything; a collaborator has its **standing**, raised to reading and
writing; a private repository shuts out everybody else; and otherwise an identity has its standing
(`verdict_iff`).  The standing is the level of the connection for all but administrators
(`level_unnamed`), and private marks count for the names that carry them only (`level_congr`).  So
the laws of access compare two verdicts (`level_laws`).
-/

namespace GitGateway

namespace AccessLevel

theorem rank_injective : Function.Injective rank := by
  intro a b h
  cases a <;> cases b <;> first | rfl | cases h

instance : LinearOrder AccessLevel where
  le_refl a := Nat.le_refl a.rank
  le_trans a b c := Nat.le_trans
  lt_iff_le_not_ge a b := Nat.lt_iff_le_and_not_ge
  le_antisymm a b h h' := rank_injective (Nat.le_antisymm h h')
  le_total a b := Nat.le_total a.rank b.rank
  min a b := if a ≤ b then a else b
  toDecidableLE a b := inferInstanceAs (Decidable (a.rank ≤ b.rank))
  max_def a b := rfl

theorem noAccess_le (l : AccessLevel) : .noAccess ≤ l := Nat.zero_le l.rank

theorem le_admin (l : AccessLevel) : l ≤ .admin := by cases l <;> decide

end AccessLevel

namespace Policy

open AccessLevel

variable {p : Policy} {marks marks' : List String} {name other : RepoName}
variable {key : Option ClientKey} {l : AccessLevel}

/-! ## Keys -/

theorem isAdmin_iff : p.isAdmin key = true ↔ ∃ k ∈ key, k ∈ p.admins := by
  cases key <;> simp [isAdmin]

theorem mem_of_userOf {k : ClientKey} {u : User} (h : p.userOf k = some u) :
    u ∈ p.users ∧ k ∈ u.keys :=
  ⟨List.mem_of_find?_eq_some h, by simpa using List.find?_some h⟩

/-! ## Verdicts -/

/-- The level of an identity that is no administrator's, where it neither collaborates nor is shut
out. -/
def standing (p : Policy) (key : Option ClientKey) : AccessLevel := p.baseLevel (key.bind p.userOf)

/-- Whether an identity collaborates on a repository: the first user who holds its key does. -/
def isCollaborator (p : Policy) (name : RepoName) (key : Option ClientKey) : Bool :=
  (key.bind p.userOf).any (p.collaborates name)

/-- How the level of an identity on a repository comes about. -/
inductive Verdict (p : Policy) (marks : List String) (name : RepoName) (key : Option ClientKey) :
    AccessLevel → Prop where
  | admin (hadmin : p.isAdmin key = true) : Verdict p marks name key .admin
  | collaborator (hadmin : p.isAdmin key = false) (hcollab : p.isCollaborator name key = true) :
      Verdict p marks name key (max (p.standing key) .readWrite)
  | shutOut (hadmin : p.isAdmin key = false) (hcollab : p.isCollaborator name key = false)
      (hprivate : p.isPrivate marks name = true) : Verdict p marks name key .noAccess
  | standing (hadmin : p.isAdmin key = false) (hcollab : p.isCollaborator name key = false)
      (hprivate : p.isPrivate marks name = false) : Verdict p marks name key (p.standing key)

theorem level_eq (hname : name.isEmpty = false) : p.level marks name key =
    if p.isAdmin key then .admin
    else if p.isCollaborator name key then max (p.standing key) .readWrite
    else if p.isPrivate marks name then .noAccess
    else p.standing key := by
  rw [level]
  dsimp only
  rw [hname, if_neg Bool.false_ne_true]
  rfl

theorem verdict_iff (hname : name.isEmpty = false) :
    Verdict p marks name key l ↔ p.level marks name key = l := by
  rw [level_eq hname]
  constructor
  · intro h
    cases h with
    | admin hadmin => rw [if_pos hadmin]
    | collaborator hadmin hcollab => simp [hadmin, hcollab]
    | shutOut hadmin hcollab hprivate => simp [hadmin, hcollab, hprivate]
    | standing hadmin hcollab hprivate => simp [hadmin, hcollab, hprivate]
  · rintro rfl
    cases hadmin : p.isAdmin key with
    | true => exact .admin hadmin
    | false =>
      cases hcollab : p.isCollaborator name key with
      | true => exact .collaborator hadmin hcollab
      | false =>
        cases hprivate : p.isPrivate marks name with
        | true => exact .shutOut hadmin hcollab hprivate
        | false => exact .standing hadmin hcollab hprivate

theorem level_of_isAdmin (h : p.isAdmin key = true) : p.level marks name key = .admin := by
  rw [level, if_pos h]

/-- The level of a connection. -/
theorem level_unnamed : p.level marks .unnamed key =
    if p.isAdmin key then .admin else p.standing key := rfl

theorem anonymous_le_standing : p.anonymous ≤ p.standing key := by
  unfold standing
  cases key.bind p.userOf with
  | none => exact le_rfl
  | some u => exact le_max_right u.access p.anonymous

/-! ## Marks -/

/-- The level depends on whether the name is marked only, and on that only if it stands for a
repository. -/
theorem level_congr (h : name.isEmpty = false → (name.text ∈ marks' ↔ name.text ∈ marks))
    (key : Option ClientKey) : p.level marks' name key = p.level marks name key := by
  cases hname : name.isEmpty with
  | true => simp only [level, hname, if_pos]
  | false =>
    have hprivate : p.isPrivate marks' name = p.isPrivate marks name := by
      simp only [isPrivate, List.contains_eq_mem, h hname]
    rw [level, level, hprivate]

/-- A name that carries no mark has the level that the settings give it. -/
theorem level_of_notMem (h : name.text ∉ marks) (key : Option ClientKey) :
    p.level marks name key = p.level [] name key :=
  level_congr (fun _ ↦ ⟨fun hmem ↦ absurd hmem h, fun hmem ↦ absurd hmem List.not_mem_nil⟩) key

/-- More marks raise no level. -/
theorem level_le_of_subset (hname : name.isEmpty = false) (h : marks ⊆ marks') :
    p.level marks' name key ≤ p.level marks name key := by
  generalize hl : p.level marks' name key = l
  cases (verdict_iff hname).2 hl with
  | admin hadmin => rw [(verdict_iff hname).1 (.admin hadmin)]
  | collaborator hadmin hcollab => rw [(verdict_iff hname).1 (.collaborator hadmin hcollab)]
  | shutOut => exact noAccess_le _
  | standing hadmin hcollab hprivate =>
    have hprivate : p.isPrivate marks name = false := by
      simp only [isPrivate, List.contains_eq_mem, Bool.or_eq_false_iff, decide_eq_false_iff_not]
        at hprivate ⊢
      exact ⟨hprivate.1, fun hmem ↦ hprivate.2 (h hmem)⟩
    rw [(verdict_iff hname).1 (.standing hadmin hcollab hprivate)]

/-! ## Laws -/

/-- A key never costs anything. -/
theorem level_none_le (hname : name.isEmpty = false) :
    p.level marks name none ≤ p.level marks name key := by
  generalize hnone : p.level marks name none = l
  cases (verdict_iff hname).2 hnone with
  | admin hadmin => cases hadmin
  | collaborator _ hcollab => cases hcollab
  | shutOut => exact noAccess_le _
  | standing _ _ hpublic =>
    have hle : p.standing none ≤ p.standing key := anonymous_le_standing
    generalize hl : p.level marks name key = l
    cases (verdict_iff hname).2 hl with
    | admin => exact le_admin _
    | collaborator => exact hle.trans (le_max_left _ _)
    | shutOut _ _ hprivate => cases hpublic.symm.trans hprivate
    | standing => exact hle

theorem readWrite_le_of_isCollaborator (hname : name.isEmpty = false)
    (hcollab : p.isCollaborator name key = true) : .readWrite ≤ p.level marks name key := by
  generalize hl : p.level marks name key = l
  cases (verdict_iff hname).2 hl with
  | admin => exact le_admin _
  | collaborator => exact le_max_right _ _
  | shutOut _ hnot => cases hcollab.symm.trans hnot
  | standing _ hnot => cases hcollab.symm.trans hnot

/-- What an identity that is no administrator's has on a repository on which it does not collaborate
is at most its standing. -/
theorem level_le_standing (hname : name.isEmpty = false) (hadmin : p.isAdmin key = false)
    (hcollab : p.isCollaborator name key = false) :
    p.level marks name key ≤ p.standing key := by
  cases hprivate : p.isPrivate marks name with
  | true =>
    rw [(verdict_iff hname).1 (.shutOut hadmin hcollab hprivate)]
    exact noAccess_le _
  | false => rw [(verdict_iff hname).1 (.standing hadmin hcollab hprivate)]

theorem level_le_max (hname : name.isEmpty = false) (hadmin : p.isAdmin key = false) :
    p.level marks name key ≤ max (p.standing key) .readWrite := by
  cases hcollab : p.isCollaborator name key with
  | true => rw [(verdict_iff hname).1 (.collaborator hadmin hcollab)]
  | false => exact (level_le_standing hname hadmin hcollab).trans (le_max_left _ _)

/-- On a repository that is not private, an identity has at least the level of its connection. -/
theorem unnamed_le_level (hname : name.isEmpty = false)
    (hpublic : p.isPrivate marks name = false) :
    p.level marks .unnamed key ≤ p.level marks name key := by
  generalize hl : p.level marks name key = l
  rw [level_unnamed]
  cases (verdict_iff hname).2 hl with
  | admin => exact le_admin _
  | collaborator hadmin =>
    rw [hadmin, if_neg Bool.false_ne_true]
    exact le_max_left _ _
  | shutOut _ _ hprivate => cases hpublic.symm.trans hprivate
  | standing hadmin => rw [hadmin, if_neg Bool.false_ne_true]

/-- What raises a level above that of the connection is collaboration alone, and it raises it to
reading and writing. -/
theorem level_eq_readWrite_of_lt (hname : name.isEmpty = false)
    (h : p.level marks .unnamed key < p.level marks name key) :
    p.isCollaborator name key = true ∧ p.level marks .unnamed key < .readWrite ∧
      p.level marks name key = .readWrite := by
  generalize hl : p.level marks name key = l at h ⊢
  rw [level_unnamed] at h ⊢
  cases (verdict_iff hname).2 hl with
  | admin hadmin =>
    rw [hadmin, if_pos rfl] at h
    exact absurd h (lt_irrefl _)
  | collaborator hadmin hcollab =>
    rw [hadmin, if_neg Bool.false_ne_true] at h ⊢
    have hlt : p.standing key < .readWrite := (lt_max_iff.1 h).resolve_left (lt_irrefl _)
    exact ⟨hcollab, hlt, max_eq_right hlt.le⟩
  | shutOut => exact absurd (noAccess_le _) (not_le_of_gt h)
  | standing hadmin =>
    rw [hadmin, if_neg Bool.false_ne_true] at h
    exact absurd h (lt_irrefl _)

/-- **The laws of access.**  A key never costs anything, and an administrator's may do everything
everywhere.  From a private repository everybody is shut out but administrators and collaborators,
who may read and write at least.  On any other repository an identity has at least the level of its
connection, and more exactly if it is a collaborator who could not write otherwise.  A mark lowers
levels on the name that it is put on, and changes none on another. -/
theorem level_laws (p : Policy) (marks : List String) (hname : name.isEmpty = false) :
    (∀ key, p.level marks name none ≤ p.level marks name key) ∧
    (∀ key other, p.isAdmin key = true → p.level marks other key = .admin) ∧
    (∀ key, p.isPrivate marks name = true → p.isAdmin key = false →
      (p.isCollaborator name key = true → .readWrite ≤ p.level marks name key) ∧
      (p.isCollaborator name key = false → p.level marks name key = .noAccess)) ∧
    (∀ key, p.isPrivate marks name = false →
      p.level marks .unnamed key ≤ p.level marks name key ∧
      (p.level marks .unnamed key < p.level marks name key ↔
        p.isCollaborator name key = true ∧ p.level marks .unnamed key < .readWrite) ∧
      (p.level marks .unnamed key < p.level marks name key →
        p.level marks name key = .readWrite)) ∧
    (∀ marks', (∀ text, text ∈ marks' ↔ text = name.text ∨ text ∈ marks) → ∀ key,
      p.level marks' name key ≤ p.level marks name key ∧
      ∀ other, other ≠ name → p.level marks' other key = p.level marks other key) := by
  refine ⟨fun key ↦ level_none_le hname, fun key other hadmin ↦ ?_,
    fun key hprivate hadmin ↦ ⟨?_, ?_⟩, fun key hpublic ↦ ⟨?_, ⟨?_, ?_⟩, ?_⟩,
    fun marks' hmarks key ↦ ⟨?_, fun other hother ↦ ?_⟩⟩
  · exact level_of_isAdmin hadmin
  · exact readWrite_le_of_isCollaborator hname
  · exact fun hcollab ↦ (verdict_iff hname).1 (.shutOut hadmin hcollab hprivate)
  · exact unnamed_le_level hname hpublic
  · intro h
    obtain ⟨hcollab, hlow, -⟩ := level_eq_readWrite_of_lt hname h
    exact ⟨hcollab, hlow⟩
  · rintro ⟨hcollab, hlow⟩
    exact hlow.trans_le (readWrite_le_of_isCollaborator hname hcollab)
  · exact fun h ↦ (level_eq_readWrite_of_lt hname h).2.2
  · exact level_le_of_subset hname fun text hmem ↦ (hmarks text).2 (.inr hmem)
  · refine level_congr (fun _ ↦ ?_) key
    have htext : other.text ≠ name.text := by
      intro htext
      cases other
      cases name
      exact hother (congrArg RepoName.mk htext)
    rw [hmarks, or_iff_right htext]

/-- On a private repository a collaborator may read and write, where everybody else is shut out. -/
theorem collaborator_reads_private_repository :
    let root : ClientKey := ⟨"ssh-ed25519", "Uk9PVA"⟩
    let alice : User := ⟨"alice", [⟨"ssh-ed25519", "QUxJ"⟩], .noAccess⟩
    let bob : User := ⟨"bob", [⟨"ssh-ed25519", "Qk9C"⟩], .readOnly⟩
    let p : Policy := ⟨.readOnly, true, [root], [alice, bob], [("x", ⟨true, ["alice"]⟩)]⟩
    RepoName.isEmpty ⟨"x"⟩ = false ∧ p.isPrivate [] ⟨"x"⟩ = true ∧
      .readWrite ≤ p.level [] ⟨"x"⟩ (some ⟨"ssh-ed25519", "QUxJ"⟩) ∧
      p.level [] ⟨"x"⟩ (some ⟨"ssh-ed25519", "Qk9C"⟩) = .noAccess ∧
      p.level [] ⟨"x"⟩ none = .noAccess ∧ p.level [] ⟨"y"⟩ (some root) = .admin := by
  intro root alice bob p
  have hname : RepoName.isEmpty ⟨"x"⟩ = false := by decide
  have hprivate : p.isPrivate [] ⟨"x"⟩ = true := by decide
  obtain ⟨-, hadmin, hshut, -, -⟩ := level_laws p [] hname
  exact ⟨hname, hprivate, (hshut _ hprivate (by decide)).1 (by decide),
    (hshut _ hprivate (by decide)).2 (by decide), (hshut _ hprivate (by decide)).2 (by decide),
    hadmin (some root) ⟨"y"⟩ (by decide)⟩

end Policy

end GitGateway
