import GitGateway.Config.Validate
import Mathlib.Tactic.SplitIfs

/-!
# Settings and their policies

Keys are read line by line and users one after the other, and the first fault ends the reading.  So
what was read is known by its members: a key comes from a line (`mem_of_readKeys`), a user from the
settings of one (`mem_of_readUsers`).  Validating settings reads all keys as well, and valid ones
have a policy (`Config.exists_policy_of_check`).
-/

namespace GitGateway

namespace Policy

variable {lines : List String} {ks : List ClientKey} {us : List UserSettings} {vs : List User}
variable {a : AccessSettings} {p : Policy}

theorem readKeys_cons_eq_ok_iff {line : String} : readKeys (line :: lines) = .ok ks ↔
    ∃ k rest, ClientKey.ofLine line = .ok k ∧ readKeys lines = .ok rest ∧ ks = k :: rest := by
  rw [readKeys]
  cases ClientKey.ofLine line with
  | error e => simp
  | ok k => cases readKeys lines <;> simp [Except.map, eq_comm]

/-- The keys that were read are those of the lines. -/
theorem mem_of_readKeys (h : readKeys lines = .ok ks) {k : ClientKey} :
    k ∈ ks ↔ ∃ line ∈ lines, ClientKey.ofLine line = .ok k := by
  induction lines generalizing ks with
  | nil =>
    cases h
    simp
  | cons line lines ih =>
    obtain ⟨k', rest, hk', hrest, rfl⟩ := readKeys_cons_eq_ok_iff.1 h
    simp only [List.mem_cons, exists_eq_or_imp, ih hrest, hk', Except.ok.injEq, eq_comm (a := k)]

/-- A user as the settings of one are read. -/
structure ReadsAs (u : UserSettings) (v : User) : Prop where
  name : v.name = u.name
  keys : readKeys u.keys = .ok v.keys
  access : v.access = u.access

theorem readUsers_cons_eq_ok_iff {u : UserSettings} : readUsers (u :: us) = .ok vs ↔
    ∃ v rest, ReadsAs u v ∧ readUsers us = .ok rest ∧ vs = v :: rest := by
  rw [readUsers]
  constructor
  · intro h
    cases hkeys : readKeys u.keys with
    | error e => simp [hkeys] at h
    | ok keys =>
      cases hrest : readUsers us with
      | error e => simp [hkeys, hrest, Except.map] at h
      | ok rest =>
        simp only [hkeys, hrest, Except.map, Except.ok.injEq] at h
        exact ⟨_, rest, ⟨rfl, hkeys, rfl⟩, rfl, h.symm⟩
  · rintro ⟨⟨name, keys, access⟩, rest, ⟨hname, hkeys, haccess⟩, hrest, rfl⟩
    subst hname haccess
    simp [hkeys, hrest, Except.map]

theorem exists_readUsers_iff : (∃ vs, readUsers us = .ok vs) ↔
    ∀ u ∈ us, ∃ ks, readKeys u.keys = .ok ks := by
  induction us with
  | nil => simp [readUsers]
  | cons u us ih =>
    simp only [readUsers_cons_eq_ok_iff, List.forall_mem_cons, ← ih]
    constructor
    · rintro ⟨_, v, rest, hv, hrest, rfl⟩
      exact ⟨⟨v.keys, hv.keys⟩, rest, hrest⟩
    · rintro ⟨⟨keys, hkeys⟩, rest, hrest⟩
      exact ⟨_, ⟨u.name, keys, u.access⟩, rest, ⟨rfl, hkeys, rfl⟩, hrest, rfl⟩

/-- Settings of a user are read in one way. -/
theorem ReadsAs.eq {u : UserSettings} {v v' : User} (hv : ReadsAs u v) (hv' : ReadsAs u v') :
    v = v' := by
  have hkeys : v.keys = v'.keys := Except.ok.inj (hv.keys.symm.trans hv'.keys)
  cases v
  cases v'
  simp only [User.mk.injEq]
  exact ⟨hv.name.trans hv'.name.symm, hkeys, hv.access.trans hv'.access.symm⟩

/-- The users that were read are those of the settings. -/
theorem mem_of_readUsers (h : readUsers us = .ok vs) {v : User} :
    v ∈ vs ↔ ∃ u ∈ us, ReadsAs u v := by
  induction us generalizing vs with
  | nil =>
    cases h
    simp
  | cons u us ih =>
    obtain ⟨v', rest, hv', hrest, rfl⟩ := readUsers_cons_eq_ok_iff.1 h
    have hunique : ReadsAs u v ↔ v = v' := ⟨fun hv ↦ hv.eq hv', by rintro rfl; exact hv'⟩
    simp only [List.mem_cons, ih hrest, exists_eq_or_imp, hunique]

theorem ofSettings_eq_ok_iff : ofSettings a = .ok p ↔ readKeys a.adminKeys = .ok p.admins ∧
    readUsers a.users = .ok p.users ∧ p.anonymous = a.anonymous ∧ p.keyless = a.keyless ∧
    p.repos = a.repos := by
  rw [ofSettings]
  constructor
  · intro h
    cases hadmins : readKeys a.adminKeys with
    | error e => simp [hadmins] at h
    | ok admins =>
      cases husers : readUsers a.users with
      | error e => simp [hadmins, husers, Except.map] at h
      | ok users =>
        simp only [hadmins, husers, Except.map, Except.ok.injEq] at h
        subst h
        exact ⟨rfl, rfl, rfl, rfl, rfl⟩
  · obtain ⟨anonymous, keyless, admins, users, repos⟩ := p
    rintro ⟨hadmins, husers, rfl, rfl, rfl⟩
    simp [hadmins, husers, Except.map]

/-- Settings have a policy exactly if all their keys can be read. -/
theorem exists_ofSettings_iff : (∃ p, ofSettings a = .ok p) ↔
    (∃ ks, readKeys a.adminKeys = .ok ks) ∧ ∀ u ∈ a.users, ∃ ks, readKeys u.keys = .ok ks := by
  rw [← exists_readUsers_iff]
  constructor
  · rintro ⟨p, h⟩
    obtain ⟨hadmins, husers, -⟩ := ofSettings_eq_ok_iff.1 h
    exact ⟨⟨_, hadmins⟩, _, husers⟩
  · rintro ⟨⟨admins, hadmins⟩, users, husers⟩
    exact ⟨⟨a.anonymous, a.keyless, admins, users, a.repos⟩,
      ofSettings_eq_ok_iff.2 ⟨hadmins, husers, rfl, rfl, rfl⟩⟩

end Policy

namespace Config

open Policy

theorem checkUser_eq_ok_iff {u : UserSettings} :
    checkUser u = .ok () ↔ u.name ≠ "" ∧ ∃ ks, readKeys u.keys = .ok ks := by
  rw [checkUser]
  by_cases hname : u.name = ""
  · simp [hname]
  · cases readKeys u.keys <;> simp [hname]

theorem checkUsers_eq_ok_iff {us : List UserSettings} :
    checkUsers us = .ok () ↔ ∀ u ∈ us, checkUser u = .ok () := by
  induction us with
  | nil => simp [checkUsers]
  | cons u us ih =>
    rw [checkUsers, List.forall_mem_cons, ← ih]
    cases checkUser u <;> simp

theorem checkAccess_eq_ok_iff {a : AccessSettings} :
    checkAccess a = .ok () ↔ (∃ ks, readKeys a.adminKeys = .ok ks) ∧ ∀ u ∈ a.users,
      checkUser u = .ok () := by
  rw [checkAccess, ← checkUsers_eq_ok_iff]
  cases readKeys a.adminKeys <;> simp

/-- What is checked of the access settings depends on nothing else. -/
theorem check_with_access {c : Config} (h : c.check = .ok ()) (a : AccessSettings) :
    { c with access := a }.check = checkAccess a := by
  unfold check at h ⊢
  dsimp only
  split_ifs at h ⊢
  rfl

theorem exists_policy_of_check {c : Config} (h : c.check = .ok ()) :
    ∃ p, ofSettings c.access = .ok p := by
  have haccess : checkAccess c.access = .ok () := (check_with_access h c.access).symm.trans h
  obtain ⟨hadmins, husers⟩ := checkAccess_eq_ok_iff.1 haccess
  exact exists_ofSettings_iff.2 ⟨hadmins, fun u hu ↦ (checkUser_eq_ok_iff.1 (husers u hu)).2⟩

end Config

end GitGateway
