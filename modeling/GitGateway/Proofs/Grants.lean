import GitGateway.Proofs.Levels
import GitGateway.Proofs.Settings

/-!
# Grants

A change of the access settings **adds grants** if it only raises levels, adds keys, users and
collaborators, and no longer calls repositories private; the order of the users does not count.
What such a change can take away is the place of a key's first user: a key that several users hold
stands for the first of them, and a grant to another one may put that one first.  So what a new
policy gives an identity has to **cover** what the old one gave it, and that is all
(`forall_level_le_iff`); it does where the users who hold the key are one
(`AddsGrants.covers_of_isUnshared`).
-/

namespace GitGateway

/-- A user with more grants. -/
structure UserSettings.AddsGrants (u u' : UserSettings) : Prop where
  name : u'.name = u.name
  keys : u.keys ⊆ u'.keys
  access : u.access ≤ u'.access

namespace AccessSettings

/-- The settings of a repository; without any, it is not private and has no collaborators. -/
def about (a : AccessSettings) (name : String) : RepoSettings := (a.repos.lookup name).getD {}

/-- A change that only adds grants: it raises the anonymous level or a user's, adds an
administrator's key, a user's key, a user or a collaborator, or no longer calls a repository
private. -/
structure AddsGrants (a a' : AccessSettings) : Prop where
  anonymous : a.anonymous ≤ a'.anonymous
  adminKeys : a.adminKeys ⊆ a'.adminKeys
  users : ∀ u ∈ a.users, ∃ u' ∈ a'.users, u.AddsGrants u'
  collaborators : ∀ name, (a.about name).collaborators ⊆ (a'.about name).collaborators
  isPrivate : ∀ name, (a'.about name).isPrivate = true → (a.about name).isPrivate = true

/-- In another order the same users are there. -/
theorem AddsGrants.of_perm (a : AccessSettings) {users users' : List UserSettings}
    (h : users.Perm users') : AddsGrants { a with users := users } { a with users := users' } where
  anonymous := le_rfl
  adminKeys := List.Subset.refl _
  users := fun u hu ↦ ⟨u, h.mem_iff.1 hu, rfl, List.Subset.refl _, le_rfl⟩
  collaborators := fun _ ↦ List.Subset.refl _
  isPrivate := fun _ ↦ id

end AccessSettings

namespace Policy

open AccessLevel

variable {p p' : Policy} {a a' : AccessSettings} {key : Option ClientKey} {name : RepoName}

/-- What a policy gives an identity covers what another one does: it is an administrator's, or the
user whom it stands for has at least the standing of the one before and collaborates wherever that
one did. -/
def Covers (p' p : Policy) (key : Option ClientKey) : Prop :=
  p'.isAdmin key = true ∨ p.standing key ≤ p'.standing key ∧ ∀ name, name.isEmpty = false →
    p.isCollaborator name key = true → p'.isCollaborator name key = true

/-- The users who hold the key of an identity are one. -/
def IsUnshared (p : Policy) (key : Option ClientKey) : Prop :=
  ∀ k ∈ key, ∀ u ∈ p.users, ∀ v ∈ p.users, k ∈ u.keys → k ∈ v.keys → u = v

/-! ## From settings to policies -/

theorem configuredPrivate_eq (h : ofSettings a = .ok p) (name : RepoName) :
    p.configuredPrivate name = (a.about name.text).isPrivate := by
  obtain ⟨-, -, -, -, hrepos⟩ := ofSettings_eq_ok_iff.1 h
  rw [configuredPrivate, settingsOf, hrepos, AccessSettings.about]
  cases a.repos.lookup name.text <;> rfl

theorem collaborates_iff (h : ofSettings a = .ok p) {u : User} :
    p.collaborates name u = true ↔ u.name ∈ (a.about name.text).collaborators := by
  obtain ⟨-, -, -, -, hrepos⟩ := ofSettings_eq_ok_iff.1 h
  rw [collaborates, settingsOf, hrepos, AccessSettings.about]
  cases a.repos.lookup name.text <;> simp

/-- What a change that only adds grants does to the policy. -/
structure AddsGrants (p p' : Policy) : Prop where
  anonymous : p.anonymous ≤ p'.anonymous
  isAdmin : ∀ key, p.isAdmin key = true → p'.isAdmin key = true
  users : ∀ u ∈ p.users, ∃ u' ∈ p'.users, u'.name = u.name ∧ u.keys ⊆ u'.keys ∧
    u.access ≤ u'.access
  collaborates : ∀ name u u', u'.name = u.name → p.collaborates name u = true →
    p'.collaborates name u' = true
  configuredPrivate : ∀ name, p'.configuredPrivate name = true → p.configuredPrivate name = true

theorem AddsGrants.of_settings (hgrants : a.AddsGrants a') (h : ofSettings a = .ok p)
    (h' : ofSettings a' = .ok p') : p.AddsGrants p' := by
  obtain ⟨hadmins, husers, hanonymous, -, -⟩ := ofSettings_eq_ok_iff.1 h
  obtain ⟨hadmins', husers', hanonymous', -, -⟩ := ofSettings_eq_ok_iff.1 h'
  refine ⟨?_, fun key hkey ↦ ?_, fun v hv ↦ ?_, fun name u u' hname hcollab ↦ ?_,
    fun name hprivate ↦ ?_⟩
  · rw [hanonymous, hanonymous']
    exact hgrants.anonymous
  · obtain ⟨k, hk, hmem⟩ := isAdmin_iff.1 hkey
    obtain ⟨line, hline, hread⟩ := (mem_of_readKeys hadmins).1 hmem
    exact isAdmin_iff.2 ⟨k, hk, (mem_of_readKeys hadmins').2
      ⟨line, hgrants.adminKeys hline, hread⟩⟩
  · obtain ⟨u, hu, hread⟩ := (mem_of_readUsers husers).1 hv
    obtain ⟨u', hu', hmore⟩ := hgrants.users u hu
    obtain ⟨keys', hkeys'⟩ := exists_readUsers_iff.1 ⟨_, husers'⟩ u' hu'
    refine ⟨⟨u'.name, keys', u'.access⟩, (mem_of_readUsers husers').2 ⟨u', hu', rfl, hkeys', rfl⟩,
      hmore.name.trans hread.name.symm, fun k hk ↦ ?_, hread.access ▸ hmore.access⟩
    obtain ⟨line, hline, hk⟩ := (mem_of_readKeys hread.keys).1 hk
    exact (mem_of_readKeys hkeys').2 ⟨line, hmore.keys hline, hk⟩
  · rw [collaborates_iff h] at hcollab
    rw [collaborates_iff h', hname]
    exact hgrants.collaborators _ hcollab
  · rw [configuredPrivate_eq h'] at hprivate
    rw [configuredPrivate_eq h]
    exact hgrants.isPrivate _ hprivate

/-! ## First users -/

/-- Where the users who hold a key are one, that one is the first. -/
theorem userOf_eq_some (k : ClientKey) (h : p.IsUnshared (some k)) {u : User} (hu : u ∈ p.users)
    (hk : k ∈ u.keys) : p.userOf k = some u := by
  cases hfirst : p.userOf k with
  | none =>
    have hnone := List.find?_eq_none.1 hfirst u hu
    exact absurd (List.contains_iff_mem.2 hk) hnone
  | some v =>
    obtain ⟨hv, hkv⟩ := mem_of_userOf hfirst
    exact congrArg some (h k rfl v hv u hu hkv hk)

/-! ## Levels -/

theorem eq_unnamed_of_isEmpty (h : name.isEmpty = true) : name = .unnamed := by
  cases name
  exact congrArg RepoName.mk (eq_of_beq h)

namespace AddsGrants

variable (hgrants : p.AddsGrants p')
include hgrants

theorem isAdmin_eq_false (h : p'.isAdmin key = false) : p.isAdmin key = false :=
  Bool.eq_false_iff.2 fun hadmin ↦ Bool.eq_false_iff.1 h (hgrants.isAdmin key hadmin)

theorem isPrivate {marks : List String} (h : p'.isPrivate marks name = true) :
    p.isPrivate marks name = true := by
  rw [Policy.isPrivate, Bool.or_eq_true] at h ⊢
  exact h.imp_left (hgrants.configuredPrivate name)

theorem level_le (hcovers : p'.Covers p key) (marks : List String) (name : RepoName) :
    p.level marks name key ≤ p'.level marks name key := by
  cases hadmin' : p'.isAdmin key with
  | true =>
    rw [level_of_isAdmin hadmin']
    exact le_admin _
  | false =>
    have hadmin := hgrants.isAdmin_eq_false hadmin'
    obtain ⟨hstanding, hkept⟩ := hcovers.resolve_left (Bool.eq_false_iff.1 hadmin')
    cases hname : name.isEmpty with
    | true =>
      rw [eq_unnamed_of_isEmpty hname, level_unnamed, level_unnamed, hadmin, hadmin']
      exact hstanding
    | false =>
      have hcollab (h : p'.isCollaborator name key = false) : p.isCollaborator name key = false :=
        Bool.eq_false_iff.2 fun hcollab ↦ Bool.eq_false_iff.1 h (hkept name hname hcollab)
      generalize hl : p'.level marks name key = l
      cases (verdict_iff hname).2 hl with
      | admin => exact le_admin _
      | collaborator => exact (level_le_max hname hadmin).trans (max_le_max hstanding le_rfl)
      | shutOut _ hnot hprivate =>
        rw [(verdict_iff hname).1 (.shutOut hadmin (hcollab hnot) (hgrants.isPrivate hprivate))]
      | standing _ hnot => exact (level_le_standing hname hadmin (hcollab hnot)).trans hstanding

/-- Levels grow on all repositories, whatever marks they carry, exactly if the new policy covers the
old one. -/
theorem forall_level_le_iff :
    (∀ marks name, p.level marks name key ≤ p'.level marks name key) ↔ p'.Covers p key := by
  refine ⟨fun h ↦ ?_, hgrants.level_le⟩
  cases hadmin' : p'.isAdmin key with
  | true => exact .inl hadmin'
  | false =>
    have hadmin := hgrants.isAdmin_eq_false hadmin'
    refine .inr ⟨?_, fun name hname hcollab ↦ ?_⟩
    · have hlevel := h [] .unnamed
      rw [level_unnamed, level_unnamed, hadmin, hadmin'] at hlevel
      exact hlevel
    · -- with the mark on it, nobody but a collaborator has a level on the repository
      by_contra hnot
      have hprivate : p'.isPrivate [name.text] name = true := by simp [Policy.isPrivate]
      have hlevel := h [name.text] name
      rw [(verdict_iff hname).1 (.shutOut hadmin' (Bool.eq_false_iff.2 hnot) hprivate)] at hlevel
      have hlow := (readWrite_le_of_isCollaborator hname hcollab).trans hlevel
      exact absurd hlow (by decide)

theorem covers_of_isUnshared (h : p'.IsUnshared key) : p'.Covers p key := by
  refine .inr ?_
  rcases hfirst : key.bind p.userOf with _ | u
  · refine ⟨?_, fun name _ hcollab ↦ ?_⟩
    · have hstanding : p.standing key = p.anonymous := by rw [standing, hfirst, baseLevel]
      exact hstanding ▸ hgrants.anonymous.trans anonymous_le_standing
    · rw [isCollaborator, hfirst] at hcollab
      cases hcollab
  · obtain ⟨k, rfl, huser⟩ := Option.bind_eq_some_iff.1 hfirst
    obtain ⟨hu, hk⟩ := mem_of_userOf huser
    obtain ⟨u', hu', hname, hkeys, haccess⟩ := hgrants.users u hu
    have hfirst' : (some k).bind p'.userOf = some u' := userOf_eq_some k h hu' (hkeys hk)
    refine ⟨?_, fun name _ hcollab ↦ ?_⟩
    · rw [standing, hfirst, standing, hfirst']
      exact max_le_max haccess hgrants.anonymous
    · rw [isCollaborator, hfirst] at hcollab
      rw [isCollaborator, hfirst']
      exact hgrants.collaborates name u u' hname hcollab

end AddsGrants

/-! ## The main result -/

theorem check_of_perm {c : Config} {users : List UserSettings} (h : c.check = .ok ())
    (hperm : users.Perm c.access.users) :
    { c with access := { c.access with users } }.check = .ok () := by
  have haccess : Config.checkAccess c.access = .ok () :=
    (Config.check_with_access h c.access).symm.trans h
  rw [Config.check_with_access h, Config.checkAccess_eq_ok_iff]
  obtain ⟨hadmins, husers⟩ := Config.checkAccess_eq_ok_iff.1 haccess
  exact ⟨hadmins, fun u hu ↦ husers u (hperm.mem_iff.1 hu)⟩

theorem IsUnshared.of_perm {users : List UserSettings} (hunshared : p.IsUnshared key)
    (h : ofSettings a = .ok p) (h' : ofSettings { a with users } = .ok p')
    (hperm : users.Perm a.users) : p'.IsUnshared key := by
  obtain ⟨-, husers, -⟩ := ofSettings_eq_ok_iff.1 h
  obtain ⟨-, husers', -⟩ := ofSettings_eq_ok_iff.1 h'
  have hmem (v : User) (hv : v ∈ p'.users) : v ∈ p.users := by
    obtain ⟨u, hu, hread⟩ := (mem_of_readUsers husers').1 hv
    exact (mem_of_readUsers husers).2 ⟨u, hperm.mem_iff.1 hu, hread⟩
  exact fun k hk u hu v hv ↦ hunshared k hk u (hmem u hu) v (hmem v hv)

/-- **Grants.**  Between two valid configurations of which the second adds grants to the first, the
levels of an identity grow on all repositories exactly if the second policy covers the first one
for it, and they do for whom the users with its key are one.  A valid configuration stays valid if
its users are put in another order; the levels of an identity stay the same exactly if both policies
cover each other for it, and they do for whom the users with its key are one. -/
theorem grants_raise_levels_iff {c : Config} (h : c.check = .ok ()) :
    ∃ p, ofSettings c.access = .ok p ∧
      (∀ c' : Config, c'.check = .ok () → c.access.AddsGrants c'.access →
        ∃ p', ofSettings c'.access = .ok p' ∧ ∀ key,
          ((∀ marks name, p.level marks name key ≤ p'.level marks name key) ↔ p'.Covers p key) ∧
          (p'.IsUnshared key → ∀ marks name,
            p.level marks name key ≤ p'.level marks name key)) ∧
      (∀ users, users.Perm c.access.users →
        { c with access := { c.access with users } }.check = .ok () ∧
        ∃ p', ofSettings { c.access with users } = .ok p' ∧ ∀ key,
          ((∀ marks name, p'.level marks name key = p.level marks name key) ↔
            p.Covers p' key ∧ p'.Covers p key) ∧
          (p.IsUnshared key → ∀ marks name,
            p'.level marks name key = p.level marks name key)) := by
  obtain ⟨p, hp⟩ := Config.exists_policy_of_check h
  refine ⟨p, hp, fun c' h' hgrants ↦ ?_, fun users hperm ↦ ?_⟩
  · obtain ⟨p', hp'⟩ := Config.exists_policy_of_check h'
    have hgrants := AddsGrants.of_settings hgrants hp hp'
    exact ⟨p', hp', fun key ↦ ⟨hgrants.forall_level_le_iff, fun hunshared ↦
      hgrants.level_le (hgrants.covers_of_isUnshared hunshared)⟩⟩
  · have hcheck := check_of_perm h hperm
    obtain ⟨p', hp'⟩ := Config.exists_policy_of_check hcheck
    have hto := AddsGrants.of_settings (.of_perm c.access hperm.symm) hp hp'
    have hfro := AddsGrants.of_settings (.of_perm c.access hperm) hp' hp
    refine ⟨hcheck, p', hp', fun key ↦ ⟨⟨fun hsame ↦ ⟨?_, ?_⟩, ?_⟩, fun hunshared marks name ↦ ?_⟩⟩
    · exact hfro.forall_level_le_iff.1 fun marks name ↦ (hsame marks name).le
    · exact hto.forall_level_le_iff.1 fun marks name ↦ (hsame marks name).ge
    · rintro ⟨hcovers, hcovers'⟩ marks name
      exact le_antisymm (hfro.level_le hcovers marks name) (hto.level_le hcovers' marks name)
    · have hunshared' := hunshared.of_perm hp hp' hperm
      exact le_antisymm (hfro.level_le (hfro.covers_of_isUnshared hunshared) marks name)
        (hto.level_le (hto.covers_of_isUnshared hunshared') marks name)

/-! ### A closed gateway -/

/-- A configuration under which nobody may do anything without a key. -/
def closed (users : List UserSettings) (repos : List (String × RepoSettings)) : Config :=
  { dataPath := "/srv", access := { anonymous := .noAccess, users, repos } }

theorem check_closed {users : List UserSettings} {repos : List (String × RepoSettings)}
    (h : Config.checkAccess (closed users repos).access = .ok ()) :
    (closed users repos).check = .ok () :=
  (Config.check_with_access (c := { dataPath := "/srv" }) rfl _).trans h

theorem about_closed (users : List UserSettings) (name other : String) (r : RepoSettings) :
    (closed users [(other, r)]).access.about name = if name = other then r else {} := by
  by_cases h : name = other
  · subst h
    simp [closed, AccessSettings.about]
  · simp [closed, AccessSettings.about, List.lookup_cons, beq_eq_false_iff_ne.2 h, h]

/-- A user comes in with a key of his own and collaborates on a repository that is private no
longer. -/
theorem new_collaborator_raises_levels :
    let bob : UserSettings := ⟨"bob", ["ssh-ed25519 Qk9C"], .noAccess⟩
    let alice : UserSettings := ⟨"alice", ["ssh-ed25519 QUxJ"], .readOnly⟩
    let before := closed [bob] [("x", ⟨true, []⟩)]
    let after := closed [alice, bob] [("x", ⟨false, ["alice"]⟩)]
    before.check = .ok () ∧ after.check = .ok () ∧ before.access.AddsGrants after.access ∧
      ∃ p p', ofSettings before.access = .ok p ∧ ofSettings after.access = .ok p' ∧
        p.level [] ⟨"x"⟩ (some ⟨"ssh-ed25519", "QUxJ"⟩) = .noAccess ∧
        p'.level [] ⟨"x"⟩ (some ⟨"ssh-ed25519", "QUxJ"⟩) = .readWrite ∧
        ∀ marks name, p.level marks name (some ⟨"ssh-ed25519", "QUxJ"⟩) ≤
          p'.level marks name (some ⟨"ssh-ed25519", "QUxJ"⟩) := by
  intro bob alice before after
  have hbefore : before.check = .ok () := check_closed (by decide +kernel)
  have hafter : after.check = .ok () := check_closed (by decide +kernel)
  have hgrants : before.access.AddsGrants after.access := by
    refine ⟨le_rfl, List.Subset.refl _, fun u hu ↦ ⟨u, List.mem_cons_of_mem _ hu, rfl,
      List.Subset.refl _, le_rfl⟩, fun name ↦ ?_, fun name ↦ ?_⟩
    · rw [about_closed, about_closed]
      split <;> simp
    · rw [about_closed, about_closed]
      split <;> simp
  obtain ⟨p, hp, hgrow, -⟩ := grants_raise_levels_iff hbefore
  obtain ⟨p', hp', hlevels⟩ := hgrow after hafter hgrants
  have hpolicy : ofSettings before.access = .ok
      ⟨.noAccess, true, [], [⟨"bob", [⟨"ssh-ed25519", "Qk9C"⟩], .noAccess⟩],
        [("x", ⟨true, []⟩)]⟩ := by
    decide +kernel
  have hpolicy' : ofSettings after.access = .ok
      ⟨.noAccess, true, [], [⟨"alice", [⟨"ssh-ed25519", "QUxJ"⟩], .readOnly⟩,
        ⟨"bob", [⟨"ssh-ed25519", "Qk9C"⟩], .noAccess⟩], [("x", ⟨false, ["alice"]⟩)]⟩ := by
    decide +kernel
  obtain rfl := Except.ok.inj (hpolicy.symm.trans hp)
  obtain rfl := Except.ok.inj (hpolicy'.symm.trans hp')
  refine ⟨hbefore, hafter, hgrants, _, _, hp, hp', by decide, by decide, (hlevels _).2 ?_⟩
  intro k hk
  cases hk
  decide

/-- A second user with the key of the first takes its levels away if he is found first. -/
theorem shared_key_loses_levels :
    let alice : UserSettings := ⟨"alice", ["ssh-ed25519 S0VZ"], .noAccess⟩
    let bob : UserSettings := ⟨"bob", ["ssh-ed25519 S0VZ"], .readWrite⟩
    let before := closed [bob] []
    let after := closed [alice, bob] []
    let reordered := closed [bob, alice] []
    before.check = .ok () ∧ after.check = .ok () ∧ before.access.AddsGrants after.access ∧
      reordered.access.users.Perm after.access.users ∧
      ∃ p p' p'', ofSettings before.access = .ok p ∧ ofSettings after.access = .ok p' ∧
        ofSettings reordered.access = .ok p'' ∧
        p.level [] ⟨"x"⟩ (some ⟨"ssh-ed25519", "S0VZ"⟩) = .readWrite ∧
        p'.level [] ⟨"x"⟩ (some ⟨"ssh-ed25519", "S0VZ"⟩) = .noAccess ∧
        p''.level [] ⟨"x"⟩ (some ⟨"ssh-ed25519", "S0VZ"⟩) = .readWrite := by
  intro alice bob before after reordered
  have hbefore : before.check = .ok () := check_closed (by decide +kernel)
  have hafter : after.check = .ok () := check_closed (by decide +kernel)
  have hgrants : before.access.AddsGrants after.access :=
    ⟨le_rfl, List.Subset.refl _, fun u hu ↦ ⟨u, List.mem_cons_of_mem _ hu, rfl,
      List.Subset.refl _, le_rfl⟩, fun _ ↦ List.Subset.refl _, fun _ ↦ id⟩
  exact ⟨hbefore, hafter, hgrants, List.Perm.swap _ _ _,
    ⟨.noAccess, true, [], [⟨"bob", [⟨"ssh-ed25519", "S0VZ"⟩], .readWrite⟩], []⟩,
    ⟨.noAccess, true, [], [⟨"alice", [⟨"ssh-ed25519", "S0VZ"⟩], .noAccess⟩,
      ⟨"bob", [⟨"ssh-ed25519", "S0VZ"⟩], .readWrite⟩], []⟩,
    ⟨.noAccess, true, [], [⟨"bob", [⟨"ssh-ed25519", "S0VZ"⟩], .readWrite⟩,
      ⟨"alice", [⟨"ssh-ed25519", "S0VZ"⟩], .noAccess⟩], []⟩,
    by decide +kernel, by decide +kernel, by decide +kernel, by decide, by decide, by decide⟩

end Policy

end GitGateway
