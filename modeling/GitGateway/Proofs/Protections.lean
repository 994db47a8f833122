import GitGateway.Config.Decode
import GitGateway.Proofs.Levels
import GitGateway.Proofs.Settings

/-!
# What a private entry protects

In the table of repositories that a document gives no name stands twice
(`Config.Decode.yields_repos`), so every entry is what its name is looked up to.  Clients ask for
sanitized names, but the names of the table stay as they are written.  So a private entry under a
sanitized name shuts out everybody who is an **outsider** to it, and one under any other name is
never looked up for the repository that its name is sanitized to.
-/

namespace GitGateway

/-! ## Tables -/

namespace Config.Decode

variable {α β : Type} {P : α → Prop} {Q : β → Prop}

/-- Whatever value a reading gives, from whatever state, has a property. -/
def Yields (x : Decode α) (P : α → Prop) : Prop := ∀ n, ∀ r ∈ x.run n, P r.1

theorem Yields.pure {a : α} (h : P a) : Yields (pure a) P := by
  intro n r hr
  cases hr
  exact h

theorem Yields.bind {x : Decode β} {f : β → Decode α} (hx : Yields x Q)
    (hf : ∀ b, Q b → Yields (f b) P) : Yields (x >>= f) P := by
  intro n r hr
  obtain ⟨s, hs, hr⟩ := Option.mem_bind_iff.1 hr
  exact hf s.1 (hx n s hs) s.2 r hr

/-- What is read last decides, if it has the property whatever was read before. -/
theorem Yields.of_bind {x : Decode β} {f : β → Decode α} (hf : ∀ b, Yields (f b) P) :
    Yields (x >>= f) P :=
  Yields.bind (Q := fun _ ↦ True) (fun _ _ _ ↦ trivial) fun b _ ↦ hf b

theorem yields_field {es : List (String × Yaml.Node)} {key : String} {read : Yaml.Node → Decode α}
    {default : α} (hread : ∀ n, Yields (read n) P) (hdefault : P default) :
    Yields (field es key read default) P := by
  rw [field]
  cases es.lookup key with
  | none => exact .pure hdefault
  | some n => exact hread n

theorem nodup_insert {table : List (String × α)} (h : (table.map (·.1)).Nodup) (key : String)
    (value : α) : ((insert table key value).map (·.1)).Nodup := by
  rw [insert, List.map_append, List.map_singleton, List.nodup_append]
  refine ⟨h.sublist (List.filter_sublist.map _), List.pairwise_singleton _ key, fun a ha b hb ↦ ?_⟩
  obtain ⟨e, he, rfl⟩ := List.mem_map.1 ha
  obtain rfl := List.mem_singleton.1 hb
  exact bne_iff_ne.1 (List.mem_filter.1 he).2

theorem nodup_foldl_insert (es : List (String × α)) {table : List (String × α)}
    (h : (table.map (·.1)).Nodup) :
    ((es.foldl (fun table e ↦ insert table e.1 e.2) table).map (·.1)).Nodup := by
  induction es generalizing table with
  | nil => exact h
  | cons e es ih => exact ih (nodup_insert h e.1 e.2)

theorem yields_repos (d : Yaml.Document) (n : Yaml.Node) :
    Yields (repos d n) fun table ↦ (table.map (·.1)).Nodup :=
  .of_bind fun _ ↦ .of_bind fun es ↦ .pure (nodup_foldl_insert es List.nodup_nil)

theorem yields_access (d : Yaml.Document) (n : Yaml.Node) :
    Yields (access d n) fun a ↦ (a.repos.map (·.1)).Nodup :=
  .of_bind fun _ ↦ .of_bind fun _ ↦ .of_bind fun _ ↦ .of_bind fun _ ↦ .of_bind fun _ ↦
    .bind (yields_field (yields_repos d) List.nodup_nil) fun _ h ↦ .pure h

theorem yields_config (d : Yaml.Document) (n : Yaml.Node) :
    Yields (config d n) fun c ↦ (c.access.repos.map (·.1)).Nodup :=
  .of_bind fun _ ↦ .of_bind fun _ ↦ .of_bind fun _ ↦ .of_bind fun _ ↦ .of_bind fun _ ↦
    .bind (yields_field (yields_access d) List.nodup_nil) fun _ h ↦ .pure h

end Config.Decode

namespace Config

variable {yaml : String} {c : Config}

theorem ofYaml_eq_ok_iff : ofYaml yaml = .ok c ↔ decode? yaml = some c ∧ check c = .ok () := by
  rw [ofYaml]
  cases decode? yaml with
  | none => simp
  | some c' =>
    simp only [Option.some.injEq]
    constructor
    · intro h
      cases hcheck : check c' with
      | error e => simp [hcheck, Except.map] at h
      | ok _ =>
        simp only [hcheck, Except.map, Except.ok.injEq] at h
        subst h
        exact ⟨rfl, hcheck⟩
    · rintro ⟨rfl, hcheck⟩
      rw [hcheck]
      rfl

theorem nodup_repos_of_decode? (h : decode? yaml = some c) :
    (c.access.repos.map (·.1)).Nodup := by
  obtain ⟨d, -, h⟩ := Option.bind_eq_some_iff.1 h
  obtain ⟨r, hr, h⟩ := Option.bind_eq_some_iff.1 h
  cases h
  exact Decode.yields_config d d.root 0 r hr

end Config

namespace Policy

variable {p : Policy} {marks : List String} {name : RepoName} {key : Option ClientKey}

theorem lookup_filter_ne {α : Type} {written text : String} (h : written ≠ text)
    (table : List (String × α)) :
    (table.filter (·.1 != written)).lookup text = table.lookup text := by
  induction table with
  | nil => rfl
  | cons e es ih =>
    obtain ⟨other, value⟩ := e
    by_cases hother : other = written
    · subst hother
      rw [List.filter_cons_of_neg (by simp), ih, List.lookup_cons, beq_eq_false_iff_ne.2 h.symm]
    · rw [List.filter_cons_of_pos (by simpa using hother), List.lookup_cons, List.lookup_cons, ih]

theorem settingsOf_eq_some (h : (p.repos.map (·.1)).Nodup) {entry : String × RepoSettings}
    (hmem : entry ∈ p.repos) (hname : entry.1 = name.text) : p.settingsOf name = some entry.2 := by
  obtain ⟨before, after, hsplit⟩ := List.append_of_mem hmem
  rw [settingsOf, List.lookup_eq_some_iff]
  refine ⟨before, after, hname ▸ hsplit, fun e he ↦ ?_⟩
  rw [hsplit, List.map_append, List.map_cons, List.nodup_append] at h
  exact bne_iff_ne.2 (hname ▸ (h.2.2 _ (List.mem_map_of_mem he) _ List.mem_cons_self).symm)

/-! ## Outsiders -/

/-- An identity to which a private entry gives nothing: its key, if it has one, is no
administrator's, and no user who holds it is a collaborator. -/
def IsOutsider (p : Policy) (entry : RepoSettings) (key : Option ClientKey) : Prop :=
  ∀ k ∈ key, k ∉ p.admins ∧ ∀ u ∈ p.users, k ∈ u.keys → u.name ∉ entry.collaborators

variable {entry : RepoSettings}

theorem IsOutsider.isAdmin_eq_false (h : p.IsOutsider entry key) : p.isAdmin key = false := by
  by_contra hadmin
  obtain ⟨k, hk, hmem⟩ := isAdmin_iff.1 (Bool.eq_true_of_not_eq_false hadmin)
  exact (h k hk).1 hmem

theorem IsOutsider.isCollaborator_eq_false (h : p.IsOutsider entry key)
    (hentry : p.settingsOf name = some entry) : p.isCollaborator name key = false := by
  by_contra hcollab
  obtain ⟨u, hu, hcollab⟩ := (Option.any_eq_true _ _).1 (Bool.eq_true_of_not_eq_false hcollab)
  obtain ⟨k, hk, huser⟩ := Option.bind_eq_some_iff.1 hu
  obtain ⟨hmem, hkey⟩ := mem_of_userOf huser
  rw [collaborates, hentry] at hcollab
  exact (h k hk).2 u hmem hkey (List.contains_iff_mem.1 hcollab)

theorem level_of_isOutsider (hname : name.isEmpty = false)
    (hentry : p.settingsOf name = some entry) (hprivate : entry.isPrivate = true)
    (h : p.IsOutsider entry key) : p.level marks name key = .noAccess := by
  refine (verdict_iff hname).1 (.shutOut h.isAdmin_eq_false (h.isCollaborator_eq_false hentry) ?_)
  rw [isPrivate, configuredPrivate, hentry, Option.any_some, hprivate, Bool.true_or]

/-! ## Entries that are not looked up -/

/-- A policy without the settings under one name. -/
def without (p : Policy) (written : String) : Policy :=
  { p with repos := p.repos.filter (·.1 != written) }

theorem settingsOf_without {written : String} (h : written ≠ name.text) :
    (p.without written).settingsOf name = p.settingsOf name :=
  lookup_filter_ne h p.repos

/-- The settings under a name count for nothing else. -/
theorem level_without {written : String} (h : written ≠ name.text) :
    (p.without written).level marks name key = p.level marks name key := by
  have hsettings := settingsOf_without (p := p) h
  have hprivate : (p.without written).isPrivate marks name = p.isPrivate marks name := by
    rw [isPrivate, isPrivate, configuredPrivate, configuredPrivate, hsettings]
  have hcollab : (p.without written).collaborates name = p.collaborates name := by
    funext u
    rw [collaborates, collaborates, hsettings]
  rw [level, level, hprivate, hcollab]
  rfl

/-- **Private entries.**  In a valid configuration, a private entry under a sanitized name shuts out
its outsiders from the repository, by whatever argument they ask for it and whatever marks there
are.  A private entry under any other name protects nothing that its name is sanitized to: every
level on that repository is the one without the entry. -/
theorem private_entry_protects_sanitized_name {yaml : String} {c : Config}
    (h : Config.ofYaml yaml = .ok c) :
    ∃ p, ofSettings c.access = .ok p ∧ ∀ entry ∈ c.access.repos, entry.2.isPrivate = true →
      (RepoName.sanitize entry.1).isEmpty = false →
        ∀ raw, RepoName.sanitize raw = RepoName.sanitize entry.1 →
          (entry.1 = (RepoName.sanitize entry.1).text → ∀ marks key, p.IsOutsider entry.2 key →
            p.level marks (.sanitize raw) key = .noAccess) ∧
          (entry.1 ≠ (RepoName.sanitize entry.1).text → ∀ marks key,
            p.level marks (.sanitize raw) key =
              (p.without entry.1).level marks (.sanitize raw) key) := by
  obtain ⟨hdecode, hcheck⟩ := Config.ofYaml_eq_ok_iff.1 h
  obtain ⟨p, hp⟩ := Config.exists_policy_of_check hcheck
  obtain ⟨-, -, -, -, hrepos⟩ := ofSettings_eq_ok_iff.1 hp
  refine ⟨p, hp, fun entry hentry hprivate hname raw hraw ↦ ⟨fun hwritten ↦ ?_, fun hwritten ↦ ?_⟩⟩
  · intro marks key houtsider
    have hnodup : (p.repos.map (·.1)).Nodup := by
      rw [hrepos]
      exact Config.nodup_repos_of_decode? hdecode
    rw [hraw]
    exact level_of_isOutsider hname
      (settingsOf_eq_some hnodup (hrepos ▸ hentry) hwritten) hprivate houtsider
  · intro marks key
    rw [hraw, level_without hwritten]

/-! ### A configuration with one entry -/

/-- A configuration with one private entry. -/
def onePrivate (written : String) : Config :=
  { dataPath := "/srv", access := { repos := [(written, ⟨true, []⟩)] } }

/-- The policy of such a configuration lets everybody read what is not private. -/
theorem ofSettings_onePrivate (written : String) :
    ofSettings (onePrivate written).access =
      .ok ⟨.readOnly, true, [], [], [(written, ⟨true, []⟩)]⟩ := rfl

/-- An entry under the name that clients ask for shuts out those without a key. -/
theorem anonymous_shut_out_by_private_entry :
    let yaml := "data_path: /srv\naccess:\n  repos:\n    secret:\n      private: true\n"
    Config.ofYaml yaml = .ok (onePrivate "secret") ∧
      ∃ p, ofSettings (onePrivate "secret").access = .ok p ∧
        RepoName.sanitize "/secret.git" = RepoName.sanitize "secret" ∧
        p.level [] (.sanitize "/secret.git") none = .noAccess := by
  intro yaml
  have hyaml : Config.ofYaml yaml = .ok (onePrivate "secret") :=
    Config.ofYaml_eq_ok_iff.2 ⟨by decide +kernel, rfl⟩
  obtain ⟨p, hp, hprotects⟩ := private_entry_protects_sanitized_name hyaml
  have hraw : RepoName.sanitize "/secret.git" = RepoName.sanitize "secret" := by decide
  obtain ⟨hshut, -⟩ := hprotects ("secret", ⟨true, []⟩) (by decide) rfl (by decide) _ hraw
  exact ⟨hyaml, p, hp, hraw, hshut (by decide) [] none fun _ hk ↦ nomatch hk⟩

/-- An entry that is written with the suffix of the directory shuts out nobody. -/
theorem suffixed_private_entry_shuts_out_nobody :
    let yaml := "data_path: /srv\naccess:\n  repos:\n    secret.git:\n      private: true\n"
    Config.ofYaml yaml = .ok (onePrivate "secret.git") ∧
      ∃ p, ofSettings (onePrivate "secret.git").access = .ok p ∧
        (RepoName.sanitize "secret.git").isEmpty = false ∧ p.IsOutsider ⟨true, []⟩ none ∧
        p.level [] (.sanitize "secret.git") none = .readOnly := by
  intro yaml
  have hyaml : Config.ofYaml yaml = .ok (onePrivate "secret.git") :=
    Config.ofYaml_eq_ok_iff.2 ⟨by decide +kernel, rfl⟩
  exact ⟨hyaml, _, ofSettings_onePrivate _, by decide, fun _ hk ↦ (nomatch hk), by decide⟩

end Policy

end GitGateway
