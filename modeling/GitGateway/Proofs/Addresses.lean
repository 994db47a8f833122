import GitGateway.Chain.Standard
import GitGateway.Proofs.Courses
import GitGateway.Proofs.Names
import GitGateway.Proofs.Spellings
import GitGateway.Store

/-!
# Addresses

The **address** of a repository is the path that stands behind the host in its URL: a slash, and the
repository's directory.  Sanitizing the address of a name gives the name back
(`sanitize_address_sanitize`), although a name itself need not be one that sanitizing leaves alone:
it may end in a slash, a dot, or another `.git`.  So the address is what may be told to a client, and
the welcome screen tells it (`welcome_eq_append_address`).
-/

namespace GitGateway

open Handler

namespace RepoName

/-- The path of a repository in its URL. -/
def address (n : RepoName) : String := "/" ++ n.dirName

/-- The address of a sanitized name is read as that name. -/
theorem sanitize_address_sanitize (raw : String) :
    sanitize (sanitize raw).address = sanitize raw := by
  obtain ⟨up, down, hn, hdown⟩ := exists_dirName raw
  apply dirName_inj
  rw [address, hn]
  exact dirName_sanitize hdown

end RepoName

namespace Git

/-- What a git client sends for a path is read as a request for what the path stands for. -/
theorem ofWords_split_request (also : Char → Bool) (service : Service) (path : String) :
    Request.ofWords (CommandLine.split
      (service.program ++ " " ++ CommandLine.quote also path)) =
        .pack service (RepoName.sanitize path) := by
  obtain ⟨l, hwords, htext⟩ := CommandLine.exists_line_request also service path
  rw [← htext, CommandLine.split_text, hwords, Request.ofWords_program]

end Git

/-! ## The welcome screen -/

theorem Screen.lines_concat (ls : List String) (l : String) :
    Screen.lines (ls ++ [l]) = Screen.lines ls ++ (l ++ "\n") := by
  rw [lines, lines, List.map_append, String.join_append, List.map_singleton, String.join_cons,
    String.join_nil, String.append_empty]

/-- The welcome screen ends with the URL of the first repository. -/
theorem Screen.welcome_eq_append_address (title : String) (port : Nat) (n : RepoName)
    (rest : List RepoName) : ∃ front, Screen.welcome title port (n :: rest) =
      front ++ ("Clone with: git clone ssh://<host>:" ++ toString port ++ n.address ++ "\n") := by
  have hurl : "Clone with: git clone ssh://<host>:" ++ toString port ++ "/" ++ n.text ++ ".git" =
      "Clone with: git clone ssh://<host>:" ++ toString port ++ n.address := by
    simp only [RepoName.address, RepoName.dirName, RepoName.suffix, String.append_assoc]
  refine ⟨Screen.lines (["Welcome to " ++ title ++ "!", ""] ++ ("Repositories:" ::
    (n :: rest).map fun r ↦ "  " ++ r.text) ++ [""]), ?_⟩
  rw [← hurl, ← lines_concat, List.append_assoc _ [""]]
  rfl

variable {s s' : Session} {t : List Call} {names repos : List RepoName}

/-- A session reads only repositories of the list. -/
theorem subset_of_does_readable (h : Does (readable names) s t (.ok repos) s') :
    repos ⊆ names ∧ s' = s := by
  induction names generalizing t repos s' with
  | nil =>
    obtain ⟨-, hrepos, hs⟩ := does_pure_iff.1 h
    cases hrepos
    exact ⟨List.Subset.refl _, hs⟩
  | cons name rest ih =>
    rw [readable, does_get_bind_iff, does_call_bind_iff does_accessLevel_iff] at h
    obtain ⟨crash, -, hcrash, -⟩ | ⟨level, t', rfl, h⟩ := h
    · cases hcrash
    · obtain ⟨crash, -, hcrash⟩ | ⟨t₁, others, s₁, t₂, rfl, hothers, hend⟩ := does_bind_iff.1 h
      · cases hcrash
      · obtain ⟨hsub, rfl⟩ := ih hothers
        obtain ⟨-, hrepos, hs⟩ := does_pure_iff.1 hend
        cases hrepos
        refine ⟨?_, hs⟩
        split
        · exact List.cons_subset_cons name hsub
        · exact List.subset_cons_of_subset name hsub

/-- What a session is shown was listed. -/
theorem listed_of_does_readableRepositories (h : Does readableRepositories s t (.ok repos) s') :
    (∀ n ∈ repos, ∃ names, (⟨.list, .ok (.ok names)⟩ : Call) ∈ t ∧ n ∈ names) ∧ s' = s := by
  rw [readableRepositories, does_call_bind_iff does_list_iff] at h
  obtain ⟨crash, -, hcrash, -⟩ | ⟨answer, t', rfl, h⟩ := h
  · cases hcrash
  · cases answer with
    | error e =>
      obtain ⟨-, hrepos, hs⟩ := does_emit_return_iff.1 h
      cases hrepos
      exact ⟨List.forall_mem_nil _, hs⟩
    | ok names =>
      obtain ⟨hsub, hs⟩ := subset_of_does_readable h
      exact ⟨fun n hn ↦ ⟨names, List.mem_cons_self, hsub hn⟩, hs⟩

/-- The store lists names that arguments stand for. -/
theorem exists_raws_of_runs_list {store : Store} {answers : List (Sigma HostAsk.Answer)}
    {r : Except BackendError (List RepoName)} (h : Program.Runs store.list answers r) :
    ∃ raws : List String, r = .ok (raws.map RepoName.sanitize) := by
  obtain ⟨t₁, raws, t₂, -, -, hend⟩ := Program.runs_bind_iff.1 h
  obtain ⟨-, rfl⟩ := Program.runs_done_iff.1 hend
  exact ⟨raws, rfl⟩

/-- A session without a command is shown the welcome screen, with repositories that were listed. -/
theorem welcome_of_does {config : Config} {leave : Option Leave} (hcommand : s.command = [])
    (h : Does (Stage.welcome config).enter s t (.ok leave) s') :
    ∃ repos, (∀ n ∈ repos, ∃ names, (⟨.list, .ok (.ok names)⟩ : Call) ∈ t ∧ n ∈ names) ∧
      s' = (s.writeStdout (Text.Utf8.encode
        (Screen.welcome config.name (Stage.shownPort config) repos))).2.exit 0 := by
  obtain ⟨crash, -, hcrash⟩ | ⟨hwork, -⟩ := Chain.does_before_enter_iff.1 h
  · cases hcrash
  · rw [does_get_bind_iff, hcommand, List.isEmpty_nil, if_pos rfl] at hwork
    obtain ⟨crash, -, hcrash⟩ | ⟨t₁, repos, s₁, t₂, rfl, hrepos, hend⟩ := does_bind_iff.1 hwork
    · cases hcrash
    · obtain ⟨hlisted, rfl⟩ := listed_of_does_readableRepositories hrepos
      obtain ⟨rfl, hr⟩ := Program.runs_done_iff.1 hend
      cases hr
      rw [List.append_nil]
      exact ⟨repos, hlisted, rfl⟩

/-- **Addresses are those of the names.**  Whatever the raw argument was that a name stands for:

* a slash and the name's directory are sanitized to this very name, so a git client that is given
  them as a path asks for this name, whatever the service is and however it quotes;
* no other sanitized name has this directory;
* a session without a command is shown a screen whose last line is the URL of the first of its
  repositories, with a slash and this repository's directory behind the port; all of these
  repositories were listed, and the store lists only names that some arguments stand for. -/
theorem address_stands_for_name :
    (∀ raw, RepoName.sanitize ("/" ++ (RepoName.sanitize raw).dirName) = RepoName.sanitize raw) ∧
    (∀ raw (also : Char → Bool) service, Git.Request.ofWords (Git.CommandLine.split
      (service.program ++ " " ++
        Git.CommandLine.quote also ("/" ++ (RepoName.sanitize raw).dirName))) =
          .pack service (RepoName.sanitize raw)) ∧
    (∀ raw other, (RepoName.sanitize raw).dirName = (RepoName.sanitize other).dirName →
      RepoName.sanitize raw = RepoName.sanitize other) ∧
    (∀ title port n rest, ∃ front, Screen.welcome title port (n :: rest) = front ++
      ("Clone with: git clone ssh://<host>:" ++ toString port ++ ("/" ++ n.dirName) ++ "\n")) ∧
    (∀ (store : Store) answers r, Program.Runs store.list answers r →
      ∃ raws : List String, r = .ok (raws.map RepoName.sanitize)) ∧
    ∀ (config : Config) (s s' : Session) t leave, s.command = [] →
      Does (Stage.welcome config).enter s t (.ok leave) s' →
      ∃ repos, (∀ n ∈ repos, ∃ names, (⟨.list, .ok (.ok names)⟩ : Call) ∈ t ∧ n ∈ names) ∧
        s' = (s.writeStdout (Text.Utf8.encode
          (Screen.welcome config.name (Stage.shownPort config) repos))).2.exit 0 := by
  refine ⟨RepoName.sanitize_address_sanitize, fun raw also service ↦ ?_,
    fun raw other ↦ RepoName.dirName_inj, Screen.welcome_eq_append_address,
    fun store answers r ↦ exists_raws_of_runs_list,
    fun config s s' t leave ↦ welcome_of_does⟩
  rw [Git.ofWords_split_request]
  exact congrArg _ (RepoName.sanitize_address_sanitize raw)

/-- The name of a second suffix ends in the first one, and its address keeps both. -/
example : (RepoName.sanitize "a.git.git").text = "a.git" ∧
    (RepoName.sanitize "a.git.git").address = "/a.git.git" := by
  decide

end GitGateway
