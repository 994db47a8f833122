import GitGateway.Proofs.Guards

/-!
# Crews

A **crew** is any number of sessions at work on one host with one store and one pack service.  It
moves in single steps, in any order: a session asks its next question, the host answers one question
of the work on it, or the session goes on with the answer.  The host gives the lock of creations to
one session at a time.

Three invariants hold in every state.  What a session was answered by the host is true knowledge of
its repository, whatever the others have done since (`Knowledge.IsTrue`); its work on a question is
guarded by that knowledge; and a repository that is there was there from the start or was made once
(`Crew.Sound`).  Each step keeps them, so each schedule does (`Sound.moves`, `Sound.run`).

A session that moves alone does what it does on the host alone (`exists_run_alone`), and no session
is ever kept from its end for good (`Sound.exists_isOver`).
-/

namespace GitGateway

open Path

/-! ## True knowledge -/

namespace HostCall

/-- Whether the git program made the repository at a path. -/
def foundsAt (path : String) : HostCall → Bool
  | ⟨.runGit call, r⟩ => call == Store.initCall path && (Store.judgeInit r).isOk
  | _ => false

theorem foundsAt_iff {path : String} {c : HostCall} : c.foundsAt path = true ↔
    ∃ r, c = ⟨.runGit (Store.initCall path), r⟩ ∧ (Store.judgeInit r).isOk = true := by
  constructor
  · obtain ⟨q, answer⟩ := c
    cases q with
    | runGit call =>
      intro h
      obtain ⟨hcall, hr⟩ := Bool.and_eq_true_iff.1 h
      obtain rfl := eq_of_beq hcall
      exact ⟨answer, rfl, hr⟩
    | _ => exact nofun
  · rintro ⟨r, rfl, hr⟩
    exact Bool.and_eq_true_iff.2 ⟨beq_self_eq_true _, hr⟩

end HostCall

theorem Store.initCall_inj {p p' : String} (h : initCall p = initCall p') : p = p' := by
  simpa [initCall] using h

namespace Knowledge

variable {k : Knowledge} {target : Option RepoPath} {d d' : Disk} {holds : Prop}

/-- What is known is so, for a session that holds the lock or does not. -/
structure IsTrue (k : Knowledge) (target : Option RepoPath) (d : Disk) (holds : Prop) : Prop where
  holds_iff : k.holds = true ↔ holds
  bare : ∀ v, k.bare? = some v → Store.isBareAt d target = v
  locked : k.bare? = some false → k.holds = true
  parent : k.hasParent = true → ∀ path, target = some path → Store.HasParent d path.text

/-- Knowledge stays true where the repository is spared, and is not made while it is known that
nothing is there. -/
theorem IsTrue.spared {q : HostAsk} (h : k.IsTrue target d holds)
    (hspares : ∀ path, target = some path → Store.Spares (q.Inits path) path.text d d')
    (hmade : k.bare? = some false → ∀ path, target = some path → ¬ q.Inits path) :
    k.IsTrue target d' holds where
  holds_iff := h.holds_iff
  bare v hv := by
    have hbefore := h.bare v hv
    cases target with
    | none => exact hbefore
    | some path =>
      have hspared := hspares path rfl
      cases v with
      | true => exact hspared.bare hbefore
      | false => exact (hspared.isBare_eq (hmade hv path rfl)).trans hbefore
  locked := h.locked
  parent hparent path htarget := (hspares path htarget).parent (h.parent hparent path htarget)

end Knowledge

section Answers

variable {σ : Type} {m : Machine σ} {pack : Git.PackService} {paths : RepoPath → Prop}
variable {inv : σ → Prop} {x x' : σ} {q : HostAsk} {answer : q.Answer} {k : Knowledge}
variable {target : Option RepoPath} {creates holds : Prop}
variable (hm : m.Founds pack paths inv) (hx : inv x) (h : m.answer q x = (answer, x'))
variable (hpaths : ∀ path, target = some path → paths path)
variable (htrue : k.IsTrue target (m.disk x) holds) (hallows : k.Allows pack target creates q)

include hm hx h hpaths htrue hallows

/-- What is allowed spares all repositories, and makes one only if it asks for it. -/
theorem Machine.Founds.spares : inv x' ∧ ∀ path, paths path →
    Store.Spares (q.Inits path) path.text (m.disk x) (m.disk x') := by
  have hquiet : q.IsQuiet → inv x' ∧ ∀ path, paths path →
      Store.Spares (q.Inits path) path.text (m.disk x) (m.disk x') := by
    intro hq
    obtain ⟨hx', hdisk⟩ := hm.looks hq hx h
    rw [hdisk]
    exact ⟨hx', fun path _ ↦ .refl _ _ _⟩
  cases q with
  | emit | disk | lock | unlock | marks => exact hquiet trivial
  | makeDirAll above =>
    obtain ⟨path, htarget, habove⟩ := hallows
    exact hm.works (hpaths path htarget) (.makeParent habove) hx h
  | runGit call =>
    obtain ⟨-, -, -, path, htarget, rfl, hparent⟩ := hallows
    refine hm.works (hpaths path htarget) (.init ?_) hx h
    rcases hparent with hparent | hnone
    · exact htrue.parent hparent path htarget
    · exact fun above habove ↦ nomatch hnone.symm.trans habove
  | exchange call io =>
    obtain ⟨hbare, service, path, htarget, rfl⟩ := hallows
    refine hm.works (hpaths path htarget) (.exchange service io ?_) hx h
    have hthere := htrue.bare true hbare
    rwa [htarget] at hthere
  | touch | mark => exact hallows.elim

/-- A repository is there afterwards if it was, or if the git program has just made it, which it
does only where it was not. -/
theorem Machine.Founds.isBare_eq : ∀ path, paths path →
    Store.isBare (m.disk x') path.text =
        (Store.isBare (m.disk x) path.text || HostCall.foundsAt path.text ⟨q, answer⟩) ∧
      (HostCall.foundsAt path.text ⟨q, answer⟩ = true →
        Store.isBare (m.disk x) path.text = false) := by
  intro path hpath
  by_cases hq : q.Inits path
  · obtain rfl := hq
    obtain ⟨-, -, hbare, other, htarget, hcall, hparent⟩ := hallows
    have htext := Store.initCall_inj hcall
    have hnone := htrue.bare false hbare
    rw [htarget, Store.isBareAt_some, ← htext] at hnone
    have hparent' : Store.HasParent (m.disk x) path.text := by
      rw [htext]
      rcases hparent with hparent | hnone
      · exact htrue.parent hparent other htarget
      · exact fun above habove ↦ nomatch hnone.symm.trans habove
    refine ⟨?_, fun _ ↦ hnone⟩
    rw [HostCall.foundsAt, beq_self_eq_true, Bool.true_and]
    exact Store.eq_or_isOk_judgeInit (hm.init hpath hx hparent' h) (hm.failed hpath hx hparent' h)
  · have hnot : HostCall.foundsAt path.text ⟨q, answer⟩ = false :=
      Bool.eq_false_iff.2 fun hfounds ↦ by
        obtain ⟨r, hr, -⟩ := HostCall.foundsAt_iff.1 hfounds
        exact hq (congrArg Sigma.fst hr)
    rw [hnot, Bool.or_false]
    exact ⟨((hm.spares hx h hpaths htrue hallows).2 path hpath).isBare_eq hq, nofun⟩

omit hpaths in
/-- What a host shows does not contradict what is known. -/
theorem Machine.Founds.admits : k.Admits target ⟨q, answer⟩ := by
  cases q with
  | disk =>
    obtain rfl := hm.shows hx h
    exact htrue.bare
  | _ => trivial

/-- What is known stays true unless the git program is run. -/
theorem Machine.Founds.isTrue_of_not_runGit (hq : ∀ call, q ≠ .runGit call) :
    k.IsTrue target (m.disk x') holds := by
  refine htrue.spared (fun path htarget ↦ ?_) fun _ path _ hgit ↦ hq _ hgit
  exact (hm.spares hx h hpaths htrue hallows).2 path (hpaths path htarget)

/-- What is known after an answer is true. -/
theorem Machine.Founds.isTrue_learn {holds' : Prop}
    (hholds : (k.learn target ⟨q, answer⟩).holds = true ↔ holds') :
    (k.learn target ⟨q, answer⟩).IsTrue target (m.disk x') holds' := by
  have hkept := hm.isTrue_of_not_runGit hx h hpaths htrue hallows
  cases q with
  | emit | marks | exchange => exact { hkept nofun with holds_iff := hholds }
  | disk =>
    obtain rfl := hm.shows hx h
    obtain ⟨-, hdisk⟩ := hm.looks (q := .disk) trivial hx h
    cases hbare : Store.isBareAt (m.disk x) target with
    | true =>
      rw [Knowledge.learn_disk_of_bare hbare] at hholds ⊢
      refine ⟨hholds, fun v hv ↦ ?_, nofun, (hkept nofun).parent⟩
      cases hv
      rwa [hdisk]
    | false =>
      cases hheld : k.holds with
      | true =>
        rw [Knowledge.learn_disk_of_holds hbare hheld] at hholds ⊢
        refine ⟨hholds, fun v hv ↦ ?_, fun _ ↦ hheld, (hkept nofun).parent⟩
        cases hv
        rwa [hdisk]
      | false =>
        rw [Knowledge.learn_disk_of_idle hbare hheld] at hholds ⊢
        exact { hkept nofun with holds_iff := hholds }
  | lock => exact ⟨hholds, (hkept nofun).bare, fun _ ↦ rfl, (hkept nofun).parent⟩
  | unlock =>
    have hknown : ∀ v, k.bare?.filter id = some v → v = true ∧ k.bare? = some v := by
      intro v hv
      rw [Option.filter_eq_some_iff] at hv
      exact hv.symm
    refine ⟨hholds, fun v hv ↦ (hkept nofun).bare v (hknown v hv).2, fun hnone ↦ ?_,
      (hkept nofun).parent⟩
    cases (hknown false hnone).1
  | makeDirAll above =>
    refine ⟨hholds, (hkept nofun).bare, (hkept nofun).locked, fun hparent path htarget ↦ ?_⟩
    obtain ⟨other, hother, habove⟩ := hallows
    cases htarget.symm.trans hother
    rcases Bool.or_eq_true_iff.1 hparent with hparent | hmade
    · exact (hkept nofun).parent hparent path htarget
    · cases answer with
      | ok => exact hm.parent (hpaths path htarget) hx habove h
      | error e => cases hmade
  | runGit call =>
    obtain ⟨-, hspares⟩ := hm.spares hx h hpaths htrue hallows
    have hmade := hm.isBare_eq hx h hpaths htrue hallows
    obtain ⟨-, hlocked, hnone, path, rfl, rfl, -⟩ := hallows
    have hafter : Store.isBareAt (m.disk x') (some path) = (Store.judgeInit answer).isOk := by
      have hbefore : Store.isBare (m.disk x) path.text = false := htrue.bare false hnone
      rw [Store.isBareAt_some, (hmade path (hpaths path rfl)).1, hbefore, Bool.false_or,
        HostCall.foundsAt, beq_self_eq_true, Bool.true_and]
    refine ⟨hholds, fun v hv ↦ hafter.trans ?_, fun _ ↦ hlocked, fun hparent other hother ↦ ?_⟩
    · simp only [Knowledge.learn] at hv
      cases hok : (Store.judgeInit answer).isOk with
      | true =>
        rw [hok, if_pos rfl] at hv
        exact Option.some.inj hv
      | false =>
        rw [hok, if_neg Bool.false_ne_true, hnone] at hv
        exact Option.some.inj hv
    · exact (hspares other (hpaths other hother)).parent (htrue.parent hparent other hother)
  | touch | mark => exact hallows.elim

end Answers

/-! ## Sessions at work -/

/-- A session at work. -/
inductive Job where
  /-- Between two questions: what it was answered, and what is left of it. -/
  | resting (t : List Call) (p : Asking (Dispatch.Verdict × Session))
  /-- While a question is answered: what is left of that, and how the session goes on then. -/
  | asking (t : List Call) (q : Ask) (work : OnHost q.Answer)
      (next : q.Answer → Asking (Dispatch.Verdict × Session))

namespace Job

/-- What a session was answered. -/
def told : Job → List Call
  | .resting t _ => t
  | .asking t _ _ _ => t

/-- The question that is being answered. -/
def asked? : Job → Option Ask
  | .resting _ _ => none
  | .asking _ q _ _ => some q

/-- What the host will be asked next for a session. -/
def next? : Job → Option HostAsk
  | .asking _ _ (Program.ask q _) _ => some q
  | _ => none

/-- Whether a session is at its end. -/
def isOver : Job → Bool
  | .resting _ (.done _) => true
  | _ => false

/-- What a session was told fits what it knows: its lookups were answered plainly, it knows that its
repository is there if it was told so, and from then on it was answered firmly. -/
structure Told (k : Knowledge) (t : List Call) : Prop where
  finds : ∀ c ∈ t, c.finds = true → k.bare? = some true
  ends : ∀ c ∈ t, c.1.creates = true → c.finds = true ∨ k.failed = true
  plain : ∀ c ∈ t, c.IsPlain
  firm : t.Pairwise fun c c' ↦ c.finds = true → c'.IsFirm

/-- A session at work fits what it knows: its work is guarded, and it knows that it has made its
repository exactly if it was told so, or is about to be. -/
inductive Fits (b : Backing) (s : Session) (k : Knowledge) : Job → Prop where
  | resting {t : List Call} {p : Asking (Dispatch.Verdict × Session)}
      (hreaches : ((dispatch b.store.root).run.run s).Reaches t p) (htold : Told k t)
      (hidle : k.holds = false) (hfounded : k.founded = t.any Call.founds) : Fits b s k (.resting t p)
  | asking {t : List Call} {q : Ask} {work : OnHost q.Answer}
      {next : q.Answer → Asking (Dispatch.Verdict × Session)} {k₀ : Knowledge}
      (hreaches : ((dispatch b.store.root).run.run s).Reaches t (.ask q next)) (htold : Told k t)
      (htold₀ : Told k₀ t) (hfounded₀ : k₀.founded = t.any Call.founds)
      (hmade : t.any Call.founds = true → k.founded = true)
      (hown : k.founded = true → t.any Call.founds = true ∨ q.creates = true)
      (hwork : Guarded b.pack (s.target? b.store.root) (q.creates = true)
        (fun answer k' ↦ Call.Fits k₀ ⟨q, answer⟩ k') work k) :
      Fits b s k (.asking t q work next)

variable {b : Backing} {s : Session} {k : Knowledge} {t : List Call} {q : Ask}
variable {next : q.Answer → Asking (Dispatch.Verdict × Session)}

/-- What a session was told fits what it knows after one more answer from the host. -/
theorem Told.learn {target : Option RepoPath} {c : HostCall} (h : Told k t)
    (hadmits : k.Admits target c) : Told (k.learn target c) t where
  finds c hc hfinds := Knowledge.bare?_learn (h.finds c hc hfinds) hadmits
  ends c hc hcreates := (h.ends c hc hcreates).imp_right fun hfailed ↦ by
    rw [Knowledge.failed_learn, hfailed, Bool.true_or]
  plain := h.plain
  firm := h.firm

theorem Fits.start (b : Backing) (s : Session) :
    Fits b s {} (.resting [] ((dispatch b.store.root).run.run s)) :=
  .resting .refl ⟨List.forall_mem_nil _, List.forall_mem_nil _,
    List.forall_mem_nil _, .nil⟩ rfl rfl

/-- A session asks its next question. -/
theorem Fits.ask (h : Fits b s k (.resting t (.ask q next))) :
    Fits b s k (.asking t q (b.answer q) next) := by
  cases h with
  | resting hreaches htold hidle hfounded =>
    refine .asking hreaches htold htold hfounded (fun hmade ↦ hfounded.trans hmade)
      (fun hmade ↦ .inl (hfounded.symm.trans hmade)) ?_
    cases (hreaches.only (Dispatch.only_concerns b.store.root s)).1 with
    | ask hq _ => exact Backing.guarded_answer hq hidle

/-- The host answers a question for a session. -/
theorem Fits.learn {hq : HostAsk} {rest : hq.Answer → OnHost q.Answer} {answer : hq.Answer}
    (h : Fits b s k (.asking t q (Program.ask hq rest) next))
    (hadmits : k.Admits (s.target? b.store.root) ⟨hq, answer⟩) :
    Fits b s (k.learn (s.target? b.store.root) ⟨hq, answer⟩) (.asking t q (rest answer) next) := by
  cases h with
  | asking hreaches htold htold₀ hfounded₀ hmade hown hwork =>
    obtain ⟨hallows, hrest⟩ := hwork
    refine .asking hreaches (htold.learn hadmits) htold₀ hfounded₀ (fun ht ↦ ?_) (fun hnow ↦ ?_)
      (hrest answer hadmits)
    · rw [Knowledge.founded_learn, hmade ht, Bool.true_or]
    · rw [Knowledge.founded_learn, Bool.or_eq_true] at hnow
      rcases hnow with hbefore | hfounds
      · exact hown hbefore
      · cases hq with
        | runGit call => exact .inr hallows.1
        | _ => cases hfounds

/-- A session goes on with an answer. -/
theorem Fits.return {answer : q.Answer} (h : Fits b s k (.asking t q (.done answer) next)) :
    Fits b s k (.resting (t ++ [⟨q, answer⟩]) (next answer)) := by
  cases h with
  | asking hreaches htold htold₀ hfounded₀ hmade hown hwork =>
    have hfits : Call.Fits _ ⟨q, answer⟩ k := hwork
    refine .resting (hreaches.ask answer) ⟨?_, ?_, ?_, ?_⟩ hfits.idle ?_
    · exact List.forall_mem_append.2 ⟨htold.finds, List.forall_mem_singleton.2 hfits.finds⟩
    · exact List.forall_mem_append.2 ⟨htold.ends, List.forall_mem_singleton.2 hfits.ends⟩
    · exact List.forall_mem_append.2 ⟨htold.plain, List.forall_mem_singleton.2 hfits.plain⟩
    · refine List.pairwise_append.2 ⟨htold.firm, List.pairwise_singleton _ _, fun c hc c' hc' hfinds ↦ ?_⟩
      obtain rfl := List.mem_singleton.1 hc'
      exact hfits.firm (htold₀.finds c hc hfinds)
    · rw [hfits.founded, hfounded₀, List.any_append, List.any_cons, List.any_nil, Bool.or_false]

/-- What is asked for a session is allowed by what it knows. -/
theorem Fits.allows {hq : HostAsk} {rest : hq.Answer → OnHost q.Answer}
    (h : Fits b s k (.asking t q (Program.ask hq rest) next)) :
    k.Allows b.pack (s.target? b.store.root) (q.creates = true) hq := by
  cases h with
  | asking _ _ _ _ _ _ hwork => exact hwork.1

end Job

/-! ## Crews -/

/-- Sessions at work on one host. -/
structure Crew (ι σ : Type) where
  host : σ
  /-- The session that holds the lock of creations. -/
  holder : Option ι := none
  jobs : ι → Job
  /-- What the host was asked, for which session, and what it answered. -/
  events : List (ι × HostCall) := []

namespace Crew

variable {ι σ : Type} [DecidableEq ι]

/-- Sessions that have not begun. -/
def start (root : String) (s : ι → Session) (x : σ) : Crew ι σ where
  host := x
  jobs i := .resting [] ((dispatch root).run.run (s i))

/-- Gives a session its next state. -/
def assign (w : Crew ι σ) (i : ι) (job : Job) : Crew ι σ :=
  { w with jobs := fun j ↦ if j = i then job else w.jobs j }

/-- Who holds the lock after a question that was asked for a session. -/
def passes (i : ι) : HostAsk → Option ι → Option ι
  | .lock, _ => some i
  | .unlock, _ => none
  | _, holder => holder

/-- The host answers a question for a session, whose work then goes on. -/
def answered (w : Crew ι σ) (i : ι) (c : HostCall) (x : σ) (job : Job) : Crew ι σ :=
  { w.assign i job with
    host := x
    holder := passes i c.1 w.holder
    events := w.events ++ [(i, c)] }

/-- The next step of a session, unless it is at its end or waits for the lock. -/
def move (m : Machine σ) (b : Backing) (w : Crew ι σ) (i : ι) : Option (Crew ι σ) :=
  match w.jobs i with
  | .resting _ (.done _) => none
  | .resting t (.ask q next) => some (w.assign i (.asking t q (b.answer q) next))
  | .asking t q (.done answer) next =>
    some (w.assign i (.resting (t ++ [⟨q, answer⟩]) (next answer)))
  | .asking t q (Program.ask hq rest) next =>
    if hq = .lock ∧ w.holder.isSome = true then none
    else
      let (answer, x) := m.answer hq w.host
      some (w.answered i ⟨hq, answer⟩ x (.asking t q (rest answer) next))

/-- Sessions move in the order of a schedule; one that cannot move is passed over. -/
def run (m : Machine σ) (b : Backing) : List ι → Crew ι σ → Crew ι σ
  | [], w => w
  | i :: schedule, w => run m b schedule ((w.move m b i).getD w)

/-- The steps of a session. -/
inductive Moves (m : Machine σ) (b : Backing) (i : ι) (w : Crew ι σ) : Crew ι σ → Prop where
  | asks {t : List Call} {q : Ask} {next : q.Answer → Asking (Dispatch.Verdict × Session)}
      (h : w.jobs i = .resting t (.ask q next)) :
      Moves m b i w (w.assign i (.asking t q (b.answer q) next))
  | hosts {t : List Call} {q : Ask} {hq : HostAsk} {rest : hq.Answer → OnHost q.Answer}
      {next : q.Answer → Asking (Dispatch.Verdict × Session)} {answer : hq.Answer} {x : σ}
      (h : w.jobs i = .asking t q (Program.ask hq rest) next) (hfree : hq = .lock → w.holder = none)
      (hanswer : m.answer hq w.host = (answer, x)) :
      Moves m b i w (w.answered i ⟨hq, answer⟩ x (.asking t q (rest answer) next))
  | returns {t : List Call} {q : Ask} {answer : q.Answer}
      {next : q.Answer → Asking (Dispatch.Verdict × Session)}
      (h : w.jobs i = .asking t q (.done answer) next) :
      Moves m b i w (w.assign i (.resting (t ++ [⟨q, answer⟩]) (next answer)))

variable {m : Machine σ} {b : Backing} {w w' : Crew ι σ} {i j : ι}

theorem moves_of_move (h : w.move m b i = some w') : Moves m b i w w' := by
  unfold move at h
  split at h
  · cases h
  · next hjob =>
    cases h
    exact .asks hjob
  · next hjob =>
    cases h
    exact .returns hjob
  · next hjob =>
    split at h
    · cases h
    · next hfree =>
      cases h
      refine .hosts hjob (fun hlock ↦ ?_) rfl
      simpa [hlock] using hfree

/-! ## What the steps of a crew keep -/

/-- What the host was asked for a session. -/
def own (w : Crew ι σ) (i : ι) : List HostCall :=
  (w.events.filter fun e ↦ e.1 = i).map Prod.snd

/-- What a session knows by its answers. -/
def knows (root : String) (s : ι → Session) (w : Crew ι σ) (i : ι) : Knowledge :=
  (w.own i).foldl (Knowledge.learn ((s i).target? root)) {}

/-- The times that the git program made the repository at a path. -/
def foundings (w : Crew ι σ) (path : String) : List (ι × HostCall) :=
  w.events.filter fun e ↦ e.2.foundsAt path

section Steps

variable {root path : String} {s : ι → Session} {c : HostCall} {x : σ} {job : Job}

theorem jobs_assign_self : (w.assign i job).jobs i = job := if_pos rfl

theorem jobs_assign_of_ne (h : j ≠ i) : (w.assign i job).jobs j = w.jobs j := if_neg h

theorem knows_answered_self : (w.answered i c x job).knows root s i =
    (w.knows root s i).learn ((s i).target? root) c := by
  simp [knows, own, answered]

theorem knows_answered_of_ne (h : j ≠ i) :
    (w.answered i c x job).knows root s j = w.knows root s j := by
  simp [knows, own, answered, assign, h.symm]

theorem length_foundings_answered : ((w.answered i c x job).foundings path).length =
    (w.foundings path).length + (c.foundsAt path).toNat := by
  cases h : c.foundsAt path <;> simp [foundings, answered, assign, h]

omit [DecidableEq ι] in
/-- Only the session that is answered takes the lock or gives it back. -/
theorem passes_of_ne {q : HostAsk} {holder : Option ι} (h : j ≠ i)
    (hlock : q = .lock → holder ≠ some j) (hunlock : q = .unlock → holder ≠ some j) :
    passes i q holder = some j ↔ holder = some j := by
  cases q with
  | lock => exact iff_of_false (fun heq ↦ h (Option.some.inj heq).symm) (hlock rfl)
  | unlock => exact iff_of_false nofun (hunlock rfl)
  | _ => exact Iff.rfl

end Steps

/-- What holds of every state of a crew: what its sessions know is true and fits what they do, and a
repository that is there was there from the start or was made once. -/
structure Sound (m : Machine σ) (b : Backing) (s : ι → Session) (x₀ : σ) (inv : σ → Prop)
    (w : Crew ι σ) : Prop where
  inv : inv w.host
  isTrue (i : ι) : (w.knows b.store.root s i).IsTrue ((s i).target? b.store.root) (m.disk w.host)
    (w.holder = some i)
  fits (i : ι) : (w.jobs i).Fits b (s i) (w.knows b.store.root s i)
  ledger {i : ι} {path : RepoPath} (h : (s i).target? b.store.root = some path) :
    (Store.isBare (m.disk x₀) path.text).toNat + (w.foundings path.text).length =
      (Store.isBare (m.disk w.host) path.text).toNat
  inits {i : ι} {call : Git.Call} {r : Except OsError Git.Report}
    (h : (i, ⟨.runGit call, r⟩) ∈ w.events) :
    ∃ path, (s i).target? b.store.root = some path ∧ call = Store.initCall path.text

namespace Sound

variable {s : ι → Session} {x₀ : σ} {inv : σ → Prop}

theorem start (hx₀ : inv x₀) : Sound m b s x₀ inv (Crew.start b.store.root s x₀) where
  inv := hx₀
  isTrue _ := ⟨iff_of_false Bool.false_ne_true nofun, nofun, nofun, nofun⟩
  fits i := .start b (s i)
  ledger _ := rfl
  inits := nofun

variable (hm : m.Founds b.pack (fun path ↦ ∃ i, (s i).target? b.store.root = some path) inv)

/-- A session that asks its next question or goes on with an answer changes nothing else. -/
theorem assign {job : Job} (h : Sound m b s x₀ inv w)
    (hjob : job.Fits b (s i) (w.knows b.store.root s i)) :
    Sound m b s x₀ inv (w.assign i job) where
  inv := h.inv
  isTrue := h.isTrue
  fits j := by
    by_cases hj : j = i
    · subst hj
      rw [jobs_assign_self]
      exact hjob
    · rw [jobs_assign_of_ne hj]
      exact h.fits j
  ledger := h.ledger
  inits := h.inits

include hm

/-- The host answers a question for a session. -/
theorem answered {t : List Call} {q : Ask} {hq : HostAsk} {rest : hq.Answer → OnHost q.Answer}
    {next : q.Answer → Asking (Dispatch.Verdict × Session)} {answer : hq.Answer} {x : σ}
    (h : Sound m b s x₀ inv w) (hjob : w.jobs i = .asking t q (Program.ask hq rest) next)
    (hfree : hq = .lock → w.holder = none) (hanswer : m.answer hq w.host = (answer, x)) :
    Sound m b s x₀ inv (w.answered i ⟨hq, answer⟩ x (.asking t q (rest answer) next)) := by
  have hfits := h.fits i
  rw [hjob] at hfits
  have hpaths : ∀ path, (s i).target? b.store.root = some path →
      ∃ i, (s i).target? b.store.root = some path := fun path htarget ↦ ⟨i, htarget⟩
  have hadmits := hm.admits h.inv hanswer (h.isTrue i) hfits.allows
  obtain ⟨hinv, hspares⟩ := hm.spares h.inv hanswer hpaths (h.isTrue i) hfits.allows
  -- the lock is asked for where it is free, and given back by its holder
  have hholder : ∀ j, j ≠ i → (passes i hq w.holder = some j ↔ w.holder = some j) := by
    intro j hj
    refine passes_of_ne hj (fun hlock ↦ ?_) (fun hunlock ↦ ?_)
    · rw [hfree hlock]
      exact nofun
    · subst hunlock
      rw [(h.isTrue i).holds_iff.1 hfits.allows]
      exact fun heq ↦ hj (Option.some.inj heq).symm
  refine ⟨hinv, fun j ↦ ?_, fun j ↦ ?_, fun {j path} htarget ↦ ?_, fun {j call r} hevent ↦ ?_⟩
  · by_cases hj : j = i
    · subst hj
      rw [knows_answered_self]
      refine hm.isTrue_learn h.inv hanswer hpaths (h.isTrue j) hfits.allows ?_
      cases hq with
      | lock => exact iff_of_true rfl rfl
      | unlock => exact iff_of_false Bool.false_ne_true nofun
      | disk =>
        rw [Knowledge.holds_learn_disk]
        exact (h.isTrue j).holds_iff
      | _ => exact (h.isTrue j).holds_iff
    · rw [knows_answered_of_ne hj]
      have hspared := (h.isTrue j).spared (fun path htarget ↦ hspares path ⟨j, htarget⟩) ?_
      · exact { hspared with holds_iff := hspared.holds_iff.trans (hholder j hj).symm }
      · -- a session that knows that nothing is there holds the lock, so no other one runs git
        rintro hnone path - hgit
        have hheld := (h.isTrue j).holds_iff.1 ((h.isTrue j).locked hnone)
        subst hgit
        rw [(h.isTrue i).holds_iff.1 hfits.allows.2.1] at hheld
        exact hj (Option.some.inj hheld).symm
  · by_cases hj : j = i
    · subst hj
      rw [knows_answered_self]
      exact jobs_assign_self (w := w) ▸ hfits.learn hadmits
    · rw [knows_answered_of_ne hj]
      exact jobs_assign_of_ne (w := w) hj ▸ h.fits j
  · have hbefore := h.ledger htarget
    obtain ⟨heq, hnew⟩ := hm.isBare_eq h.inv hanswer hpaths (h.isTrue i) hfits.allows path ⟨j, htarget⟩
    rw [length_foundings_answered, ← Nat.add_assoc, hbefore]
    change _ = (Store.isBare (m.disk x) path.text).toNat
    rw [heq]
    cases hfounds : HostCall.foundsAt path.text ⟨hq, answer⟩ with
    | true => rw [hnew hfounds]; rfl
    | false => rw [Bool.or_false]; rfl
  · rcases List.mem_append.1 hevent with hevent | hevent
    · exact h.inits hevent
    · cases List.mem_singleton.1 hevent
      obtain ⟨-, -, -, path, htarget, hcall, -⟩ := hfits.allows
      exact ⟨path, htarget, hcall⟩

/-- A step keeps a crew sound. -/
theorem moves (h : Sound m b s x₀ inv w) (hmove : Moves m b i w w') : Sound m b s x₀ inv w' := by
  have hfits := h.fits i
  cases hmove with
  | asks hjob =>
    rw [hjob] at hfits
    exact h.assign hfits.ask
  | hosts hjob hfree hanswer => exact h.answered hm hjob hfree hanswer
  | returns hjob =>
    rw [hjob] at hfits
    exact h.assign hfits.return

/-- So does a schedule. -/
theorem run (h : Sound m b s x₀ inv w) (schedule : List ι) :
    Sound m b s x₀ inv (w.run m b schedule) := by
  induction schedule generalizing w with
  | nil => exact h
  | cons i schedule ih =>
    refine ih ?_
    cases hmove : w.move m b i with
    | none => exact h
    | some w' => exact h.moves hm (moves_of_move hmove)

end Sound

/-! ## Sessions that move alone -/

theorem run_append (schedule schedule' : List ι) :
    w.run m b (schedule ++ schedule') = (w.run m b schedule).run m b schedule' := by
  induction schedule generalizing w with
  | nil => rfl
  | cons i schedule ih => exact ih

theorem run_replicate_succ (n : Nat) (hmove : w.move m b i = some w') :
    w.run m b (List.replicate (n + 1) i) = w'.run m b (List.replicate n i) := by
  rw [List.replicate_succ, run, hmove, Option.getD_some]

/-- No other session holds the lock. -/
def IsFreeFor (w : Crew ι σ) (i : ι) : Prop := ∀ j, w.holder = some j → j = i

namespace Sound

variable {s : ι → Session} {x₀ : σ} {inv : σ → Prop}
variable (hm : m.Founds b.pack (fun path ↦ ∃ i, (s i).target? b.store.root = some path) inv)

include hm

/-- While no other session moves, a question is answered as the host answers it alone. -/
theorem exists_return {t : List Call} {q : Ask} {work : OnHost q.Answer}
    {next : q.Answer → Asking (Dispatch.Verdict × Session)} (h : Sound m b s x₀ inv w)
    (hjob : w.jobs i = .asking t q work next) (hfree : w.IsFreeFor i) :
    ∃ n, let w' := w.run m b (List.replicate n i)
      let r := m.run work w.host
      w'.jobs i = .resting (t ++ [⟨q, r.1⟩]) (next r.1) ∧ w'.host = r.2 ∧ w'.IsFreeFor i := by
  induction work generalizing w with
  | done answer =>
    have hmove : w.move m b i =
        some (w.assign i (.resting (t ++ [⟨q, answer⟩]) (next answer))) := by
      rw [move, hjob]
    refine ⟨0 + 1, ?_⟩
    rw [run_replicate_succ 0 hmove]
    exact ⟨jobs_assign_self, rfl, hfree⟩
  | ask hq rest ih =>
    have hfits := h.fits i
    rw [hjob] at hfits
    -- a session asks for the lock only if it does not hold it
    have hlock : hq = .lock → w.holder = none := by
      rintro rfl
      cases hholder : w.holder with
      | none => rfl
      | some j =>
        obtain rfl := hfree j hholder
        cases ((h.isTrue j).holds_iff.2 hholder).symm.trans hfits.allows
    have hmove : w.move m b i = some (w.answered i ⟨hq, (m.answer hq w.host).1⟩
        (m.answer hq w.host).2 (.asking t q (rest (m.answer hq w.host).1) next)) := by
      have hnot : ¬ (hq = .lock ∧ w.holder.isSome = true) := by
        rintro ⟨hq, hheld⟩
        rw [hlock hq] at hheld
        cases hheld
      simp [move, hjob, hnot]
    have hfree' : ∀ j, passes i hq w.holder = some j → j = i := by
      intro j hj
      cases hq with
      | lock => exact (Option.some.inj hj).symm
      | unlock => cases hj
      | _ => exact hfree j hj
    obtain ⟨n, hn⟩ := ih _ (h.answered hm hjob hlock rfl) jobs_assign_self hfree'
    refine ⟨n + 1, ?_⟩
    rw [run_replicate_succ n hmove]
    exact hn

/-- While no other session moves, a session comes to its end, and does what it does alone. -/
theorem exists_end {t : List Call} {p : Asking (Dispatch.Verdict × Session)}
    (h : Sound m b s x₀ inv w) (hjob : w.jobs i = .resting t p) (hfree : w.IsFreeFor i) :
    ∃ n t', let w' := w.run m b (List.replicate n i)
      let r := m.run (p.interpret b.answer) w.host
      w'.jobs i = .resting t' (.done r.1) ∧ w'.host = r.2 ∧ w'.IsFreeFor i := by
  induction p generalizing w t with
  | done r => exact ⟨0, t, hjob, rfl, hfree⟩
  | ask q next ih =>
    have hfits := h.fits i
    rw [hjob] at hfits
    have hmove : w.move m b i = some (w.assign i (.asking t q (b.answer q) next)) := by
      rw [move, hjob]
    have hasked := h.assign hfits.ask
    obtain ⟨n, hreturned, hhost, hfree'⟩ := hasked.exists_return hm jobs_assign_self hfree
    obtain ⟨n', t', hend⟩ := ih _ (hasked.run hm _) hreturned hfree'
    refine ⟨n + n' + 1, t', ?_⟩
    rw [run_replicate_succ _ hmove, ← List.replicate_append_replicate, run_append]
    rw [hhost] at hend
    have hrun : m.run ((Program.ask q next).interpret b.answer) w.host =
        m.run ((next (m.run (b.answer q) w.host).1).interpret b.answer)
          (m.run (b.answer q) w.host).2 := Program.run_bind _ _ _ _
    rw [hrun]
    exact hend

/-- A session that no other one keeps from the lock comes to its end, and then the lock is free. -/
theorem exists_end_of_isFreeFor (h : Sound m b s x₀ inv w) (hfree : w.IsFreeFor i) :
    ∃ n, let w' := w.run m b (List.replicate n i)
      (w'.jobs i).isOver = true ∧ w'.holder = none := by
  have hrest : ∀ {w : Crew ι σ} {t p}, Sound m b s x₀ inv w → w.jobs i = .resting t p →
      w.IsFreeFor i → ∃ n, let w' := w.run m b (List.replicate n i)
        (w'.jobs i).isOver = true ∧ w'.holder = none := by
    intro w t p h hjob hfree
    obtain ⟨n, t', hend, -, hfree'⟩ := h.exists_end hm hjob hfree
    have h' := h.run hm (List.replicate n i)
    have hfits := h'.fits i
    rw [hend] at hfits
    refine ⟨n, by rw [hend]; rfl, ?_⟩
    cases hholder : (w.run m b (List.replicate n i)).holder with
    | none => rfl
    | some j =>
      -- a session at its end does not hold the lock
      obtain rfl := hfree' j hholder
      cases hfits with
      | resting _ _ hidle => cases ((h'.isTrue j).holds_iff.2 hholder).symm.trans hidle
  cases hjob : w.jobs i with
  | resting t p => exact hrest h hjob hfree
  | asking t q work next =>
    obtain ⟨n, hreturned, -, hfree'⟩ := h.exists_return hm hjob hfree
    obtain ⟨n', hend⟩ := hrest (h.run hm _) hreturned hfree'
    refine ⟨n + n', ?_⟩
    rw [← List.replicate_append_replicate, run_append]
    exact hend

/-- Each session can still come to its end, whatever the others have done. -/
theorem exists_isOver (h : Sound m b s x₀ inv w) (i : ι) :
    ∃ schedule, ((w.run m b schedule).jobs i).isOver = true := by
  have hnone : ∀ {w : Crew ι σ}, Sound m b s x₀ inv w → w.holder = none →
      ∃ schedule, ((w.run m b schedule).jobs i).isOver = true := by
    intro w h hholder
    obtain ⟨n, hend, -⟩ := h.exists_end_of_isFreeFor (i := i) hm fun j hj ↦
      nomatch hholder.symm.trans hj
    exact ⟨_, hend⟩
  cases hholder : w.holder with
  | none => exact hnone h hholder
  | some j =>
    -- first the session that holds the lock
    obtain ⟨n, -, hfreed⟩ := h.exists_end_of_isFreeFor (i := j) hm fun j' hj' ↦
      (Option.some.inj (hholder.symm.trans hj')).symm
    obtain ⟨schedule, hend⟩ := hnone (h.run hm _) hfreed
    exact ⟨_ ++ schedule, by rw [run_append]; exact hend⟩

end Sound

/-- **A session that moves alone does what it does alone**: the crew comes to the state in which the
host is when the session has run on it, with the same result. -/
theorem exists_run_alone {s : ι → Session} {x : σ} {inv : σ → Prop}
    (hm : m.Founds b.pack (fun path ↦ ∃ i, (s i).target? b.store.root = some path) inv)
    (hx : inv x) (i : ι) :
    ∃ n t, let w := (Crew.start b.store.root s x).run m b (List.replicate n i)
      let r := m.run (b.carryOut (dispatch b.store.root) (s i)) x
      w.jobs i = .resting t (.done r.1) ∧ w.host = r.2 := by
  obtain ⟨n, t, hend, hhost, -⟩ := (Sound.start hx).exists_end (i := i) hm rfl nofun
  exact ⟨n, t, hend, hhost⟩

end Crew

end GitGateway
