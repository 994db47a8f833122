import GitGateway.Proofs.Answers

/-!
# Which stages are entered

The turns of a course are its **first turns**, in the order of the stages, and behind them its
**second turns**, in the opposite order: a stage takes a second turn if and only if it let the rest
run.  The session that a stage finds when its turn comes is its **arrival**, and that alone, with
the second turns of the stages before it, decides whether the stage is entered
(`Entries.entered_iff`).  A handler may do anything in either turn: end the session, crash, or catch
the crash of the rest.  So `Entries` is proved along the course, and nothing is asked of a stage.

A run has only one course (`Course.unique`), since a transcript says how a run went on.
-/

namespace GitGateway

/-- The same answers lead through a program in the same way, so no transcript of it goes on where
another one ends. -/
theorem Program.Runs.unique {Q : Type} {A : Q → Type} {α : Type} {p : Program Q A α}
    {t t' u u' : List (Sigma A)} {a a' : α} (h : Runs p t a) (h' : Runs p t' a')
    (heq : t ++ u = t' ++ u') : t = t' ∧ a = a' ∧ u = u' := by
  induction h generalizing t' with
  | done a =>
    obtain ⟨rfl, rfl⟩ := runs_done_iff.1 h'
    exact ⟨rfl, rfl, heq⟩
  | ask answer h ih =>
    obtain ⟨answer', t'', rfl, h''⟩ := runs_ask_iff.1 h'
    obtain ⟨hcall, htail⟩ := List.cons.inj heq
    cases hcall
    obtain ⟨rfl, rfl, rfl⟩ := ih h'' htail
    exact ⟨rfl, rfl, rfl⟩

/-- The same answers lead a handler through a session in the same way. -/
theorem Handler.Does.unique {α : Type} {h : Handler α} {s s₁ s₂ : Session}
    {t t' u u' : List Call} {o o' : Except Crash α} (hdoes : Does h s t o s₁)
    (hdoes' : Does h s t' o' s₂) (heq : t ++ u = t' ++ u') :
    t = t' ∧ o = o' ∧ s₁ = s₂ ∧ u = u' := by
  obtain ⟨rfl, hend, rfl⟩ := Program.Runs.unique hdoes hdoes' heq
  cases hend
  exact ⟨rfl, rfl, rfl, rfl⟩

namespace Chain

open Handler

variable {n i : Nat} {stage : Stage} {stages rest : List Stage} {s s₁ s₂ s' : Session}
variable {t t' u u' : List Call} {turns turns' firsts seconds : List Turn}
variable {o o' : Except Crash Unit}

/-- A transcript belongs to one course only. -/
theorem Course.unique (h : Course n stages s t turns o s₁) (h' : Course n stages s t' turns' o' s₂)
    (heq : t ++ u = t' ++ u') : t = t' ∧ turns = turns' ∧ o = o' ∧ s₁ = s₂ ∧ u = u' := by
  induction h generalizing t' turns' o' s₂ u u' with
  | nil =>
    cases h'
    exact ⟨rfl, rfl, rfl, rfl, heq⟩
  | skipped hskips hrest ih => exact ih (h'.of_skips hskips) heq
  | crashed hskips henter =>
    cases h' with
    | skipped h => cases hskips.symm.trans h
    | crashed _ henter' =>
      obtain ⟨rfl, hcrash, rfl, rfl⟩ := henter.unique henter' heq
      cases hcrash
      exact ⟨rfl, rfl, rfl, rfl, rfl⟩
    | stopped _ henter' => cases (henter.unique henter' heq).2.1
    | passed _ henter' =>
      rw [List.append_assoc] at heq
      cases (henter.unique henter' heq).2.1
  | stopped hskips henter =>
    cases h' with
    | skipped h => cases hskips.symm.trans h
    | crashed _ henter' => cases (henter.unique henter' heq).2.1
    | stopped _ henter' =>
      obtain ⟨rfl, -, rfl, rfl⟩ := henter.unique henter' heq
      exact ⟨rfl, rfl, rfl, rfl, rfl⟩
    | passed _ henter' =>
      rw [List.append_assoc] at heq
      cases (henter.unique henter' heq).2.1
  | passed hskips henter hrest hleave ih =>
    rw [List.append_assoc] at heq
    cases h' with
    | skipped h => cases hskips.symm.trans h
    | crashed _ henter' | stopped _ henter' => cases (henter.unique henter' heq).2.1
    | passed _ henter' hrest' hleave' =>
      rw [List.append_assoc, List.append_assoc, List.append_assoc] at heq
      obtain ⟨rfl, hpass, rfl, hrests⟩ := henter.unique henter' heq
      cases hpass
      obtain ⟨rfl, rfl, rfl, rfl, hleaves⟩ := ih hrest' hrests
      obtain ⟨rfl, rfl, rfl, rfl⟩ := hleave.unique hleave' hleaves
      exact ⟨rfl, rfl, rfl, rfl, rfl⟩

/-! ## First and second turns -/

/-- The session as the stage at a place finds it: as the last first turn before that place left it,
or as it came to the chain. -/
def arrival (s : Session) : List Turn → Nat → Session
  | [], _ => s
  | x :: firsts, place => if x.place < place then arrival x.after firsts place else s

theorem arrival_of_le (h : ∀ x ∈ firsts, i ≤ x.place) : arrival s firsts i = s := by
  cases firsts with
  | nil => rfl
  | cons x firsts => exact if_neg (Nat.not_lt.2 (h x List.mem_cons_self))

theorem arrival_cons_of_lt {x : Turn} (h : x.place < i) :
    arrival s (x :: firsts) i = arrival x.after firsts i := if_pos h

/-- Which stages a chain enters, of stages the first of which stands at place `n`. -/
structure Entries (n : Nat) (stages : List Stage) (s : Session) (firsts seconds : List Turn) :
    Prop where
  /-- Stages are entered in their order, and each at most once. -/
  ascending : (firsts.map Turn.place).Pairwise (· < ·)
  /-- They come to their second turns in the opposite order. -/
  descending : (seconds.map Turn.place).Pairwise (· > ·)
  within : ∀ x ∈ firsts, n ≤ x.place ∧ x.place < n + stages.length
  /-- Only a stage that was entered takes a second turn. -/
  second_mem : ∀ y ∈ seconds, y.place ∈ firsts.map Turn.place
  before_eq : ∀ x ∈ firsts, x.before = arrival s firsts x.place
  /-- A stage is entered if and only if every stage entered before it let the rest run and the
  session that arrives at the stage need not pass it by. -/
  entered_iff : ∀ i stage, stages[i]? = some stage →
    (n + i ∈ firsts.map Turn.place ↔
      (∀ x ∈ firsts, x.place < n + i → x.place ∈ seconds.map Turn.place) ∧
        stage.skips (arrival s firsts (n + i)) = false)

namespace Entries

theorem nil : Entries n [] s [] [] where
  ascending := .nil
  descending := .nil
  within := by simp
  second_mem := by simp
  before_eq := by simp
  entered_iff := by simp

/-- Behind a stage stand later places only, so what arrives there arrives at the stage itself. -/
theorem arrival_self (h : Entries (n + 1) rest s₁ firsts seconds) : arrival s firsts n = s :=
  arrival_of_le fun x hx ↦ Nat.le_of_succ_le (h.within x hx).1

theorem not_mem (h : Entries (n + 1) rest s firsts seconds) : n ∉ firsts.map Turn.place := by
  intro hmem
  obtain ⟨x, hx, rfl⟩ := List.mem_map.1 hmem
  exact absurd (h.within x hx).1 (Nat.not_succ_le_self _)

/-- A stage that is passed by changes nothing about the others. -/
theorem skipped (h : Entries (n + 1) rest s firsts seconds) (hskips : stage.skips s = true) :
    Entries n (stage :: rest) s firsts seconds where
  ascending := h.ascending
  descending := h.descending
  within x hx := by
    obtain ⟨hlow, hhigh⟩ := h.within x hx
    rw [List.length_cons]
    omega
  second_mem := h.second_mem
  before_eq := h.before_eq
  entered_iff i stage' hi := by
    cases i with
    | zero =>
      obtain rfl : stage = stage' := by simpa using hi
      rw [Nat.add_zero, h.arrival_self, hskips]
      simp [h.not_mem]
    | succ i =>
      rw [show n + (i + 1) = n + 1 + i by omega]
      exact h.entered_iff i stage' (by simpa using hi)

/-- A stage that does not let the rest run is the last one that is entered. -/
theorem last (hskips : stage.skips s = false) : Entries n (stage :: rest) s [⟨n, s, s'⟩] [] where
  ascending := List.pairwise_singleton _ _
  descending := .nil
  within x hx := by
    obtain rfl := List.mem_singleton.1 hx
    exact ⟨Nat.le_refl n, Nat.lt_add_of_pos_right (Nat.succ_pos _)⟩
  second_mem := by simp
  before_eq x hx := by
    obtain rfl := List.mem_singleton.1 hx
    exact (arrival_of_le (by simp)).symm
  entered_iff i stage' hi := by
    cases i with
    | zero =>
      obtain rfl : stage = stage' := by simpa using hi
      rw [Nat.add_zero, arrival_of_le (by simp), hskips]
      simp
    | succ i =>
      have hbehind : n < n + (i + 1) := Nat.lt_add_of_pos_right (Nat.succ_pos i)
      refine iff_of_false (by simp) fun ⟨hall, _⟩ ↦ ?_
      exact List.not_mem_nil (hall _ List.mem_cons_self hbehind)

/-- A stage that lets the rest run takes its turns around those of the rest. -/
theorem passed (h : Entries (n + 1) rest s₁ firsts seconds) (hskips : stage.skips s = false) :
    Entries n (stage :: rest) s (⟨n, s, s₁⟩ :: firsts) (seconds ++ [⟨n, s₂, s'⟩]) where
  ascending := by
    refine List.pairwise_cons.2 ⟨fun place hplace ↦ ?_, h.ascending⟩
    obtain ⟨x, hx, rfl⟩ := List.mem_map.1 hplace
    exact (h.within x hx).1
  descending := by
    rw [List.map_append]
    refine List.pairwise_append.2 ⟨h.descending, List.pairwise_singleton _ _, ?_⟩
    intro place hplace place' hplace'
    obtain rfl := List.mem_singleton.1 hplace'
    obtain ⟨y, hy, rfl⟩ := List.mem_map.1 hplace
    obtain ⟨x, hx, hxy⟩ := List.mem_map.1 (h.second_mem y hy)
    exact hxy ▸ (h.within x hx).1
  within x hx := by
    rcases List.mem_cons.1 hx with rfl | hx
    · exact ⟨Nat.le_refl n, Nat.lt_add_of_pos_right (Nat.succ_pos _)⟩
    · obtain ⟨hlow, hhigh⟩ := h.within x hx
      rw [List.length_cons]
      omega
  second_mem y hy := by
    rcases List.mem_append.1 hy with hy | hy
    · exact List.mem_cons_of_mem _ (h.second_mem y hy)
    · obtain rfl := List.mem_singleton.1 hy
      exact List.mem_cons_self
  before_eq x hx := by
    rcases List.mem_cons.1 hx with rfl | hx
    · exact (arrival_of_le (by simpa using fun y hy ↦ Nat.le_of_succ_le (h.within y hy).1)).symm
    · rw [arrival_cons_of_lt (h.within x hx).1]
      exact h.before_eq x hx
  entered_iff i stage' hi := by
    cases i with
    | zero =>
      obtain rfl : stage = stage' := by simpa using hi
      have hlow : ∀ x ∈ ⟨n, s, s₁⟩ :: firsts, n ≤ x.place := by
        simpa using fun y hy ↦ Nat.le_of_succ_le (h.within y hy).1
      rw [Nat.add_zero, arrival_of_le hlow, hskips]
      refine iff_of_true List.mem_cons_self ⟨fun x hx hlt ↦ ?_, rfl⟩
      exact absurd (hlow x hx) (Nat.not_le.2 hlt)
    | succ i =>
      have hbehind : n < n + (i + 1) := Nat.lt_add_of_pos_right (Nat.succ_pos i)
      have hplace : n + (i + 1) = n + 1 + i := by omega
      have hne : n + 1 + i ≠ n := by omega
      rw [arrival_cons_of_lt hbehind, hplace, List.map_cons, List.mem_cons, or_iff_right hne,
        h.entered_iff i stage' (by simpa using hi)]
      refine and_congr_left fun _ ↦ ⟨fun hall x hx hlt ↦ ?_, fun hall x hx hlt ↦ ?_⟩
      · rw [List.map_append]
        rcases List.mem_cons.1 hx with rfl | hx
        · exact List.mem_append_right _ List.mem_cons_self
        · exact List.mem_append_left _ (hall x hx hlt)
      · have hmem := hall x (List.mem_cons_of_mem _ hx) hlt
        rw [List.map_append] at hmem
        rcases List.mem_append.1 hmem with hmem | hmem
        · exact hmem
        · exact absurd (List.mem_singleton.1 hmem) (Nat.ne_of_gt (h.within x hx).1)

/-- A stage that does not ask for ended sessions is never entered on one. -/
theorem isTerminated_before (h : Entries n stages s firsts seconds) {x : Turn} (hx : x ∈ firsts)
    (hstage : stages[x.place - n]? = some stage) (hopt : stage.runsAfterExit = false) :
    x.before.isTerminated = false := by
  have hplace : n + (x.place - n) = x.place := Nat.add_sub_of_le (h.within x hx).1
  have hmem : n + (x.place - n) ∈ firsts.map Turn.place := by
    rw [hplace]
    exact List.mem_map_of_mem hx
  obtain ⟨-, hskips⟩ := (h.entered_iff _ _ hstage).1 hmem
  rw [hplace, ← h.before_eq x hx] at hskips
  simpa [Stage.skips, hopt] using hskips

/-- A stage that asks for ended sessions is entered if those entered before it let the rest run,
whichever stages were passed by in between. -/
theorem mem_of_runsAfterExit (h : Entries n stages s firsts seconds)
    (hstage : stages[i]? = some stage) (hopt : stage.runsAfterExit = true)
    (hrun : ∀ x ∈ firsts, x.place < n + i → x.place ∈ seconds.map Turn.place) :
    n + i ∈ firsts.map Turn.place :=
  (h.entered_iff i stage hstage).2 ⟨hrun, by simp [Stage.skips, hopt]⟩

end Entries

/-- Every course enters stages in this way. -/
theorem Course.entries (h : Course n stages s t turns o s') :
    ∃ firsts seconds, turns = firsts ++ seconds ∧ Entries n stages s firsts seconds := by
  induction h with
  | nil => exact ⟨[], [], rfl, .nil⟩
  | skipped hskips _ ih =>
    obtain ⟨firsts, seconds, rfl, hrest⟩ := ih
    exact ⟨firsts, seconds, rfl, hrest.skipped hskips⟩
  | crashed hskips | stopped hskips => exact ⟨_, [], (List.append_nil _).symm, .last hskips⟩
  | passed hskips _ _ _ ih =>
    obtain ⟨firsts, seconds, rfl, hrest⟩ := ih
    exact ⟨_, _, by rw [List.append_assoc, List.cons_append], hrest.passed hskips⟩

/-! ## Crashes behind the containment -/

/-- What the containment makes of the end of the rest. -/
def contain : Except Crash Unit × Session → Asking (Except Crash Unit × Session)
  | (.ok (), s) => .done (.ok (), s)
  | (.error crash, s) =>
    .ask (.emit (Stage.crashEvent s crash)) fun _ ↦
      .done (.ok (), s.fatal (Stage.crashFailure crash))

/-- The containment lets the rest run on the session as it came, and only then does something. -/
theorem run_containment (hs : s.isTerminated = false) :
    (run (.containment :: stages)).run.run s = ((run stages).run.run s).bind contain := by
  have hskips : Stage.containment.skips s = false := by simp [Stage.skips, hs]
  have hrun : (run (.containment :: stages)).run.run s =
      (ite (Stage.containment.skips s = true) (run stages) (do
        (← Stage.containment.enter).elim (return ()) fun leave ↦ do
          leave (← (run stages).outcome))).run.run s := rfl
  have houtcome : (run stages).outcome.run.run s =
      ((run stages).run.run s).bind fun x ↦ .done (.ok x.1, x.2) := rfl
  rw [hrun, hskips, if_neg Bool.false_ne_true, Stage.containment, LawfulMonad.pure_bind,
    Option.elim_some, run_bind, houtcome, Program.bind_assoc]
  refine congrArg _ (funext fun x ↦ ?_)
  rcases x with ⟨crash | ⟨⟩, s'⟩ <;> rfl

/-- A session that has ended passes the containment by. -/
theorem run_containment_of_isTerminated (hs : s.isTerminated = true) :
    (run (.containment :: stages)).run.run s = (run stages).run.run s := by
  have hskips : Stage.containment.skips s = true := by simp [Stage.skips, hs, Stage.containment]
  have hrun : (run (.containment :: stages)).run.run s =
      (ite (Stage.containment.skips s = true) (run stages) (do
        (← Stage.containment.enter).elim (return ()) fun leave ↦ do
          leave (← (run stages).outcome))).run.run s := rfl
  rw [hrun, if_pos hskips]

/-- **How a chain goes through its stages.**  Let any stages, in any surroundings, work on any
session.  The run has one course.  It enters the stages in their order, each at most once, and a
stage is entered if and only if every stage entered before it let the rest run and the session that
arrives there has not ended, or the stage asks for ended sessions.  So no stage that does not ask is
entered on an ended session, and no stage that is passed by keeps one that asks from its turn.  With
the containment in front, a session that comes to the chain before its end leaves it without a
crash: as the stages left it where none crashed, and else ended, with the status that it had when
the crash came, or 1.  A session that has ended before is not contained: it goes through the stages
as if the containment were not there. -/
theorem run_enters {σ : Type} (answer : (q : Ask) → σ → q.Answer × σ) (stages : List Stage)
    (s : Session) (x : σ) :
    let p : Asking (Except Crash Unit × Session) := (run stages).run.run s
    let r := (p.run answer x).1
    ∃ firsts seconds,
      (∀ turns, Course 0 stages s (p.transcript answer x) turns r.1 r.2 ↔
        turns = firsts ++ seconds) ∧
      Entries 0 stages s firsts seconds ∧
      (∀ y ∈ firsts, ∀ stage, stages[y.place]? = some stage → stage.runsAfterExit = false →
        y.before.isTerminated = false) ∧
      (∀ i stage, stages[i]? = some stage → stage.runsAfterExit = true →
        (∀ y ∈ firsts, y.place < i → y.place ∈ seconds.map Turn.place) →
          i ∈ firsts.map Turn.place) ∧
      (s.isTerminated = false →
        let contained := (((run (.containment :: stages)).run.run s).run answer x).1
        contained.1 = .ok () ∧ (r.1 = .ok () → contained.2 = r.2) ∧
          ∀ crash, r.1 = .error crash → contained.2 = r.2.fatal (Stage.crashFailure crash) ∧
            contained.2.isTerminated = true ∧
            contained.2.exitStatus = some (r.2.exitStatus.getD 1)) ∧
      (s.isTerminated = true →
        (((run (.containment :: stages)).run.run s).run answer x).1 = r) := by
  intro p r
  have hruns : Does (run stages) s (p.transcript answer x) r.1 r.2 :=
    Program.runs_transcript answer p x
  obtain ⟨turns, hcourse⟩ := does_run_iff.1 hruns
  obtain ⟨firsts, seconds, rfl, hentries⟩ := hcourse.entries (n := 0)
  refine ⟨firsts, seconds, fun turns ↦ ⟨fun h ↦ ?_, ?_⟩, hentries, ?_, ?_, ?_, fun hs ↦ ?_⟩
  · have heq : p.transcript answer x ++ [] = p.transcript answer x ++ [] := rfl
    exact (h.unique hcourse heq).2.1
  · rintro rfl
    exact hcourse
  · exact fun y hy stage hstage hopt ↦ hentries.isTerminated_before hy hstage hopt
  · intro i stage hstage hopt hrun
    rw [← Nat.zero_add i] at hrun ⊢
    exact hentries.mem_of_runsAfterExit hstage hopt hrun
  · intro hs contained
    have hcontained : contained = ((contain r).run answer (p.run answer x).2).1 := by
      simp only [contained, r, p, run_containment hs, Program.run_bind]
    rw [hcontained]
    generalize r = ended
    obtain ⟨⟨crash⟩ | ⟨⟨⟩⟩, s₁⟩ := ended
    · refine ⟨rfl, nofun, fun crash' hcrash ↦ ?_⟩
      cases hcrash
      have hstatus := Session.fatal_exitStatus s₁ (Stage.crashFailure crash)
      exact ⟨rfl, Session.isTerminated_of_exitStatus hstatus, hstatus⟩
    · exact ⟨rfl, fun _ ↦ rfl, nofun⟩
  · rw [run_containment_of_isTerminated hs]

/-- A stage that sees ended sessions crashes on one that ended with status 3: the containment keeps
that status. -/
theorem crash_behind_exit_contained :
    let s : Session := { command := ["help"] }
    let stages : List Stage :=
      [.before (Handler.exit 3), { runsAfterExit := true, enter := throw ⟨some "boom"⟩ }]
    let p : Asking (Except Crash Unit × Session) := (run (.containment :: stages)).run.run s
    let r := (p.run Scripted.Surroundings.answer {}).1
    s.isTerminated = false ∧ r.1 = .ok () ∧ r.2.exitStatus = some 3 := by
  intro s stages p r
  have hs : s.isTerminated = false := rfl
  obtain ⟨-, -, -, -, -, -, hcontained, -⟩ := run_enters Scripted.Surroundings.answer stages s {}
  obtain ⟨hok, -, hcrash⟩ := hcontained hs
  exact ⟨hs, hok, (hcrash ⟨some "boom"⟩ rfl).2.2⟩

/-- The crash of such a stage is not contained if the session had ended before it came to the
chain. -/
theorem crash_on_ended_session_escapes :
    let s : Session := { command := ["help"], exitStatus := some 3 }
    let stages : List Stage := [{ runsAfterExit := true, enter := throw ⟨some "boom"⟩ }]
    let p : Asking (Except Crash Unit × Session) := (run (.containment :: stages)).run.run s
    let r := (p.run Scripted.Surroundings.answer {}).1
    s.isTerminated = true ∧ r.1 = .error ⟨some "boom"⟩ :=
  ⟨rfl, rfl⟩

end Chain

end GitGateway
