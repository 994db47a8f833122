import GitGateway.Chain.AccessLog
import GitGateway.Chain.Containment
import GitGateway.Proofs.Transcripts

/-!
# Courses of a chain

A stage works on a session before the rest of its chain and, once the rest has run, perhaps again.
Each time is a **turn** of the stage, and the turns of a run, in order, are its **course**.  The
relation `Course` says which courses a list of stages allows, without running anything: a stage is
skipped, or it takes a first turn and ends the chain there, or the rest runs between its two turns.
The runs of a chain are exactly those with a course (`does_run_iff`).

The stages of a gateway are of three kinds.  One that works before the rest takes an idle second
turn (`Course.before`), the containment does nothing as long as nothing crashes
(`Course.containment`), and the access log leaves the session alone (`Course.accessLog`).
-/

namespace GitGateway

open Handler

/-- One time that a stage works on a session. -/
structure Turn where
  /-- The place of the stage in its chain. -/
  place : Nat
  before : Session
  after : Session

namespace Turn

/-- Whether the session ended in this turn. -/
def ends (x : Turn) : Bool := !x.before.isTerminated && x.after.isTerminated

/-- The places of the stages that ended the session. -/
def enders (turns : List Turn) : List Nat := (turns.filter ends).map place

@[simp] theorem enders_nil : enders [] = [] := rfl

@[simp] theorem enders_append (turns turns' : List Turn) :
    enders (turns ++ turns') = enders turns ++ enders turns' := by
  simp [enders]

/-- A turn that leaves the session alone ends nothing. -/
@[simp] theorem enders_idle (n : Nat) (s : Session) (turns : List Turn) :
    enders (⟨n, s, s⟩ :: turns) = enders turns := by
  simp [enders, ends]

end Turn

namespace Handler

variable {α : Type} {h : Handler α} {s s' : Session} {t : List Call}

/-- A handler's outcome is how it ended, so it never breaks off. -/
theorem does_outcome_iff {r : Except Crash (Except Crash α)} :
    Does h.outcome s t r s' ↔ ∃ o, r = .ok o ∧ Does h s t o s' := by
  have houtcome : h.outcome.run.run s = (h.run.run s).bind fun x ↦ .done (.ok x.1, x.2) := rfl
  rw [Does, houtcome, Program.runs_bind_iff]
  constructor
  · rintro ⟨t₁, ⟨o, s₁⟩, t₂, rfl, h₁, h₂⟩
    obtain ⟨rfl, hend⟩ := Program.runs_done_iff.1 h₂
    cases hend
    exact ⟨o, rfl, by rwa [List.append_nil]⟩
  · rintro ⟨o, rfl, hdoes⟩
    exact ⟨t, _, [], (List.append_nil t).symm, hdoes, .done _⟩

theorem does_resume_iff {o o' : Except Crash α} :
    Does (resume o) s t o' s' ↔ t = [] ∧ o' = o ∧ s' = s := by
  rw [← Prod.mk.injEq]
  exact Program.runs_done_iff

end Handler

namespace Chain

/-- The courses of a session through stages, the first of which stands at place `n`. -/
inductive Course : (n : Nat) → List Stage → Session → List Call → List Turn → Except Crash Unit →
    Session → Prop where
  | nil {n : Nat} {s : Session} : Course n [] s [] [] (.ok ()) s
  | skipped {n : Nat} {stage : Stage} {rest : List Stage} {s s' : Session} {t : List Call}
      {turns : List Turn} {o : Except Crash Unit} (h : stage.skips s = true)
      (hrest : Course (n + 1) rest s t turns o s') : Course n (stage :: rest) s t turns o s'
  | crashed {n : Nat} {stage : Stage} {rest : List Stage} {s s' : Session} {t : List Call}
      {crash : Crash} (h : stage.skips s = false) (henter : Does stage.enter s t (.error crash) s') :
      Course n (stage :: rest) s t [⟨n, s, s'⟩] (.error crash) s'
  | stopped {n : Nat} {stage : Stage} {rest : List Stage} {s s' : Session} {t : List Call}
      (h : stage.skips s = false) (henter : Does stage.enter s t (.ok none) s') :
      Course n (stage :: rest) s t [⟨n, s, s'⟩] (.ok ()) s'
  | passed {n : Nat} {stage : Stage} {rest : List Stage} {s s₁ s₂ s' : Session}
      {t₁ t₂ t₃ : List Call} {turns : List Turn} {leave : Leave} {o₂ o : Except Crash Unit}
      (h : stage.skips s = false) (henter : Does stage.enter s t₁ (.ok (some leave)) s₁)
      (hrest : Course (n + 1) rest s₁ t₂ turns o₂ s₂) (hleave : Does (leave o₂) s₂ t₃ o s') :
      Course n (stage :: rest) s (t₁ ++ (t₂ ++ t₃)) (⟨n, s, s₁⟩ :: (turns ++ [⟨n, s₂, s'⟩])) o s'

variable {n : Nat} {stage : Stage} {stages rest : List Stage} {s s' : Session} {t : List Call}
variable {turns : List Turn} {o : Except Crash Unit}

/-- A stage that is not skipped takes its first turn, and the rest runs if it says so. -/
theorem does_run_cons (h : stage.skips s = false) :
    Does (run (stage :: rest)) s t o s' ↔
      (∃ crash, Does stage.enter s t (.error crash) s' ∧ o = .error crash) ∨
        ∃ t₁ leave? s₁ t₂, t = t₁ ++ t₂ ∧ Does stage.enter s t₁ (.ok leave?) s₁ ∧
          Does (match leave? with
            | none => return ()
            | some leave => do leave (← (run rest).outcome)) s₁ t₂ o s' := by
  rw [run, does_get_bind_iff, h, if_neg Bool.false_ne_true]
  exact does_bind_iff

/-- The runs of a chain are those that have a course. -/
theorem does_run_iff : Does (run stages) s t o s' ↔ ∃ turns, Course n stages s t turns o s' := by
  induction stages generalizing n s t o s' with
  | nil =>
    constructor
    · intro h
      obtain ⟨rfl, rfl, rfl⟩ := does_pure_iff.1 h
      exact ⟨[], .nil⟩
    · rintro ⟨turns, h⟩
      cases h
      exact does_pure_iff.2 ⟨rfl, rfl, rfl⟩
  | cons stage rest ih =>
    cases hskips : stage.skips s with
    | true =>
      rw [run, does_get_bind_iff, hskips, if_pos rfl, ih]
      constructor
      · rintro ⟨turns, h⟩
        exact ⟨turns, .skipped hskips h⟩
      · rintro ⟨turns, h⟩
        cases h with
        | skipped _ hrest => exact ⟨turns, hrest⟩
        | crashed h | stopped h | passed h => cases hskips.symm.trans h
    | false =>
      rw [does_run_cons hskips]
      constructor
      · rintro (⟨crash, henter, rfl⟩ | ⟨t₁, leave?, s₁, t₂, rfl, henter, h⟩)
        · exact ⟨_, .crashed hskips henter⟩
        · cases leave? with
          | none =>
            obtain ⟨rfl, rfl, rfl⟩ := does_pure_iff.1 h
            rw [List.append_nil]
            exact ⟨_, .stopped hskips henter⟩
          | some leave =>
            rcases does_bind_iff.1 h with ⟨crash, houtcome, -⟩ | ⟨t₂, r, s₂, t₃, rfl, houtcome, h⟩
            · obtain ⟨_, hr, -⟩ := does_outcome_iff.1 houtcome
              cases hr
            · obtain ⟨o₂, hr, hrest⟩ := does_outcome_iff.1 houtcome
              cases hr
              obtain ⟨turns, hcourse⟩ := ih.1 hrest
              exact ⟨_, .passed hskips henter hcourse h⟩
      · rintro ⟨turns, h⟩
        cases h with
        | skipped h => cases hskips.symm.trans h
        | crashed _ henter => exact .inl ⟨_, henter, rfl⟩
        | stopped _ henter =>
          exact .inr ⟨t, none, s', [], (List.append_nil t).symm, henter,
            does_pure_iff.2 ⟨rfl, rfl, rfl⟩⟩
        | passed _ henter hrest hleave =>
          refine .inr ⟨_, some _, _, _, rfl, henter, does_bind_iff.2 (.inr ?_)⟩
          exact ⟨_, _, _, _, rfl, does_outcome_iff.2 ⟨_, rfl, ih.2 ⟨_, hrest⟩⟩, hleave⟩

/-! ## The kinds of stages -/

/-- A stage that works before the rest goes on with the rest unless its work crashes. -/
theorem does_before_enter_iff {work : Handler Unit} {r : Except Crash (Option Leave)} :
    Does (Stage.before work).enter s t r s' ↔
      (∃ crash, Does work s t (.error crash) s' ∧ r = .error crash) ∨
        Does work s t (.ok ()) s' ∧ r = .ok (some resume) := by
  rw [Stage.before, does_bind_iff]
  refine or_congr_right ⟨?_, ?_⟩
  · rintro ⟨t₁, ⟨⟩, s₁, t₂, rfl, hwork, h⟩
    obtain ⟨rfl, rfl, rfl⟩ := does_pure_iff.1 h
    exact ⟨by rwa [List.append_nil], rfl⟩
  · rintro ⟨hwork, rfl⟩
    exact ⟨t, (), s', [], (List.append_nil t).symm, hwork, does_pure_iff.2 ⟨rfl, rfl, rfl⟩⟩

/-- A stage that is skipped leaves the session to the rest. -/
theorem Course.of_skips (h : Course n (stage :: rest) s t turns o s')
    (hskips : stage.skips s = true) : Course (n + 1) rest s t turns o s' := by
  cases h with
  | skipped _ hrest => exact hrest
  | crashed h | stopped h | passed h => cases hskips.symm.trans h

/-- A session that has ended passes by a stage that works before the rest. -/
theorem Course.of_isTerminated {work : Handler Unit}
    (h : Course n (.before work :: rest) s t turns o s') (hs : s.isTerminated = true) :
    Course (n + 1) rest s t turns o s' :=
  h.of_skips (by simp [Stage.skips, Stage.before, hs])

/-- On a session that has not ended, a stage that works before the rest takes one turn of work and
one that changes nothing. -/
theorem Course.before {work : Handler Unit} (h : Course n (.before work :: rest) s t turns o s')
    (hs : s.isTerminated = false) :
    (∃ crash, o = .error crash ∧ Does work s t (.error crash) s') ∨
      ∃ t₁ t₂ s₁ turns', t = t₁ ++ t₂ ∧ Does work s t₁ (.ok ()) s₁ ∧
        Course (n + 1) rest s₁ t₂ turns' o s' ∧
        Turn.enders turns = Turn.enders [⟨n, s, s₁⟩] ++ Turn.enders turns' := by
  have hskips : (Stage.before work).skips s = false := by simp [Stage.skips, hs]
  cases h with
  | skipped h => cases hskips.symm.trans h
  | crashed _ henter =>
    rcases does_before_enter_iff.1 henter with ⟨crash, hwork, hr⟩ | ⟨-, hr⟩
    · cases hr
      exact .inl ⟨_, rfl, hwork⟩
    · cases hr
  | stopped _ henter =>
    rcases does_before_enter_iff.1 henter with ⟨crash, -, hr⟩ | ⟨-, hr⟩ <;> cases hr
  | passed _ henter hrest hleave =>
    rcases does_before_enter_iff.1 henter with ⟨crash, -, hr⟩ | ⟨hwork, hr⟩
    · cases hr
    · cases hr
      obtain ⟨rfl, rfl, rfl⟩ := does_resume_iff.1 hleave
      refine .inr ⟨_, _, _, _, by rw [List.append_nil], hwork, hrest, ?_⟩
      rw [← List.singleton_append, Turn.enders_append, Turn.enders_append, Turn.enders_idle,
        Turn.enders_nil, List.append_nil]

/-- The containment takes two turns around the rest: where the rest comes to its end it does nothing,
and where the rest crashes it reports that and ends the session. -/
theorem Course.contained (h : Course n (.containment :: rest) s t turns o s')
    (hs : s.isTerminated = false) :
    ∃ t₁ t₂ o₁ s₁ turns', t = t₁ ++ t₂ ∧ Course (n + 1) rest s t₁ turns' o₁ s₁ ∧
      turns = ⟨n, s, s⟩ :: (turns' ++ [⟨n, s₁, s'⟩]) ∧ o = .ok () ∧
      (o₁ = .ok () ∧ t₂ = [] ∧ s' = s₁ ∨
        ∃ crash, o₁ = .error crash ∧ t₂ = [⟨.emit (Stage.crashEvent s₁ crash), ()⟩] ∧
          s' = s₁.fatal (Stage.crashFailure crash)) := by
  have hskips : Stage.containment.skips s = false := by simp [Stage.skips, hs]
  cases h with
  | skipped h => cases hskips.symm.trans h
  | crashed _ henter =>
    obtain ⟨-, hr, -⟩ := does_pure_iff.1 henter
    cases hr
  | stopped _ henter =>
    obtain ⟨-, hr, -⟩ := does_pure_iff.1 henter
    cases hr
  | @passed _ _ _ _ _ _ _ _ _ _ _ _ o₁ _ _ henter hrest hleave =>
    obtain ⟨rfl, hr, rfl⟩ := does_pure_iff.1 henter
    cases hr
    cases o₁ with
    | ok =>
      obtain ⟨rfl, rfl, rfl⟩ := does_pure_iff.1 hleave
      exact ⟨_, _, _, _, _, List.nil_append _, hrest, rfl, rfl, .inl ⟨rfl, rfl, rfl⟩⟩
    | error crash =>
      rw [does_get_bind_iff] at hleave
      obtain ⟨t₃, rfl, hfatal⟩ := does_emit_bind_iff.1 hleave
      obtain ⟨rfl, hr⟩ := Program.runs_done_iff.1 hfatal
      cases hr
      exact ⟨_, _, _, _, _, List.nil_append _, hrest, rfl, rfl, .inr ⟨crash, rfl, rfl, rfl⟩⟩

/-- The containment leaves a course alone in which nothing crashes. -/
theorem Course.containment (h : Course n (.containment :: rest) s t turns o s')
    (hs : s.isTerminated = false) :
    ∃ t₁ t₂ o₁ s₁ turns', t = t₁ ++ t₂ ∧ Course (n + 1) rest s t₁ turns' o₁ s₁ ∧
      (o₁ = .ok () → t₂ = [] ∧ o = .ok () ∧ s' = s₁ ∧ Turn.enders turns = Turn.enders turns') := by
  obtain ⟨t₁, t₂, o₁, s₁, turns', rfl, hrest, rfl, rfl, hend⟩ := h.contained hs
  refine ⟨t₁, t₂, o₁, s₁, turns', rfl, hrest, ?_⟩
  rintro rfl
  rcases hend with ⟨-, rfl, rfl⟩ | ⟨crash, hcrash, -⟩
  · exact ⟨rfl, rfl, rfl, by simp⟩
  · cases hcrash

/-- The access log at the end of a chain reports how the session ended, and leaves it alone. -/
theorem Course.accessLog (h : Course n [.accessLog] s t turns o s') :
    t = [⟨.emit (Stage.finishedEvent s), ()⟩] ∧ o = .ok () ∧ s' = s ∧ Turn.enders turns = [] := by
  have hskips : Stage.accessLog.skips s = false := by simp [Stage.skips, Stage.accessLog]
  cases h with
  | skipped h => cases hskips.symm.trans h
  | crashed _ henter =>
    obtain ⟨-, hr, -⟩ := does_pure_iff.1 henter
    cases hr
  | stopped _ henter =>
    obtain ⟨-, hr, -⟩ := does_pure_iff.1 henter
    cases hr
  | passed _ henter hrest hleave =>
    obtain ⟨rfl, hr, rfl⟩ := does_pure_iff.1 henter
    cases hr
    cases hrest
    rcases does_bind_iff.1 hleave with ⟨crash, hresume, -⟩ | ⟨t₁, ⟨⟩, s₁, t₂, rfl, hresume, h⟩
    · obtain ⟨-, hr, -⟩ := does_resume_iff.1 hresume
      cases hr
    · obtain ⟨rfl, -, rfl⟩ := does_resume_iff.1 hresume
      rw [does_get_bind_iff] at h
      obtain ⟨⟨⟩, rfl, hr⟩ := Program.runs_ask_done_iff.1 h
      cases hr
      exact ⟨rfl, rfl, rfl, by simp⟩

end Chain

end GitGateway
