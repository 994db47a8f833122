import GitGateway.Chain.Transport
import GitGateway.Proofs.DispatchOrder

/-!
# Stages of a chain

A stage that works **before** the rest does its work unless the session has ended, and then leaves
the session to the rest (`Chain.run_before`).  The transport is such a stage: it runs a dispatch and
makes of its end what `settle` says (`run_transport`).
-/

namespace GitGateway

open Program (Ends)

theorem Session.fatal_of_isTerminated {s : Session} (h : s.isTerminated = true)
    (e : SessionError) : s.fatal e = s := by
  simp [fatal, exit_eq, h]

/-- Ending as a computation did is what that computation does. -/
theorem Handler.outcome_bind_resume {α : Type} (h : Handler α) :
    (h.outcome >>= Handler.resume) = h := by
  refine ExceptT.ext (funext fun s ↦ ?_)
  have houtcome : h.outcome.run.run s = (h.run.run s).bind fun x ↦ .done (.ok x.1, x.2) := rfl
  have hrun : (h.outcome >>= Handler.resume).run.run s = h.run.run s := by
    rw [Handler.run_bind, houtcome, Program.bind_assoc]
    exact Program.bind_pure _
  exact hrun

/-- A stage that works before the rest does so unless the session has ended. -/
theorem Chain.run_before (work : Handler Unit) (rest : List Stage) :
    Chain.run (.before work :: rest) = (do
      if (← get).isTerminated then Chain.run rest
      else
        work
        Chain.run rest) := by
  rw [Chain.run]
  refine bind_congr fun s ↦ ?_
  have hskips : (Stage.before work).skips s = s.isTerminated := by
    simp [Stage.skips, Stage.before]
  rw [hskips]
  split
  · rfl
  · simp only [Stage.before, LawfulMonad.bind_assoc, LawfulMonad.pure_bind]
    rw [Handler.outcome_bind_resume]

namespace Stage

/-- What the transport makes of the end of a dispatch. -/
def settle : Dispatch.Verdict × Session → Asking (Except Crash Unit × Session)
  | (.error crash, s) => .done (.error crash, s)
  | (.ok (.ok .passed), s) => .done (.ok (), s)
  | (.ok (.ok .completed), s) => .done (.ok (), s.exit 0)
  | (.ok (.error e), s) => .ask (.emit (failureEvent s e)) fun _ ↦ .done (.ok (), s.fatal e)

theorem run_transport (root : String) (s : Session) :
    (Chain.run [transport root]).run.run s =
      if s.isTerminated then .done (.ok (), s)
      else ((dispatch root).run.run s).bind settle := by
  rw [transport, Chain.run_before]
  change (ite (s.isTerminated = true) (Chain.run []) _ : Handler Unit).run.run s = _
  split
  · rfl
  · rw [LawfulMonad.bind_assoc, Handler.run_bind]
    refine congrArg _ (funext fun x ↦ ?_)
    rcases x with ⟨crash | e | _ | _, s'⟩ <;> rfl

variable {allowed : (q : Ask) → q.Answer → Prop} {root : String} {s : Session}
variable {r : Except Crash Unit × Session}

/-- A session whose request can only fail is told why and ends; one that has ended is left alone. -/
theorem ends_transport_of_error {e : SessionError} (hemit : ∀ event, allowed (.emit event) ())
    (h : ∀ r, Ends allowed ((dispatch root).run.run s) r ↔ r = (.ok (.error e), s)) :
    Ends allowed ((Chain.run [transport root]).run.run s) r ↔ r = (.ok (), s.fatal e) := by
  rw [run_transport]
  split
  · next hended => rw [Program.ends_done_iff, Session.fatal_of_isTerminated hended]
  · simp only [Program.ends_bind_iff, h, exists_eq_left, settle, Program.ends_ask_iff,
      Program.ends_done_iff]
    constructor
    · rintro ⟨_, -, hr⟩
      exact hr
    · intro hr
      exact ⟨(), hemit _, hr⟩

end Stage

end GitGateway
