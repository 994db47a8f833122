import GitGateway.Gateway.Admission
import GitGateway.Proofs.DeniedReads

/-!
# Who is turned away

A connection is let in by the level of its identity on no particular repository
(`Backing.ends_attempt_iff`).  That level is the identity's on every repository that is not private,
but it says nothing about collaboration.  So an identity that is turned away may read no repository
but those on which it collaborates, and these it may even write.
-/

namespace GitGateway

open Program (Ends)

/-- An attempt to be let in, with a key or without one. -/
def Admission.attempt : Option ClientKey → Asking (Except Crash Bool)
  | some key => byKey key
  | none => withoutKey

namespace Backing

open AccessLevel

variable {b : Backing} {d : Disk} {marks : List String} {key : Option ClientKey}

/-- Whether an identity is let in. -/
def admits (b : Backing) (marks : List String) (key : Option ClientKey) : Bool :=
  (key.isSome || b.store.policy.keyless) && (b.store.policy.level marks .unnamed key).canRead

theorem answers_allowKeyless_iff {answer : Except Crash Bool} :
    b.Answers d marks .allowKeyless answer ↔ answer = .ok b.store.policy.keyless :=
  Program.ends_done_iff

theorem ends_mayRead_iff {r : Except Crash Bool} :
    Ends (b.Answers d marks) (Admission.mayRead key) r ↔
      r = .ok (b.store.policy.level marks .unnamed key).canRead := by
  refine Program.ends_ask_iff.trans ⟨?_, ?_⟩
  · rintro ⟨answer, hanswer, hend⟩
    cases answers_accessLevel_iff.1 hanswer
    exact Program.ends_done_iff.1 hend
  · rintro rfl
    exact ⟨_, answers_accessLevel_iff.2 rfl, Program.ends_done_iff.2 rfl⟩

theorem ends_withoutKey_iff {r : Except Crash Bool} :
    Ends (b.Answers d marks) Admission.withoutKey r ↔ r = .ok (b.admits marks none) := by
  have hanswers : ∀ answer, b.Answers d marks .allowKeyless answer ↔
      answer = .ok b.store.policy.keyless := fun _ ↦ answers_allowKeyless_iff
  rw [admits]
  generalize b.store.policy.keyless = keyless at hanswers ⊢
  cases keyless with
  | true =>
    refine Program.ends_ask_iff.trans ⟨?_, fun hr ↦ ⟨_, (hanswers _).2 rfl, ends_mayRead_iff.2 hr⟩⟩
    rintro ⟨answer, hanswer, hend⟩
    cases (hanswers _).1 hanswer
    exact ends_mayRead_iff.1 hend
  | false =>
    refine Program.ends_ask_iff.trans
      ⟨?_, fun hr ↦ ⟨_, (hanswers _).2 rfl, Program.ends_done_iff.2 hr⟩⟩
    rintro ⟨answer, hanswer, hend⟩
    cases (hanswers _).1 hanswer
    exact Program.ends_done_iff.1 hend

/-- An attempt ends with the verdict on the identity. -/
theorem ends_attempt_iff {r : Except Crash Bool} :
    Ends (Showing d marks) ((Admission.attempt key).interpret b.answer) r ↔
      r = .ok (b.admits marks key) := by
  rw [Program.ends_interpret_iff]
  cases key with
  | some key => exact ends_mayRead_iff
  | none => exact ends_withoutKey_iff

/-- **Admission.**  An identity whose level on no particular repository does not allow reading is
turned away.  A repository that it may read nevertheless is one on which it collaborates, and that
one it may read and write. -/
theorem turned_away_may_read_iff (b : Backing) (d : Disk) (marks : List String)
    (h : b.store.policy.level marks .unnamed key < .readOnly) :
    (∀ r, Ends (Showing d marks) ((Admission.attempt key).interpret b.answer) r ↔ r = .ok false) ∧
      ∀ name, name.isEmpty = false →
        (.readOnly ≤ b.store.policy.level marks name key ↔
          b.store.policy.isCollaborator name key = true) ∧
        (b.store.policy.isCollaborator name key = true →
          b.store.policy.level marks name key = .readWrite) := by
  have hadmits : b.admits marks key = false := by
    rw [admits, canRead, decide_eq_false (not_le_of_gt h), Bool.and_false]
  have hadmin : b.store.policy.isAdmin key = false := by
    by_contra hadmin
    rw [Policy.level_of_isAdmin (Bool.eq_true_of_not_eq_false hadmin)] at h
    exact absurd h (by decide)
  rw [Policy.level_unnamed, hadmin, if_neg Bool.false_ne_true] at h
  have hwrites (name : RepoName) (hname : name.isEmpty = false)
      (hcollab : b.store.policy.isCollaborator name key = true) :
      b.store.policy.level marks name key = .readWrite := by
    rw [(Policy.verdict_iff hname).1 (.collaborator hadmin hcollab)]
    exact max_eq_right (h.le.trans (by decide))
  refine ⟨fun r ↦ ?_, fun name hname ↦ ⟨⟨fun hreads ↦ ?_, fun hcollab ↦ ?_⟩, hwrites name hname⟩⟩
  · rw [ends_attempt_iff, hadmits]
  · by_contra hcollab
    have hlow : b.store.policy.level marks name key ≤ b.store.policy.standing key :=
      Policy.level_le_standing hname hadmin (Bool.eq_false_iff.2 hcollab)
    exact absurd (hreads.trans hlow) (not_le_of_gt h)
  · rw [hwrites name hname hcollab]
    decide

/-! ### A store with one collaborator -/

/-- A store that lets nobody do anything but one user, who collaborates on one repository. -/
def withCollaborator : Backing where
  store := ⟨"/srv/repos", ⟨.noAccess, true, [], [⟨"alice", [⟨"ssh-ed25519", "QUxJ"⟩], .noAccess⟩],
    [("x", ⟨false, ["alice"]⟩)]⟩⟩
  pack := {}

/-- A client without a key is turned away, and may read nothing. -/
theorem anonymous_turned_away :
    withCollaborator.store.policy.level [] .unnamed none < .readOnly ∧
      (∀ r, Ends (Showing (shelf []) [])
        ((Admission.attempt none).interpret withCollaborator.answer) r ↔ r = .ok false) ∧
      ∀ name, name.isEmpty = false →
        withCollaborator.store.policy.level [] name none < .readOnly := by
  have hlow : withCollaborator.store.policy.level [] .unnamed none < .readOnly := by decide
  obtain ⟨hends, hreads⟩ := turned_away_may_read_iff withCollaborator (shelf []) [] hlow
  refine ⟨hlow, hends, fun name hname ↦ lt_of_not_ge fun hread ↦ ?_⟩
  cases (hreads name hname).1.1 hread

/-- The collaborator is turned away as well, though he may read and write the repository. -/
theorem collaborator_turned_away :
    let alice : ClientKey := ⟨"ssh-ed25519", "QUxJ"⟩
    withCollaborator.store.policy.level [] .unnamed (some alice) < .readOnly ∧
      (∀ r, Ends (Showing (shelf []) [])
        ((Admission.attempt (some alice)).interpret withCollaborator.answer) r ↔ r = .ok false) ∧
      withCollaborator.store.policy.level [] ⟨"x"⟩ (some alice) = .readWrite :=
  ⟨by decide, fun _ ↦ ends_attempt_iff, by decide⟩

end Backing

end GitGateway
