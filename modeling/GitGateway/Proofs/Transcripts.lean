import GitGateway.Gateway

/-!
# Transcripts

A program asks, and goes on with whatever it is answered.  A **transcript** of it is the list of its
questions in the order in which they are asked, each with the answer it got; `Runs` relates a
program to its transcripts and to the values it gives after them.  Nothing is said about where the
answers come from, so what holds of every transcript holds in all surroundings, also in those that
contradict themselves from one question to the next.

Surroundings that keep to something are a restriction on the answers: `Ends` is what a program can
give when every answer is an allowed one.  It is computed along the program, without a transcript.

A handler is a program that works on a session and may break off with a crash, so a run of it also
tells what became of the session, and what it does first decides whether it goes on
(`does_bind_iff`).
-/

namespace GitGateway

namespace Program

variable {Q : Type} {A : Q → Type} {α β : Type}

/-- A run of a program: its transcript, and the value it gives after it. -/
inductive Runs : Program Q A α → List (Sigma A) → α → Prop where
  | done (a : α) : Runs (.done a) [] a
  | ask {q : Q} {next : A q → Program Q A α} {t : List (Sigma A)} {a : α} (answer : A q)
      (h : Runs (next answer) t a) : Runs (.ask q next) (⟨q, answer⟩ :: t) a

theorem runs_done_iff {a b : α} {t : List (Sigma A)} :
    Runs (.done a : Program Q A α) t b ↔ t = [] ∧ b = a := by
  constructor
  · intro h
    cases h
    exact ⟨rfl, rfl⟩
  · rintro ⟨rfl, rfl⟩
    exact .done b

theorem runs_ask_iff {q : Q} {next : A q → Program Q A α} {t : List (Sigma A)} {a : α} :
    Runs (.ask q next) t a ↔ ∃ answer t', t = ⟨q, answer⟩ :: t' ∧ Runs (next answer) t' a := by
  constructor
  · intro h
    cases h with
    | ask answer h => exact ⟨answer, _, rfl, h⟩
  · rintro ⟨answer, t', rfl, h⟩
    exact .ask answer h

/-- A single question is a transcript with any answer to it. -/
theorem runs_ask_done_iff {q : Q} {f : A q → α} {t : List (Sigma A)} {a : α} :
    Runs (.ask q fun answer ↦ .done (f answer)) t a ↔
      ∃ answer, t = [⟨q, answer⟩] ∧ a = f answer := by
  rw [runs_ask_iff]
  refine exists_congr fun answer ↦ ?_
  constructor
  · rintro ⟨t', rfl, h⟩
    obtain ⟨rfl, rfl⟩ := runs_done_iff.1 h
    exact ⟨rfl, rfl⟩
  · rintro ⟨rfl, rfl⟩
    exact ⟨[], rfl, .done _⟩

/-- A question whose answer is handed on beside something else. -/
theorem runs_ask_pair_iff {σ : Type} {q : Q} {t : List (Sigma A)} {a : A q} {s s' : σ} :
    Runs (.ask q fun answer ↦ .done (answer, s)) t (a, s') ↔ t = [⟨q, a⟩] ∧ s' = s := by
  rw [runs_ask_done_iff]
  constructor
  · rintro ⟨answer, rfl, h⟩
    cases h
    exact ⟨rfl, rfl⟩
  · rintro ⟨rfl, rfl⟩
    exact ⟨a, rfl, rfl⟩

/-- A program that goes on with another one's value has a transcript of the one behind a transcript
of the other. -/
theorem runs_bind_iff {p : Program Q A α} {f : α → Program Q A β} {t : List (Sigma A)} {b : β} :
    Runs (p.bind f) t b ↔ ∃ t₁ a t₂, t = t₁ ++ t₂ ∧ Runs p t₁ a ∧ Runs (f a) t₂ b := by
  induction p generalizing t with
  | done a =>
    rw [bind_done]
    constructor
    · exact fun h ↦ ⟨[], a, t, rfl, .done a, h⟩
    · rintro ⟨t₁, a', t₂, rfl, h₁, h₂⟩
      obtain ⟨rfl, rfl⟩ := runs_done_iff.1 h₁
      exact h₂
  | ask q next ih =>
    rw [bind_ask, runs_ask_iff]
    constructor
    · rintro ⟨answer, t', rfl, h⟩
      obtain ⟨t₁, a, t₂, rfl, h₁, h₂⟩ := (ih answer).1 h
      exact ⟨⟨q, answer⟩ :: t₁, a, t₂, rfl, .ask answer h₁, h₂⟩
    · rintro ⟨t₁, a, t₂, rfl, h₁, h₂⟩
      obtain ⟨answer, t', rfl, hnext⟩ := runs_ask_iff.1 h₁
      exact ⟨answer, t' ++ t₂, rfl, (ih answer).2 ⟨t', a, t₂, rfl, hnext, h₂⟩⟩

/-- The transcript of a run in surroundings that answer from a state. -/
def transcript {σ : Type} (answer : (q : Q) → σ → A q × σ) : Program Q A α → σ → List (Sigma A)
  | .done _, _ => []
  | .ask q next, x =>
    ⟨q, (answer q x).1⟩ :: transcript answer (next (answer q x).1) (answer q x).2

theorem runs_transcript {σ : Type} (answer : (q : Q) → σ → A q × σ) (p : Program Q A α) (x : σ) :
    Runs p (p.transcript answer x) (p.run answer x).1 := by
  induction p generalizing x with
  | done a => exact .done a
  | ask q next ih => exact .ask _ (ih _ _)

/-- Every answer in a transcript was given in some state of the surroundings. -/
theorem exists_of_mem_transcript {σ : Type} {answer : (q : Q) → σ → A q × σ} {p : Program Q A α}
    {x : σ} {c : Sigma A} (h : c ∈ p.transcript answer x) : ∃ y, c.2 = (answer c.1 y).1 := by
  induction p generalizing x with
  | done a => cases h
  | ask q next ih =>
    rcases List.mem_cons.1 h with rfl | h
    · exact ⟨x, rfl⟩
    · exact ih _ h

/-! ## Restricted answers -/

/-- What a program can give when only allowed answers are given. -/
def Ends (allowed : (q : Q) → A q → Prop) (p : Program Q A α) (a : α) : Prop :=
  ∃ t, Runs p t a ∧ ∀ x ∈ t, allowed x.1 x.2

variable {allowed : (q : Q) → A q → Prop}

@[simp] theorem ends_done_iff {a b : α} :
    Ends allowed (.done a : Program Q A α) b ↔ b = a := by
  constructor
  · rintro ⟨t, h, -⟩
    exact (runs_done_iff.1 h).2
  · rintro rfl
    exact ⟨[], .done b, by simp⟩

@[simp] theorem ends_ask_iff {q : Q} {next : A q → Program Q A α} {a : α} :
    Ends allowed (.ask q next) a ↔ ∃ answer, allowed q answer ∧ Ends allowed (next answer) a := by
  constructor
  · rintro ⟨t, h, ht⟩
    obtain ⟨answer, t', rfl, hnext⟩ := runs_ask_iff.1 h
    refine ⟨answer, ht _ List.mem_cons_self, t', hnext, fun x hx ↦ ?_⟩
    exact ht x (List.mem_cons_of_mem _ hx)
  · rintro ⟨answer, hanswer, t, h, ht⟩
    refine ⟨⟨q, answer⟩ :: t, .ask answer h, fun x hx ↦ ?_⟩
    rcases List.mem_cons.1 hx with rfl | hx
    · exact hanswer
    · exact ht x hx

theorem ends_bind_iff {p : Program Q A α} {f : α → Program Q A β} {b : β} :
    Ends allowed (p.bind f) b ↔ ∃ a, Ends allowed p a ∧ Ends allowed (f a) b := by
  induction p with
  | done a => simp
  | ask q next ih =>
    simp only [bind_ask, ends_ask_iff, ih]
    constructor
    · rintro ⟨answer, hanswer, a, h₁, h₂⟩
      exact ⟨a, ⟨answer, hanswer, h₁⟩, h₂⟩
    · rintro ⟨a, ⟨answer, hanswer, h₁⟩, h₂⟩
      exact ⟨answer, hanswer, a, h₁, h₂⟩

/-- A program whose questions are answered by other programs gets what those can give. -/
theorem ends_interpret_iff {Q' : Type} {A' : Q' → Type} {allowed : (q : Q') → A' q → Prop}
    {answer : (q : Q) → Program Q' A' (A q)} {p : Program Q A α} {a : α} :
    Ends allowed (p.interpret answer) a ↔ Ends (fun q ↦ Ends allowed (answer q)) p a := by
  induction p with
  | done b => rw [interpret, ends_done_iff, ends_done_iff]
  | ask q next ih =>
    rw [interpret, ends_bind_iff, ends_ask_iff]
    exact exists_congr fun answer ↦ and_congr_right fun _ ↦ ih answer

/-! ## Restricted questions -/

/-- A program that asks only questions of one kind, whatever it is answered. -/
inductive Only (kind : Q → Prop) : Program Q A α → Prop where
  | done (a : α) : Only kind (.done a)
  | ask {q : Q} {next : A q → Program Q A α} (hq : kind q) (h : ∀ answer, Only kind (next answer)) :
      Only kind (.ask q next)

variable {kind : Q → Prop}

theorem Only.bind {p : Program Q A α} {f : α → Program Q A β} (hp : p.Only kind)
    (hf : ∀ a, (f a).Only kind) : (p.bind f).Only kind := by
  induction hp with
  | done a => exact hf a
  | ask hq h ih => exact .ask hq ih

theorem Only.mono {kind' : Q → Prop} {p : Program Q A α} (hp : p.Only kind)
    (himp : ∀ q, kind q → kind' q) : p.Only kind' := by
  induction hp with
  | done a => exact .done a
  | ask hq _ ih => exact .ask (himp _ hq) ih

/-- Where the questions of one kind are answered by programs that ask questions of another one, all
questions are of that other kind. -/
theorem Only.interpret {Q' : Type} {A' : Q' → Type} {kind' : Q' → Prop}
    {answer : (q : Q) → Program Q' A' (A q)} {p : Program Q A α} (hp : p.Only kind)
    (hanswer : ∀ q, kind q → (answer q).Only kind') : (p.interpret answer).Only kind' := by
  induction hp with
  | done a => exact .done a
  | ask hq _ ih => exact (hanswer _ hq).bind ih

/-! ## Runs that are not over -/

/-- What is left of a program behind a part of a transcript. -/
inductive Reaches (p : Program Q A α) : List (Sigma A) → Program Q A α → Prop where
  | refl : Reaches p [] p
  | ask {t : List (Sigma A)} {q : Q} {next : A q → Program Q A α} (h : Reaches p t (.ask q next))
      (answer : A q) : Reaches p (t ++ [⟨q, answer⟩]) (next answer)

/-- A run of what is left is the end of a run. -/
theorem Reaches.runs {p rest : Program Q A α} {t t' : List (Sigma A)} {a : α}
    (h : Reaches p t rest) (hrest : Runs rest t' a) : Runs p (t ++ t') a := by
  induction h generalizing t' with
  | refl => exact hrest
  | ask h answer ih =>
    rw [List.append_assoc]
    exact ih (.ask answer hrest)

/-- What asks only questions of one kind has asked only such questions, and goes on so. -/
theorem Reaches.only {p rest : Program Q A α} {t : List (Sigma A)} (h : Reaches p t rest)
    (hp : p.Only kind) : rest.Only kind ∧ ∀ c ∈ t, kind c.1 := by
  induction h with
  | refl => exact ⟨hp, List.forall_mem_nil _⟩
  | ask h answer ih =>
    obtain ⟨hask, ht⟩ := ih
    cases hask with
    | ask hq hnext =>
      refine ⟨hnext answer, fun c hc ↦ ?_⟩
      rcases List.mem_append.1 hc with hc | hc
      · exact ht c hc
      · obtain rfl := List.mem_singleton.1 hc
        exact hq

/-- Where every question has some answer, a program has a run. -/
theorem exists_runs (hA : ∀ q, Nonempty (A q)) (p : Program Q A α) : ∃ t a, Runs p t a := by
  induction p with
  | done a => exact ⟨[], a, .done a⟩
  | ask q next ih =>
    obtain ⟨answer⟩ := hA q
    obtain ⟨t, a, h⟩ := ih answer
    exact ⟨_, a, .ask answer h⟩

/-- A program asks only questions of one kind if its transcripts have no others. -/
theorem only_of_runs (hA : ∀ q, Nonempty (A q)) {p : Program Q A α}
    (h : ∀ t a, Runs p t a → ∀ c ∈ t, kind c.1) : p.Only kind := by
  induction p with
  | done a => exact .done a
  | ask q next ih =>
    obtain ⟨answer⟩ := hA q
    obtain ⟨t, a, hruns⟩ := exists_runs hA (next answer)
    refine .ask (h _ _ (.ask answer hruns) _ List.mem_cons_self) fun answer ↦ ih answer ?_
    exact fun t a hruns c hc ↦ h _ _ (.ask answer hruns) c (List.mem_cons_of_mem _ hc)

end Program

/-! ## Handlers -/

/-- Every question of a session may be answered somehow. -/
theorem Ask.nonempty_answer : ∀ q : Ask, Nonempty q.Answer
  | .emit _ => ⟨()⟩
  | .accessLevel _ _ | .allowKeyless | .lookup _ | .create _ _ | .list => ⟨.error ⟨none⟩⟩
  | .serve _ _ io => ⟨⟨io, .ok (.ok ())⟩⟩

/-- A question of a session with the answer it got. -/
abbrev Call := Sigma Ask.Answer

namespace Handler

open Program

variable {α β : Type} {s s' : Session} {t : List Call}

/-- A run of a handler on a session: what it asked, how it ended, and the session it leaves. -/
def Does (h : Handler α) (s : Session) (t : List Call) (o : Except Crash α) (s' : Session) : Prop :=
  Runs (h.run.run s) t (o, s')

theorem run_bind (h : Handler α) (f : α → Handler β) (s : Session) :
    (h >>= f).run.run s = (h.run.run s).bind fun
      | (.ok a, s) => (f a).run.run s
      | (.error crash, s) => .done (.error crash, s) := by
  refine congrArg (Program.bind (h.run.run s)) (funext fun x ↦ ?_)
  obtain ⟨o, s'⟩ := x
  cases o <;> rfl

/-- A handler goes on with the value of another one, and breaks off where that one does. -/
theorem does_bind_iff {h : Handler α} {f : α → Handler β} {o : Except Crash β} :
    Does (h >>= f) s t o s' ↔
      (∃ crash, Does h s t (.error crash) s' ∧ o = .error crash) ∨
        ∃ t₁ a s₁ t₂, t = t₁ ++ t₂ ∧ Does h s t₁ (.ok a) s₁ ∧ Does (f a) s₁ t₂ o s' := by
  rw [Does, run_bind, runs_bind_iff]
  constructor
  · rintro ⟨t₁, ⟨r, s₁⟩, t₂, rfl, h₁, h₂⟩
    cases r with
    | ok a => exact .inr ⟨t₁, a, s₁, t₂, rfl, h₁, h₂⟩
    | error crash =>
      obtain ⟨rfl, hend⟩ := runs_done_iff.1 h₂
      cases hend
      exact .inl ⟨crash, by rwa [List.append_nil], rfl⟩
  · rintro (⟨crash, h₁, rfl⟩ | ⟨t₁, a, s₁, t₂, rfl, h₁, h₂⟩)
    · exact ⟨t, _, [], (List.append_nil t).symm, h₁, .done _⟩
    · exact ⟨t₁, _, t₂, rfl, h₁, h₂⟩

theorem does_pure_iff {a : α} {o : Except Crash α} :
    Does (pure a) s t o s' ↔ t = [] ∧ o = .ok a ∧ s' = s := by
  rw [← Prod.mk.injEq]
  exact runs_done_iff

theorem does_get_bind_iff {f : Session → Handler α} {o : Except Crash α} :
    Does (get >>= f) s t o s' ↔ Does (f s) s t o s' := Iff.rfl

/-- A report is not answered, so the handler always goes on. -/
theorem does_emit_bind_iff {e : LogEvent} {f : Unit → Handler α} {o : Except Crash α} :
    Does (emit e >>= f) s t o s' ↔ ∃ t', t = ⟨.emit e, ()⟩ :: t' ∧ Does (f ()) s t' o s' := by
  refine runs_ask_iff.trans ⟨fun h ↦ ?_, fun h ↦ ⟨(), h⟩⟩
  obtain ⟨_, h⟩ := h
  exact h

theorem does_emit_return_iff {e : LogEvent} {a : α} {o : Except Crash α} :
    Does (do emit e; return a) s t o s' ↔ t = [⟨.emit e, ()⟩] ∧ o = .ok a ∧ s' = s := by
  rw [does_emit_bind_iff]
  simp only [does_pure_iff]
  constructor
  · rintro ⟨t', rfl, rfl, h⟩
    exact ⟨rfl, h⟩
  · rintro ⟨rfl, h⟩
    exact ⟨[], rfl, rfl, h⟩

theorem does_accessLevel_iff {name : RepoName} {key : Option ClientKey}
    {o : Except Crash AccessLevel} :
    Does (accessLevel name key) s t o s' ↔ t = [⟨.accessLevel name key, o⟩] ∧ s' = s :=
  runs_ask_pair_iff

theorem does_lookup_iff {name : RepoName} {o : Except Crash (Except BackendError Repository)} :
    Does (lookup name) s t o s' ↔ t = [⟨.lookup name, o⟩] ∧ s' = s :=
  runs_ask_pair_iff

theorem does_create_iff {name : RepoName} {isPrivate : Bool}
    {o : Except Crash (Except BackendError Repository)} :
    Does (create name isPrivate) s t o s' ↔ t = [⟨.create name isPrivate, o⟩] ∧ s' = s :=
  runs_ask_pair_iff

theorem does_list_iff {o : Except Crash (Except BackendError (List RepoName))} :
    Does list s t o s' ↔ t = [⟨.list, o⟩] ∧ s' = s :=
  runs_ask_pair_iff

/-- What asks one question and leaves the session alone goes on with the answer, unless that was a
crash. -/
theorem does_call_bind_iff {h : Handler α} {call : Except Crash α → Call}
    (hcall : ∀ {t o s'}, Does h s t o s' ↔ t = [call o] ∧ s' = s) {f : α → Handler β}
    {o : Except Crash β} :
    Does (h >>= f) s t o s' ↔
      (∃ crash, t = [call (.error crash)] ∧ o = .error crash ∧ s' = s) ∨
        ∃ a t', t = call (.ok a) :: t' ∧ Does (f a) s t' o s' := by
  simp only [does_bind_iff, hcall]
  refine or_congr (exists_congr fun crash ↦ ?_) ⟨?_, ?_⟩
  · rw [and_assoc, and_comm (a := s' = s)]
  · rintro ⟨t₁, a, s₁, t₂, rfl, ⟨rfl, rfl⟩, h⟩
    exact ⟨a, t₂, rfl, h⟩
  · rintro ⟨a, t', rfl, h⟩
    exact ⟨_, a, s, t', rfl, ⟨rfl, rfl⟩, h⟩

/-- A pack operation gets the session's streams, and the session gets back what is left of them,
also when the operation crashed. -/
theorem does_serve_iff {service : Git.Service} {path : RepoPath}
    {o : Except Crash (Except PackError Unit)} :
    Does (serve service path) s t o s' ↔
      ∃ served, t = [⟨.serve service path s.packIo, served⟩] ∧ o = served.result ∧
        s' = s.withIo served.io := by
  refine runs_ask_done_iff.trans (exists_congr fun served ↦ and_congr_right fun _ ↦ ?_)
  rw [← Prod.mk.injEq]

end Handler

end GitGateway
