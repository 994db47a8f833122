/-!
# Programs that ask

A program computes until it needs something from its surroundings, asks, and goes on with the
answer.  Nothing else connects it with them, so a statement about every answer is a statement about
all surroundings, honest or not, and one program can be run alone or step by step among others.
-/

namespace GitGateway

/-- A program that asks questions `Q`, of which `q` is answered by an `A q`, and gives an `α`. -/
inductive Program (Q : Type) (A : Q → Type) (α : Type) where
  | done (value : α)
  | ask (q : Q) (next : A q → Program Q A α)

namespace Program

variable {Q : Type} {A : Q → Type} {α β γ : Type}

/-- Goes on with the value of a program. -/
def bind : Program Q A α → (α → Program Q A β) → Program Q A β
  | .done a, f => f a
  | .ask q next, f => .ask q fun a => (next a).bind f

instance : Monad (Program Q A) where
  pure := .done
  bind := bind

@[simp] theorem bind_done (a : α) (f : α → Program Q A β) : (Program.done a).bind f = f a := rfl

@[simp] theorem bind_ask (q : Q) (next : A q → Program Q A α) (f : α → Program Q A β) :
    (Program.ask q next).bind f = .ask q fun a => (next a).bind f := rfl

theorem bind_assoc (p : Program Q A α) (f : α → Program Q A β) (g : β → Program Q A γ) :
    (p.bind f).bind g = p.bind fun a => (f a).bind g := by
  induction p with
  | done a => rfl
  | ask q next ih => simp [ih]

theorem bind_pure (p : Program Q A α) : p.bind .done = p := by
  induction p with
  | done a => rfl
  | ask q next ih => simp [ih]

instance : LawfulMonad (Program Q A) := LawfulMonad.mk' _
  (fun p => bind_pure p)
  (fun _ _ => rfl)
  (fun p f g => bind_assoc p f g)

/-- Asks one question. -/
def call (q : Q) : Program Q A (A q) := .ask q .done

/-- Runs a program in surroundings that answer from a state. -/
def run {σ : Type} (answer : (q : Q) → σ → A q × σ) : Program Q A α → σ → α × σ
  | .done a, s => (a, s)
  | .ask q next, s =>
    let (a, s) := answer q s
    (next a).run answer s

/-- Answers every question by a program that asks other questions. -/
def interpret {Q' : Type} {A' : Q' → Type} (answer : (q : Q) → Program Q' A' (A q)) :
    Program Q A α → Program Q' A' α
  | .done a => .done a
  | .ask q next => (answer q).bind fun a => (next a).interpret answer

@[simp] theorem run_done {σ : Type} (answer : (q : Q) → σ → A q × σ) (a : α) (s : σ) :
    (Program.done a : Program Q A α).run answer s = (a, s) := rfl

@[simp] theorem run_ask {σ : Type} (answer : (q : Q) → σ → A q × σ) (q : Q)
    (next : A q → Program Q A α) (s : σ) :
    (Program.ask q next).run answer s = (next (answer q s).1).run answer (answer q s).2 := rfl

theorem run_bind {σ : Type} (answer : (q : Q) → σ → A q × σ) (p : Program Q A α)
    (f : α → Program Q A β) (s : σ) :
    (p.bind f).run answer s = (f (p.run answer s).1).run answer (p.run answer s).2 := by
  induction p generalizing s with
  | done a => rfl
  | ask q next ih => simp [ih]

end Program

end GitGateway
