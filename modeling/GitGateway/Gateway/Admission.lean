import GitGateway.Gateway

/-!
# Admission

Whether a connection is let in.  A key is, if its level on no particular repository allows reading;
a client without a key is, if such clients are admitted at all and everybody may read.
-/

namespace GitGateway.Admission

/-- Whether an identity may read at all. -/
def mayRead (key : Option ClientKey) : Asking (Except Crash Bool) := do
  return (← Program.call (Q := Ask) (A := Ask.Answer) (.accessLevel .unnamed key)).map (·.canRead)

/-- Whether a key is let in. -/
def byKey (key : ClientKey) : Asking (Except Crash Bool) := mayRead (some key)

/-- Whether a client without a key is let in. -/
def withoutKey : Asking (Except Crash Bool) := do
  match ← Program.call (Q := Ask) (A := Ask.Answer) .allowKeyless with
  | .ok true => mayRead none
  | .ok false => return .ok false
  | .error crash => return .error crash

end GitGateway.Admission
