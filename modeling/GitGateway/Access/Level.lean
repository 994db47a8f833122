import GitGateway.Text.Quoted

/-!
# Access levels

What an identity may do with a repository.  The levels are ordered, and each allows what the ones
below it allow.
-/

namespace GitGateway

/-- What an identity may do with a repository. -/
inductive AccessLevel where
  | noAccess
  | readOnly
  | readWrite
  | admin
deriving DecidableEq, Repr

namespace AccessLevel

/-- The place of a level in the order. -/
def rank : AccessLevel → Nat
  | .noAccess => 0
  | .readOnly => 1
  | .readWrite => 2
  | .admin => 3

instance : LE AccessLevel := ⟨fun a b => a.rank ≤ b.rank⟩
instance : LT AccessLevel := ⟨fun a b => a.rank < b.rank⟩
instance (a b : AccessLevel) : Decidable (a ≤ b) := inferInstanceAs (Decidable (a.rank ≤ b.rank))
instance (a b : AccessLevel) : Decidable (a < b) := inferInstanceAs (Decidable (a.rank < b.rank))

/-- The higher of two levels. -/
instance : Max AccessLevel := ⟨fun a b => if a ≤ b then b else a⟩

theorem le_def {a b : AccessLevel} : a ≤ b ↔ a.rank ≤ b.rank := Iff.rfl

/-- Whether the level allows fetching. -/
def canRead (l : AccessLevel) : Bool := AccessLevel.readOnly ≤ l

/-- Whether the level allows pushing. -/
def canWrite (l : AccessLevel) : Bool := AccessLevel.readWrite ≤ l

/-- The name of a level. -/
def name : AccessLevel → String
  | .noAccess => "no-access"
  | .readOnly => "read-only"
  | .readWrite => "read-write"
  | .admin => "admin"

/-- All levels in ascending order. -/
def all : List AccessLevel := [.noAccess, .readOnly, .readWrite, .admin]

/-- The level with this name. -/
def ofName? (s : String) : Option AccessLevel := all.find? fun l => l.name == s

/-- What is said about a name that no level has. -/
def unknownMessage (s : String) : String := "unknown access level: " ++ Text.quoted s

end AccessLevel

end GitGateway
