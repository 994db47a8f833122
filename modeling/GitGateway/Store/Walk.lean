import GitGateway.Store

/-!
# Walking a store

The repositories below a root are found by a walk.  A stack holds the directories that the walk came
to and has not yet looked into, and the last one put there is looked into first: the repositories in
it are named by their path below the root, and its other directories go on the stack.  A path that
does not begin with the root has no name below it, and the walk would fail there.

A walk looks into a directory, and for the file `HEAD` in one, by the path that goes on from the
root.  So it does not see what it has no right to search, nor what lies too deep for the system to
follow the path, and takes a repository whose `HEAD` it cannot see for a directory like others.
-/

namespace GitGateway

namespace Path

/-- What a path has behind another one, if it begins with the components of that one. -/
def below? (root path : String) : Option String :=
  ((components root).isPrefixOf? (components path)).map render

/-- The path that goes down from another one along names, given innermost first. -/
def trail (root : String) : List FileName → String
  | [] => root
  | name :: below => join (trail root below) name.shown

end Path

/-- Whether a path leads to a file. -/
def Disk.Lead.isFile : Disk.Lead → Bool
  | .entry _ e => e.isFile
  | _ => false

namespace Listing

/-- A directory that a walk came to. -/
structure Directory where
  /-- The names that lead down to it from the root, innermost first. -/
  below : List FileName
  readable : Bool
  /-- What is in it, in the order in which it is read. -/
  entries : List (FileName × Entry)

namespace Directory

/-- The directory that an entry of a directory is; a link to one is none. -/
def child? (dir : Directory) : FileName × Entry → Option Directory
  | (name, .dir readable entries) => some ⟨name :: dir.below, readable, entries⟩
  | _ => none

/-- The directories in a directory. -/
def children (dir : Directory) : List Directory := dir.entries.filterMap dir.child?

/-- The path of a directory below a root. -/
def path (root : String) (dir : Directory) : String := Path.trail root dir.below

/-- The name of a repository below a root. -/
def name (root : String) (dir : Directory) : Except Failure String :=
  match Path.below? root (dir.path root) with
  | some rest => .ok (dropSuffix rest)
  | none => .error ⟨["repo " ++ dir.path root ++ " is outside " ++ root, "prefix not found"]⟩

/-- How much there is to look at in the directories of a stack. -/
noncomputable def weight : List Directory → Nat
  | [] => 0
  | dir :: stack => sizeOf dir.entries + weight stack

theorem weight_append (a b : List Directory) : weight (a ++ b) = weight a + weight b := by
  induction a with
  | nil => simp [weight]
  | cons dir a ih => simp [weight, ih, Nat.add_assoc]

theorem weight_reverse (a : List Directory) : weight a.reverse = weight a := by
  induction a with
  | nil => rfl
  | cons dir a ih => simp [weight, weight_append, ih, Nat.add_comm]

theorem weight_filter_le (test : Directory → Bool) (a : List Directory) :
    weight (a.filter test) ≤ weight a := by
  induction a with
  | nil => exact Nat.le_refl _
  | cons dir a ih =>
    rw [List.filter_cons]
    split
    · exact Nat.add_le_add_left ih _
    · exact Nat.le_trans ih (Nat.le_add_left _ _)

theorem weight_filterMap_child?_lt (dir : Directory) (es : List (FileName × Entry)) :
    weight (es.filterMap dir.child?) < sizeOf es := by
  induction es with
  | nil => simp [weight]
  | cons entry es ih =>
    obtain ⟨name, e⟩ := entry
    cases e with
    | dir r sub =>
      rw [List.filterMap_cons, child?, weight, List.cons.sizeOf_spec, Prod.mk.sizeOf_spec,
        Entry.dir.sizeOf_spec]
      dsimp only
      omega
    | file | link =>
      simp only [List.filterMap_cons, child?, List.cons.sizeOf_spec]
      omega

/-- There is less to look at in the directories of a directory than in itself. -/
theorem weight_children_lt (dir : Directory) : weight dir.children < sizeOf dir.entries :=
  dir.weight_filterMap_child?_lt dir.entries

end Directory

section Walk

variable (d : Disk) (rights : List FileName → Bool) (root : String)

/-- Whether a walk takes what names lead down to, innermost first, for a repository. -/
def seesRepository (names : List FileName) : Bool :=
  names.head?.any FileName.isGit &&
    (d.leadAlong rights root (names.reverse ++ [.text "HEAD"])).isFile

namespace Directory

/-- The repositories in a directory. -/
def repositories (dir : Directory) : List Directory :=
  dir.children.filter fun c => seesRepository d rights root c.below

/-- The other directories in a directory. -/
def others (dir : Directory) : List Directory :=
  dir.children.filter fun c => !seesRepository d rights root c.below

/-- Why a walk cannot look into a directory. -/
def refusal? (dir : Directory) : Option OsError :=
  match d.leadAlong rights root dir.below.reverse with
  | .entry _ _ => if dir.readable then none else some .permissionDenied
  | .missing _ _ => some .notFound
  | .refused e => some e

theorem weight_others_lt (dir : Directory) :
    weight (dir.others d rights root) < sizeOf dir.entries :=
  Nat.lt_of_le_of_lt (weight_filter_le _ dir.children) dir.weight_children_lt

end Directory

open Directory

/-- What a walk finds that has found something already, and goes on with a stack of directories. -/
def walkFrom (found : Listing) : List Directory → Except Failure Listing
  | [] => .ok found
  | dir :: stack =>
    match dir.refusal? d rights root with
    | some e => walkFrom (found ++ ⟨[], [(dir.path root, e)]⟩) stack
    | none => do
      let names ← (dir.repositories d rights root).mapM (name root)
      walkFrom (found ++ ⟨names, []⟩) ((dir.others d rights root).reverse ++ stack)
termination_by stack => weight stack
decreasing_by
  · have := dir.weight_children_lt
    rw [weight]
    omega
  · have := weight_others_lt d rights root dir
    rw [weight_append, weight_reverse, weight]
    omega

/-- What was found, with the repositories in order. -/
def sorted (l : Listing) : Listing :=
  { l with names := l.names.mergeSort fun a b => decide (a ≤ b) }

/-- What a walk finds below a root, for somebody who has the right to search some directories; a
root that is missing has no repositories. -/
def walk : Except Failure Listing :=
  match d.leadAlong rights root [] with
  | .entry _ (.dir readable entries) =>
    (walkFrom d rights root {} [⟨[], readable, entries⟩]).map sorted
  | .entry _ _ => .ok ⟨[], [(root, .notDirectory)]⟩
  | _ => .ok {}

end Walk

end Listing

namespace Store

/-- The repositories below a directory, as a walk finds them that may search every directory. -/
def walked (root : String) : OnHost (Except Failure (List String)) := do
  match Listing.walk (← OnHost.ask .disk) (fun _ => true) root with
  | .error e => return .error e
  | .ok found =>
    report found.events
    return .ok found.names

/-- The names marked private among those that a walk finds. -/
def scanned (root : String) : OnHost (Except Failure (List String)) := do
  match ← walked root with
  | .error e => return .error e
  | .ok entries => return .ok (← marked root entries)

/-- Opens the store at a root by a walk; gives the names that are marked private as well. -/
def openWalked (root : String) (settings : AccessSettings) :
    OnHost (Except Failure (Store × List String)) := do
  match Policy.ofSettings settings with
  | .error e => return .error e.failure
  | .ok policy =>
    match ← scanned root with
    | .error e => return .error e
    | .ok marks => return .ok (⟨root, policy⟩, marks)

end Store

end GitGateway
