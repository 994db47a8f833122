/-!
# Failures

Why something inside the gateway went wrong: a chain of explanations, outermost first.  A failure
is for the log; what a client is told never depends on it.
-/

namespace GitGateway

/-- A chain of explanations, outermost first. -/
structure Failure where
  causes : List String
deriving DecidableEq, Repr

namespace Failure

/-- A failure with one explanation. -/
def ofText (text : String) : Failure := ⟨[text]⟩

/-- Puts an explanation in front of a failure. -/
def context (f : Failure) (text : String) : Failure := ⟨text :: f.causes⟩

/-- The whole chain as one text. -/
def message (f : Failure) : String := String.intercalate ": " f.causes

/-- The outermost explanation. -/
def headline (f : Failure) : String := f.causes.headD ""

/-- Lines of an explanation, of which the later ones stand below the first. -/
def indented (first later : String) (text : String) : String :=
  first ++ String.intercalate ("\n" ++ later) ((text.toList.splitOn '\n').map String.ofList)

/-- The explanations of the outermost one; several are numbered. -/
def causeLines : List String → List String
  | [cause] => [indented "    " "    " cause]
  | causes =>
    (List.range causes.length).zip causes |>.map fun (i, cause) =>
      let number := toString i
      indented ("".pushn ' ' (5 - number.length) ++ number ++ ": ") "       " cause

/-- The chain as it is shown when the program ends with it. -/
def report (f : Failure) : String :=
  let causes := f.causes.tail
  "Error: " ++ f.headline ++ "\n" ++
    if causes.isEmpty then ""
    else "\nCaused by:\n" ++ String.join ((causeLines causes).map (· ++ "\n"))

end Failure

end GitGateway
