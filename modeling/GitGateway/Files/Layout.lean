import GitGateway.Files.Disk

/-!
# Layouts

A disk is furnished by laying out entries below a directory.  Directories on the way are made as
needed, and an entry that the disk refuses is left out.
-/

namespace GitGateway

/-- One entry to lay out; paths are relative to where the layout goes. -/
inductive Furnishing where
  | dir (path : String)
  | file (path : String) (data : List UInt8)
  | link (path target : String)
  /-- A directory with these bytes as its name, which holds an empty file `HEAD`. -/
  | rawRepository (name : List UInt8)
deriving DecidableEq, Repr

namespace Disk

/-- The disk after a change, or as it was if the change is refused. -/
def orSame (d : Disk) (change : Except OsError Disk) : Disk := change.toOption.getD d

/-- Makes the directories above a path. -/
def makeAbove (d : Disk) (path : String) : Disk :=
  match Path.parent? path with
  | some above => d.orSame (d.makeDirAll above)
  | none => d

/-- Lays out one entry below a directory. -/
def furnish (d : Disk) (base : String) : Furnishing → Disk
  | .dir path => d.orSame (d.makeDirAll (Path.join base path))
  | .file path data =>
    let path := Path.join base path
    let d := d.makeAbove path
    d.orSame (d.writeFile path data)
  | .link path target =>
    let path := Path.join base path
    let d := d.makeAbove path
    d.orSame (d.makeLink path target)
  | .rawRepository name =>
    match d.lead true base with
    | .entry place (.dir _ _) =>
      d.put place (.ofBytes name) (.dir true [(.text "HEAD", .file [])])
    | _ => d

/-- Makes a directory and lays out entries below it. -/
def layOut (d : Disk) (base : String) (entries : List Furnishing) : Disk :=
  entries.foldl (fun d e => d.furnish base e) (d.orSame (d.makeDirAll base))

end Disk

end GitGateway
