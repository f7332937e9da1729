/-
Files held in memory, for runs that touch no disk. A path is followed
component by component: `.` and an empty component stay in a directory,
`..` goes up, and a name goes down. Every component but the last is taken
in a directory, so a path that goes on behind a file, be it by a single
slash, leads nowhere.
-/
import TsoBridge.Text.Line

namespace TsoBridge.Cli

/-- The components of a path, from the root or from where it is
followed. -/
abbrev Path := List String

namespace Path

/-- The components of a written path. -/
def parse (path : String) : Path :=
  (Text.split (· == '/') path.toList).map String.ofList

/-- Whether a component stays in its directory. -/
def isHere (component : String) : Bool :=
  component == "" || component == "."

/-- The bytes a written path has at least if it is too long to be
followed. -/
def tooLong : Nat := 4096

end Path

/-- Files and the directory a run starts in. -/
structure FileTree where
  /-- The files by their paths from the root. -/
  files : List (Path × String)
  /-- Where a path without a leading slash starts. -/
  workingDirectory : Path

namespace FileTree

/-- Whether there is a directory at `place`: one on the way to the working
directory or to a file. -/
def isDirectory (tree : FileTree) (place : Path) : Bool :=
  place.isPrefixOf tree.workingDirectory
    || tree.files.any fun (path, _) => place.isPrefixOf path && decide (place.length < path.length)

/-- Where the components lead from `place`. -/
def follow (tree : FileTree) (place : Path) : Path → Option Path
  | [] => some place
  | component :: rest =>
    if !tree.isDirectory place then none
    else if Path.isHere component then tree.follow place rest
    else if component == ".." then tree.follow place.dropLast rest
    else tree.follow (place ++ [component]) rest

/-- The text of the file a path leads to. -/
def read (tree : FileTree) (path : String) : Option String := do
  guard (path.utf8ByteSize < Path.tooLong)
  let start := if path.toList.head? == some '/' then [] else tree.workingDirectory
  tree.files.lookup (← tree.follow start (Path.parse path))

/-- The devices that read as an empty text: the null device, and the
standard input of a run that gets none. -/
def emptyDevices : List Path :=
  [["dev", "null"], ["dev", "stdin"]]

/-- Files in the working directory of a system that has nothing else but
its devices. The directory has a name no component can be, so that no
path comes back to it once it has gone up. -/
def ofFiles (files : List (String × String)) : FileTree :=
  let workingDirectory : Path := ["tmp", "/"]
  { files := emptyDevices.map (·, "") ++ files.map fun (name, text) =>
      (workingDirectory ++ (Path.parse name).filter (!Path.isHere ·), text)
    workingDirectory }

end FileTree
end TsoBridge.Cli
