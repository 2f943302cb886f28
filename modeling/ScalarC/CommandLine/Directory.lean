import ScalarC.CommandLine.Run

/-!
# Directories in memory

A working directory as a value: files by their path. Commands can be run on it
without a disk. A directory exists as far as some file lies below it; the working
directory, those above it and a few below the root are always there.
-/

namespace ScalarC

namespace CommandLine

/-- The names on the way to a file from the working directory. A path that leads
upwards starts with names `..`, and one from the root with the name `/`. -/
abbrev Path := List String

namespace Path

def root : Path := ["/"]

/-- The file that is always empty. -/
def nullDevice : Path := ["/", "dev", "null"]

/-- Whether a path leads to the working directory or to one above it. -/
def leadsUp (path : Path) : Bool := path.all (· == "..")

/-- The directories that are there without a file below them. -/
def isStanding (path : Path) : Bool :=
  path.leadsUp || [root, ["/", "dev"], ["/", "tmp"]].contains path

/-- The directory above; the root is its own. -/
def parent (path : Path) : Path :=
  if path == root then root
  else if path.leadsUp then path ++ [".."]
  else path.dropLast

end Path

/-- The files that a run can reach. -/
structure Directory where
  files : List (Path × String) := []

namespace Directory

def content? (directory : Directory) (path : Path) : Option String :=
  if path == Path.nullDevice then some "" else directory.files.lookup path

/-- Whether a path leads to a directory. -/
def hasDirectory (directory : Directory) (path : Path) : Bool :=
  path.isStanding || directory.files.any fun file => path.isPrefixOf file.1 && path != file.1

/-- Fails unless a path leads to a directory. -/
def requireDirectory (directory : Directory) (path : Path) : Except FileFault Unit :=
  if directory.hasDirectory path then .ok ()
  else if (directory.content? path).isSome then .error .notDirectory
  else .error .missing

/-- The path one name further on. A name has at most 255 bytes. -/
def enter (directory : Directory) (reached : Path) (name : String) : Except FileFault Path := do
  directory.requireDirectory reached
  if name == "" || name == "." then return reached
  else if name == ".." then return reached.parent
  else if 255 < name.utf8ByteSize then throw .nameTooLong
  else return reached ++ [name]

/-- Where a path starts. -/
def start (path : String) : Path :=
  if path.toList.head? == some '/' then Path.root else []

/-- The names of a path, which has less than 4096 bytes. -/
def names (path : String) : Except FileFault (List String) :=
  if 4096 ≤ path.utf8ByteSize then .error .nameTooLong else .ok (path.splitOn "/")

def read (directory : Directory) (path : String) : Except FileFault String := do
  let reached ← (← names path).foldlM directory.enter (start path)
  if directory.hasDirectory reached then throw .isDirectory
  match directory.content? reached with
  | some text => return text
  | none => throw .missing

/-- Adds a file or replaces its content. -/
def put (directory : Directory) (path : Path) (text : String) : Directory :=
  if path == Path.nullDevice then directory
  else { files := (path, text) :: directory.files.filter (·.1 != path) }

/-- Writes a file, which may be new, in a directory that exists. A path with a
slash at its end does not name a file. -/
def write (directory : Directory) (path text : String) : Except FileFault Directory := do
  let backwards := (← names path).reverse
  let above ← (backwards.dropWhile (· == "")).tail.reverse.foldlM directory.enter (start path)
  directory.requireDirectory above
  match backwards with
  | [] | "" :: _ | "." :: _ | ".." :: _ => throw .isDirectory
  | name :: _ =>
    let reached ← directory.enter above name
    if directory.hasDirectory reached then throw .isDirectory
    return directory.put reached text

/-- The files of a directory that runs carry along. -/
def access : Files (StateM Directory) where
  read path := fun directory => (directory.read path, directory)
  write path text := fun directory =>
    match directory.write path text with
    | .ok changed => (.ok (), changed)
    | .error fault => (.error fault, directory)

/-- Adds a file together with the directories above it. -/
def add (directory : Directory) (path text : String) : Directory :=
  directory.put ((path.splitOn "/").filter (· != "")) text

end Directory

/-- Runs a command in a directory. -/
def runIn (directory : Directory) (args : List String) : Outcome × Directory :=
  run Directory.access args directory

end CommandLine

end ScalarC
