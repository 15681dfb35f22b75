import Flowgraph.Json

/-!
# Paths and files

A path is the list of the names from the root down to a file.  The files that the program can
see are a list of paths with what is there; a directory is there as soon as something lies
below it.
-/

namespace Flowgraph

/-- The names from the root down to a file or a directory. -/
abbrev Path := List String

namespace Path

/-- The directory that holds a file; the root holds itself. -/
def parent (p : Path) : Path := p.dropLast

/-- The path that a text names when `base` is the current directory.  A dot stands for the
directory itself and two dots for the one above it. -/
def resolve (base : Path) (text : String) : Path :=
  let parts := text.splitOn "/"
  let start := if text.startsWith "/" then [] else base
  parts.foldl (fun p part =>
    if part == "" || part == "." then p
    else if part == ".." then parent p
    else p ++ [part]) start

/-- The text of a path. -/
def text (p : Path) : String := "/" ++ "/".intercalate p

/-- A directory and the directories above it, the nearest one first. -/
def upward : (fuel : Nat) → Path → List Path
  | 0, p => [p]
  | fuel + 1, p => p :: upward fuel (parent p)

/-- A path and all that hold it, up to the root. -/
def ancestors (p : Path) : List Path := upward p.length p

end Path

/-- What happens when a script is run for its value. -/
inductive ScriptOutcome where
  /-- The script has a value. -/
  | value (value : Json)
  /-- The script stops with an error of the given message. -/
  | raised (message : String)
  /-- The script stops with a value in place of an error. -/
  | raisedValue (value : Json)
  deriving Inhabited

/-- What is found at a path. -/
inductive Entry where
  | directory
  | file (text : String)
  /-- A file whose script is run for its value. -/
  | script (text : String) (outcome : ScriptOutcome)
  deriving Inhabited

/-- Why a file could not be read or written. -/
inductive FileError where
  /-- Nothing is there. -/
  | missing (path : Path)
  /-- A directory was to be read. -/
  | readDirectory
  /-- A directory was to be written. -/
  | writeDirectory (path : Path)
  /-- Something above the path is a file. -/
  | underFile (path : Path)
  deriving DecidableEq, Repr, Inhabited

/-- The text that tells a reader what is wrong with a file. -/
def FileError.message : FileError → String
  | .missing path => "ENOENT: no such file or directory, open '" ++ path.text ++ "'"
  | .readDirectory => "EISDIR: illegal operation on a directory, read"
  | .writeDirectory path => "EISDIR: illegal operation on a directory, open '" ++ path.text ++ "'"
  | .underFile path => "ENOTDIR: not a directory, open '" ++ path.text ++ "'"

/-- The files that the program can see. -/
structure FileSystem where
  entries : List (Path × Entry) := []
  deriving Inhabited

namespace FileSystem

/-- What is found at a path. -/
def entry? (fs : FileSystem) (path : Path) : Option Entry :=
  match fs.entries.lookup path with
  | some entry => some entry
  | none =>
    if path.isEmpty || fs.entries.any fun entry => path.isPrefixOf entry.1 then some .directory
    else none

/-- Something is found at a path. -/
def has (fs : FileSystem) (path : Path) : Bool := (fs.entry? path).isSome

/-- Something above the path is a file. -/
def isUnderFile (fs : FileSystem) (path : Path) : Bool :=
  path.parent.ancestors.any fun above =>
    match fs.entry? above with
    | some (.file _) | some (.script ..) => true
    | _ => false

/-- The text of a file. -/
def read (fs : FileSystem) (path : Path) : Except FileError String :=
  match fs.entry? path with
  | some (.file text) | some (.script text _) => .ok text
  | some .directory => .error .readDirectory
  | none => .error (if fs.isUnderFile path then .underFile path else .missing path)

/-- Put an entry at a path, in place of what was there. -/
def put (fs : FileSystem) (path : Path) (entry : Entry) : FileSystem :=
  ⟨(fs.entries.filter (·.1 != path)) ++ [(path, entry)]⟩

/-- Remove what is at a path. -/
def remove (fs : FileSystem) (path : Path) : FileSystem :=
  ⟨fs.entries.filter (·.1 != path)⟩

/-- Write a file into a directory that is there. -/
def write (fs : FileSystem) (path : Path) (text : String) : Except FileError FileSystem :=
  match fs.entry? path with
  | some .directory => .error (.writeDirectory path)
  | some _ => .ok (fs.put path (.file text))
  | none =>
    match fs.entry? path.parent with
    | some .directory => .ok (fs.put path (.file text))
    | _ => .error (if fs.isUnderFile path then .underFile path else .missing path)

/-- The files whose text is not what it was before. -/
def changes (before after : FileSystem) : List (Path × String) :=
  after.entries.filterMap fun (path, entry) =>
    match entry, before.entry? path with
    | .file now, some (.file old) => if now == old then none else some (path, now)
    | .file now, _ => some (path, now)
    | _, _ => none

end FileSystem

end Flowgraph
