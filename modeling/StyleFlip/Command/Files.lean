import StyleFlip.Text.Basic

/-!
# Files

The files and directories that a command works on, as a tree under a root. A path is taken name by
name, from the root if it starts with a slash and from the working directory otherwise. The working
directory stands right under the root, in a place that no path names.

Links, permissions and devices other than the sink, such as `/dev/stdout`, are outside the model,
and so is a standard output that refuses what a run prints.
-/

namespace StyleFlip

/-- The content of a file: text, or bytes that are no UTF-8. -/
inductive Content
  | text (text : Text)
  | binary (bytes : ByteArray)

def Content.ofBytes (bytes : ByteArray) : Content :=
  match String.fromUTF8? bytes with
  | some s => .text s.toList
  | none => .binary bytes

inductive Node
  | file (content : Content)
  | directory
  /-- A device that is empty for readers and forgets what is written to it. -/
  | sink

inductive FileError
  | notFound
  | isDirectory
  | notADirectory
  | nameTooLong
  /-- A path holds the character that ends paths. -/
  | invalidPath
  | notText
  /-- Anything else, in the words of the system. -/
  | other (description : Text)
deriving DecidableEq, Repr

def FileError.message : FileError → Text
  | .notFound => "No such file or directory (os error 2)".toList
  | .isDirectory => "Is a directory (os error 21)".toList
  | .notADirectory => "Not a directory (os error 20)".toList
  | .nameTooLong => "File name too long (os error 36)".toList
  | .invalidPath => "file name contained an unexpected NUL byte".toList
  | .notText => "stream did not contain valid UTF-8".toList
  | .other description => description

/-- Where a file or directory stands: the names on the way from the root. -/
abbrev Location := List Text

structure Files where
  entries : List (Location × Node)

namespace Files

/-- The length of a name, in bytes, is at most this. -/
def maxNameSize : Nat := 255

/-- The length of a path, in bytes, is at most this. -/
def maxPathSize : Nat := 4095

/-- Names in a path are not empty, so no path from the root leads here. -/
def workingDirectory : Location := [[]]

def get? (files : Files) (location : Location) : Option Node :=
  if location = [] ∨ location = workingDirectory then some .directory
  else files.entries.lookup location

def set (files : Files) (location : Location) (node : Node) : Files :=
  ⟨(location, node) :: files.entries.filter (·.1 != location)⟩

/-- The names in a path; empty ones do not count. -/
def components (path : Text) : List Text := (path.splitOn '/').filter (!·.isEmpty)

/-- The directories and devices of the system around the working directory. -/
def surroundings : Files :=
  ⟨(["dev", "dev/null", "tmp", "bin", "boot", "etc", "home", "lib", "media", "mnt", "opt", "proc",
      "root", "run", "sbin", "srv", "sys", "usr", "var"].map fun path =>
    (components path.toList, if path = "dev/null" then Node.sink else Node.directory))⟩

/-- Puts a file or directory under the working directory. -/
def place (files : Files) (path : Text) (node : Node) : Files :=
  files.set (workingDirectory ++ components path) node

/-- The files that stand right in the working directory, with their names. -/
def listing (files : Files) : List (Text × Content) :=
  files.entries.filterMap fun
    | ([[], name], .file content) => some (name, content)
    | _ => none

def directoryAt (files : Files) (location : Location) : Except FileError Location :=
  match files.get? location with
  | none => .error .notFound
  | some .directory => .ok location
  | some _ => .error .notADirectory

/-- Where a name leads to from a directory. The root is its own parent. -/
def step (here : Location) (name : Text) : Except FileError Location :=
  if name = ['.'] then .ok here
  else if name = ['.', '.'] then .ok here.dropLast
  else if maxNameSize < Text.byteSize name then .error .nameTooLong
  else .ok (here ++ [name])

def origin (path : Text) : Location := if path.head? = some '/' then [] else workingDirectory

/-- The directory that holds what a path names; every name before the last has to be a directory. -/
def parentOf (files : Files) (path : Text) : Except FileError Location :=
  if path.contains '\x00' then .error .invalidPath
  else if maxPathSize < Text.byteSize path then .error .nameTooLong
  else (components path).dropLast.foldlM
    (fun here name => do files.directoryAt (← step here name)) (origin path)

/-- The location that a path names, given the directory that holds it. -/
def locate (parent : Location) (path : Text) : Except FileError Location :=
  match (components path).getLast? with
  | some name => step parent name
  | none => .ok parent

/-- A path that ends in a slash can only be a directory. -/
def namesDirectory (path : Text) : Bool := path.getLast? = some '/'

def readText (files : Files) (path : Text) : Except FileError Text := do
  let location ← locate (← files.parentOf path) path
  match files.get? location with
  | none => .error .notFound
  | some .directory => .error .isDirectory
  | some node =>
    if namesDirectory path then .error .notADirectory
    else
      match node with
      | .file (.text text) => .ok text
      | .file (.binary _) => .error .notText
      | _ => .ok []

/-- Writes a text to a file, which is made if it is missing. No file is made with a slash at the end
of its name, however long the name is. -/
def writeText (files : Files) (path : Text) (text : Text) : Except FileError Files := do
  let parent ← files.parentOf path
  if namesDirectory path then .error .isDirectory
  let location ← locate parent path
  match files.get? location with
  | some .directory => .error .isDirectory
  | some .sink => .ok files
  | _ => .ok (files.set location (.file (.text text)))

end Files

end StyleFlip
