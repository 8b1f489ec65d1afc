/-!
# File systems

A file system as a value: what stands at each place, and the directory that relative paths start
from.  Paths are followed name by name, and every name before the last has to lead to a directory.
-/

namespace MiniLang
namespace Command

/-- Why a file cannot be read or written. -/
inductive FileError where
  | notFound
  | notADirectory
  | isADirectory
  | nameTooLong
  | zeroByte
  | notText
  /-- A reason that only the operating system knows. -/
  | other (reason : String)
  deriving DecidableEq, Repr

/-- What an error says. -/
def FileError.message : FileError -> String
  | .notFound => "No such file or directory (os error 2)"
  | .notADirectory => "Not a directory (os error 20)"
  | .isADirectory => "Is a directory (os error 21)"
  | .nameTooLong => "File name too long (os error 36)"
  | .zeroByte => "file name contained an unexpected NUL byte"
  | .notText => "stream did not contain valid UTF-8"
  | .other reason => reason

/-- What stands at a place. -/
inductive Node where
  /-- A file, with its bytes. -/
  | file (content : List UInt8)
  | directory
  deriving DecidableEq, Repr

/-- The names that lead from the root to a place. -/
abbrev Location := List String

/-- A file system. -/
structure FileSystem where
  /-- The directory that relative paths start from. -/
  workingDirectory : Location
  /-- What stands at the places other than the root. -/
  nodes : List (Location × Node)
  deriving DecidableEq, Repr

namespace FileSystem

/-- What stands at a place. -/
def node? (files : FileSystem) (location : Location) : Option Node :=
  if location.isEmpty then some .directory else files.nodes.lookup location

/-- Put something at a place. -/
def put (files : FileSystem) (location : Location) (node : Node) : FileSystem :=
  { files with
    nodes := (location, node) :: files.nodes.filter (fun entry => entry.1 != location) }

/-- The names in a path. -/
def names (path : String) : List String :=
  ((path.toList.splitOnP (fun character => character == '/')).filter
    (fun name => !name.isEmpty)).map String.ofList

/-- The greatest number of bytes in a name. -/
def longestName : Nat := 255

/-- The greatest number of bytes in a path. -/
def longestPath : Nat := 4095

/-- Follow names from a directory; each has to lead somewhere. -/
def walk (files : FileSystem) : Location -> List String -> Except FileError Location
  | here, [] => .ok here
  | here, name :: rest =>
    match files.node? here with
    | none => .error .notFound
    | some (.file _) => .error .notADirectory
    | some .directory =>
      if name = "." then files.walk here rest
      else if name = ".." then files.walk here.dropLast rest
      else if longestName < name.utf8ByteSize then .error .nameTooLong
      else if (files.node? (here ++ [name])).isSome then files.walk (here ++ [name]) rest
      else .error .notFound

/-- Where following a path starts. -/
def startOf (files : FileSystem) (path : String) : Location :=
  if path.toList.head? = some '/' then [] else files.workingDirectory

/-- Whether a path asks for a directory by ending in a slash. -/
def endsInSlash (path : String) : Bool :=
  path.toList.getLast? == some '/'

/-- A path that can be followed at all. -/
def checkPath (path : String) : Except FileError Unit :=
  if path.toList.contains '\x00' then .error .zeroByte
  else if path.isEmpty then .error .notFound
  else if longestPath < path.utf8ByteSize then .error .nameTooLong
  else .ok ()

/-- The content of the file at a path. -/
def read (files : FileSystem) (path : String) : Except FileError (List UInt8) := do
  checkPath path
  let location <- files.walk (files.startOf path) (names path)
  match files.node? location with
  | none => throw .notFound
  | some .directory => throw .isADirectory
  | some (.file content) => if endsInSlash path then throw .notADirectory else return content

/-- The text of the file at a path. -/
def readText (files : FileSystem) (path : String) : Except FileError String := do
  let content <- files.read path
  match String.fromUTF8? (ByteArray.mk content.toArray) with
  | some text => return text
  | none => throw .notText

/-- The place at which a file is written for a path. -/
def writePlace (files : FileSystem) (path : String) : Except FileError Location := do
  checkPath path
  match (names path).getLast? with
  | none => throw .isADirectory
  | some last =>
    let parent <- files.walk (files.startOf path) (names path).dropLast
    match files.node? parent with
    | none => throw .notFound
    | some (.file _) => throw .notADirectory
    | some .directory =>
      if last = "." ∨ last = ".." ∨ endsInSlash path then throw .isADirectory
      else if longestName < last.utf8ByteSize then throw .nameTooLong
      else
        match files.node? (parent ++ [last]) with
        | some .directory => throw .isADirectory
        | _ => return parent ++ [last]

/-- Write a file, in place of the one that is there.  A failure changes nothing. -/
def write (files : FileSystem) (path : String) (content : List UInt8) :
    Except FileError FileSystem := do
  let location <- files.writePlace path
  return files.put location (.file content)

/-- Follow names from a directory, making directories on the way where nothing is. -/
def makeWay (files : FileSystem) : Location -> List String -> FileSystem × Location
  | here, [] => (files, here)
  | here, name :: rest =>
    if name = "." then files.makeWay here rest
    else if name = ".." then files.makeWay here.dropLast rest
    else
      let next := here ++ [name]
      let made := if (files.node? next).isSome then files else files.put next .directory
      made.makeWay next rest

/-- Put a file at a path, with the directories that lead to it. -/
def makeFile (files : FileSystem) (path : String) (content : List UInt8) : FileSystem :=
  let way := files.makeWay (files.startOf path) (names path).dropLast
  way.1.put (way.2 ++ (names path).getLast?.toList) (.file content)

/-- The name of a fresh directory.  The names in a path are not empty, so no path leads into a fresh
directory from above. -/
def freshName : String := ""

/-- A fresh working directory with given directories and files in it. -/
def ofLayout (directories : List String) (contents : List (String × List UInt8)) : FileSystem :=
  let workingDirectory := [freshName]
  let empty : FileSystem :=
    { workingDirectory := workingDirectory, nodes := [(workingDirectory, .directory)] }
  let made := directories.foldl
    (fun made path => (made.makeWay (made.startOf path) (names path)).1) empty
  contents.foldl (fun made entry => made.makeFile entry.1 entry.2) made

/-- The files in the working directory that are new or different from before, by their paths. -/
def changed (after before : FileSystem) : List (String × List UInt8) :=
  after.nodes.filterMap fun entry =>
    match entry.2 with
    | .directory => none
    | .file content =>
      let depth := after.workingDirectory.length
      if entry.1.take depth = after.workingDirectory ∧
          before.node? entry.1 ≠ some (.file content) then
        some ("/".intercalate (entry.1.drop depth), content)
      else none

end FileSystem

end Command
end MiniLang
