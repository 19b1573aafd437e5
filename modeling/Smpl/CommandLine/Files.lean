import Smpl.CommandLine.PathName

namespace Smpl

/-- What a path leads to. -/
inductive Entry
  | directory
  | file
deriving DecidableEq, Repr, Inhabited

/-- Why a path leads to nothing, or to nothing that can be used. -/
inductive FileFault
  | noSuchFile
  | notDirectory
  | isDirectory
  | nameTooLong
  | nullCharacter
deriving DecidableEq, Repr, Inhabited

namespace FileFault

def text : FileFault → String
  | .noSuchFile => "[Errno 2] No such file or directory"
  | .notDirectory => "[Errno 20] Not a directory"
  | .isDirectory => "[Errno 21] Is a directory"
  | .nameTooLong => "[Errno 36] File name too long"
  | .nullCharacter => "embedded null byte"

/-- Whether the fault only says that there is no such file. -/
def isAbsence : FileFault → Bool
  | .noSuchFile | .notDirectory | .nullCharacter => true
  | .isDirectory | .nameTooLong => false

end FileFault

/-- What a command can find out about the files around it: what a path leads to as it is given, what
    is in a file, and why it could not be written. -/
structure Surroundings where
  entry : String → Except FileFault Entry
  bytes : PathName → List UInt8
  writeFault : PathName → Option FileFault

/-- The files below the current directory, by the names on the way to them. All directories that the
    names need exist. -/
abbrev Files := List (List String × List UInt8)

namespace Files

/-- The longest name in a directory, and the longest path, in bytes. -/
def maxName : Nat := 255

def maxPath : Nat := 4095

/-- The place of the root directory. Places below the current directory are lists of names, and those
    above it lists of double dots. -/
def rootPlace : List String := ["/"]

/-- The directories outside that are always there. -/
def systemDirectories : List (List String) :=
  rootPlace :: ["bin", "boot", "dev", "etc", "home", "lib", "media", "mnt", "opt", "proc", "root", "run",
    "sbin", "srv", "sys", "tmp", "usr", "var"].map fun name => rootPlace ++ [name]

/-- The file outside that is always there and always empty. -/
def nullDevice : List String := rootPlace ++ ["dev", "null"]

def bytes? (files : Files) (place : List String) : Option (List UInt8) :=
  if place = nullDevice then some [] else List.lookup place files

/-- Whether a place is known to be a directory. -/
def isDirectory (files : Files) (place : List String) : Bool :=
  place.all (· = "..") || systemDirectories.contains place ||
    files.any fun (name, _) => place.length < name.length && name.take place.length = place

/-- The directory above a place. -/
def parent (place : List String) : List String :=
  if place = rootPlace then place
  else if place.all (· = "..") then place ++ [".."]
  else place.dropLast

/-- Follows names from a directory. Gives the place reached, or why the way ends early. -/
def follow (files : Files) : List String → List String → Except FileFault (List String)
  | place, [] => .ok place
  | place, part :: parts =>
    if (files.bytes? place).isSome then .error .notDirectory
    else if !files.isDirectory place then .error .noSuchFile
    else if part = "" || part = "." then files.follow place parts
    else if part = ".." then files.follow (parent place) parts
    else if maxName < part.utf8ByteSize then .error .nameTooLong
    else files.follow (place ++ [part]) parts

/-- The place that a path leads to, given as a text and as the names in it. -/
def place (files : Files) (text root : String) (parts : List String) : Except FileFault (List String) :=
  if text.toList.contains '\x00' then .error .nullCharacter
  else if maxPath < text.utf8ByteSize then .error .nameTooLong
  else files.follow (if root = "" then [] else rootPlace) parts

def placeOf (files : Files) (path : PathName) : Except FileFault (List String) :=
  files.place path.text path.root path.parts

def entry (files : Files) (path : String) : Except FileFault Entry :=
  if path = "" then .error .noSuchFile
  else do
    let place ← files.place path (PathName.rootOf path.toList) (PathName.components path)
    if (files.bytes? place).isSome then return .file
    if files.isDirectory place then return .directory
    .error .noSuchFile

def writeFault (files : Files) (path : PathName) : Option FileFault :=
  match files.placeOf path with
  | .error fault => some fault
  | .ok place => if files.isDirectory place then some .isDirectory else none

def surroundings (files : Files) : Surroundings where
  entry := files.entry
  bytes path := ((files.placeOf path).toOption.bind files.bytes?).getD []
  writeFault := files.writeFault

/-- Whether a place is below the current directory. -/
def isInside (place : List String) : Bool :=
  place.head? ≠ some ".." && place.head? ≠ some "/"

end Files

end Smpl
