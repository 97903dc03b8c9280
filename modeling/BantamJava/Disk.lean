/-
# Files

Source files are read by path. A file that does not exist is told apart from
one that cannot be read: a directory, a path that leads through a file, a path
or a name that is too long, bytes that are not UTF-8.

A directory tree held in memory answers the same questions as a real one, so
that the command line can be run against it. On a path `.` stays where it is,
`..` goes up, and doubled slashes count once; this holds for the names that a
tree is built from as well. Of what lies outside the working directory nothing
is known but the directories on the way out.

Key definitions: `ReadFault`, `Disk`, `Disk.put`, `Disk.walk`, `Disk.read`.
-/
namespace BantamJava

/-- Why a source file could not be read. -/
inductive ReadFault where
  | notFound (path : String)
  | unreadable (path : String)
deriving DecidableEq, Inhabited

/-- The fault in words. -/
def ReadFault.message : ReadFault → String
  | .notFound path => "file " ++ path ++ " not found"
  | .unreadable path => "file " ++ path ++ " could not be read"

/-- What stands at a path. -/
inductive DiskEntry where
  | file (bytes : ByteArray)
  | directory
deriving Inhabited

/-- The entries of a working directory, each with the names on the way to it,
the newest first. -/
def Disk : Type := List (List String × DiskEntry)

namespace Disk

/-- Where a path has led to: the names below the working directory, or some
directory that does not lie below it. -/
inductive Spot where
  | inside (names : List String)
  | outside
deriving DecidableEq, Inhabited

/-- The spot that a name leads to from a directory. No name is known outside
the working directory. -/
def Spot.enter? (spot : Spot) (name : String) : Option Spot :=
  if name = "." then some spot
  else
    match spot with
    | .outside => if name = ".." then some .outside else none
    | .inside names =>
      if name = ".." then some (if names.isEmpty then .outside else .inside names.dropLast)
      else some (.inside (names ++ [name]))

/-- The names on a path, in order; doubled slashes count once. -/
def components (path : String) : List String :=
  (path.splitOn "/").filter (· ≠ "")

/-- The working directory without any entry. -/
def empty : Disk := []

/-- What stands at a spot; of two entries with the same names the newer one
counts. -/
def entry? (disk : Disk) : Spot → Option DiskEntry
  | .outside | .inside [] => some .directory
  | .inside names => (disk.find? fun e => e.1 == names).map (·.2)

/-- Puts an entry at a spot, if that lies below the working directory. -/
def putAt (disk : Disk) (e : DiskEntry) : Spot → Disk
  | .inside (name :: names) => (name :: names, e) :: disk
  | .inside [] | .outside => disk

/-- Follows names from a spot and makes the directories that are missing on
the way; gives the tree and the spot at the end. -/
def makeDirectories (disk : Disk) : Option Spot → List String → Disk × Option Spot
  | none, _ => (disk, none)
  | some spot, [] => (disk, some spot)
  | some spot, name :: names =>
    match spot.enter? name with
    | none => (disk, none)
    | some next =>
      let disk := if (disk.entry? next).isSome then disk else disk.putAt .directory next
      makeDirectories disk (some next) names

/-- Puts an entry at a path, with the directories on the way to it. -/
def put (disk : Disk) (path : String) (e : DiskEntry) : Disk :=
  let names := components path
  match e with
  | .directory => (disk.makeDirectories (some (.inside [])) names).1
  | .file _ =>
    match disk.makeDirectories (some (.inside [])) names.dropLast, names.getLast? with
    | (disk, some spot), some name => ((spot.enter? name).map (disk.putAt e)).getD disk
    | (disk, _), _ => disk

/-- The tree of the given entries, put in order. -/
def ofEntries (entries : List (String × DiskEntry)) : Disk :=
  entries.foldl (fun disk e => disk.put e.1 e.2) empty

/-- The greatest length of a name, in bytes. -/
def maxName : Nat := 255

/-- The greatest length of a path, in bytes. -/
def maxPath : Nat := 4095

/-- What stands at the end of a path that goes on from a spot by the given
names. -/
def walk (disk : Disk) (path : String) : Spot → List String → Except ReadFault DiskEntry
  | spot, [] =>
    match disk.entry? spot with
    | some e => .ok e
    | none => .error (.notFound path)
  | spot, name :: names =>
    match disk.entry? spot with
    | some .directory =>
      if name.utf8ByteSize ≤ maxName then
        match spot.enter? name with
        | some next => walk disk path next names
        | none => .error (.notFound path)
      else .error (.unreadable path)
    | some (.file _) => .error (.unreadable path)
    | none => .error (.notFound path)

/-- The text of the file at a path. -/
def read (disk : Disk) (path : String) : Except ReadFault String :=
  if path.isEmpty then .error (.notFound path)
  else if path.toList.contains '\x00' || decide (maxPath < path.utf8ByteSize) then
    .error (.unreadable path)
  else
    match disk.walk path (if path.startsWith "/" then .outside else .inside [])
        (components path) with
    | .error e => .error e
    | .ok .directory => .error (.unreadable path)
    | .ok (.file bytes) =>
      if path.endsWith "/" then .error (.unreadable path)
      else
        match String.fromUTF8? bytes with
        | some text => .ok text
        | none => .error (.unreadable path)

end Disk
end BantamJava
