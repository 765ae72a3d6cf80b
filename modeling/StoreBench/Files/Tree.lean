import Std.Data.TreeMap
import StoreBench.Bytes
import StoreBench.Files.Fault

/-! A file system as a value: files and directories below the working directory, and what was
made elsewhere. Operations fail as the operating system lets them fail, and a failed one may have
made some directories already. Left out are links, special files such as `/dev/null`, permissions
and disks that are full; nothing else can make an operation on a file or a directory fail. The tree
does not know where the working directory lies either, so an absolute path never meets a relative
one, though both may name the same file on a real machine. -/
namespace StoreBench

/-- A path as written: what stands between its slashes, empty texts included. -/
structure Path where
  segments : List String
deriving DecidableEq, Repr

namespace Path

def ofText (text : String) : Path := ⟨text.splitOn "/"⟩

def text (path : Path) : String := "/".intercalate path.segments

/-- Names longer than this are refused where they are looked up. -/
def longestName : Nat := 255

/-- Paths longer than this are refused as a whole. -/
def longest : Nat := 4095

/-- The length in bytes. -/
def size (path : Path) : Nat := path.text.utf8ByteSize

/-- Starts with a slash. -/
def absolute (path : Path) : Bool := 2 ≤ path.segments.length && path.segments.head? == some ""

/-- Ends in a slash, and so names a directory. -/
def directory (path : Path) : Bool := 2 ≤ path.segments.length && path.segments.getLast? == some ""

/-- The parts that a path is followed by. -/
def parts (path : Path) : List String := path.segments.filter (· != "")

/-- Whether a segment leads somewhere, given those before it, from the nearest one outwards. A dot
does so only at the very beginning. -/
def leads (segment : String) (outward : List String) : Bool :=
  segment != "" && (segment != "." || outward.isEmpty)

/-- Segments, from the last one outwards, without those at the end that lead nowhere. -/
def trimmed : (outward : List String) → List String
  | [] => []
  | segment :: outward =>
    if leads segment outward then segment :: outward else trimmed outward

/-- The directory that a path lies in, if the path names it. -/
def parent? (path : Path) : Option Path :=
  match trimmed ((trimmed path.segments.reverse).drop 1) with
  | [] => none
  | outward => some ⟨outward.reverse⟩

/-- Whether the path can be handed to the system at all. -/
def check (path : Path) : Except FileFault Unit :=
  if path.segments.any (·.contains '\x00') then .error .zeroCharacter
  else if path.segments.all (· == "") && path.segments.length ≤ 1 then .error .notFound
  else if longest < path.size then .error .nameTooLong
  else .ok ()

end Path

inductive Node where
  | file (content : Bytes)
  | directory
deriving DecidableEq, Repr

/-- Where a node lies: the names down from the working directory. Leading names `..` stand for the
directories above it, and a leading name `/` for the top of all. -/
abbrev Location := List String

/-- The directories that are there from the start. -/
def Location.given (location : Location) : Bool :=
  location == ["/"] || location.all (· == "..")

/-- Where a path begins: at the top, or in the working directory. -/
def Path.start (path : Path) : Location := if path.absolute then ["/"] else []

structure FileTree where
  /-- Everything but the given directories. -/
  nodes : Std.TreeMap Location Node := ∅

/-- Reading can fail before there is anything to read from, or after. -/
inductive ReadFault where
  | opening (fault : FileFault)
  | reading (fault : FileFault)
deriving DecidableEq, Repr

def ReadFault.fault : ReadFault → FileFault
  | .opening fault => fault
  | .reading fault => fault

namespace FileTree

def node? (tree : FileTree) (location : Location) : Option Node :=
  if Location.given location then some .directory else tree.nodes[location]?

def put (tree : FileTree) (location : Location) (node : Node) : FileTree :=
  { nodes := tree.nodes.insert location node }

/-- The location that a part leads to. The top is its own parent. -/
def step (location : Location) (part : String) : Location :=
  if part = "." then location
  else if part ≠ ".." then location ++ [part]
  else if location = ["/"] then location
  else if Location.given location then location ++ [part]
  else location.dropLast

/-- What is where a part of a path leads. -/
def lookUp (tree : FileTree) (location : Location) (part : String) :
    Except FileFault (Location × Option Node) :=
  if Path.longestName < part.utf8ByteSize then .error .nameTooLong
  else .ok (step location part, tree.node? (step location part))

/-- Goes on into a directory. -/
def enter (tree : FileTree) (location : Location) (part : String) : Except FileFault Location :=
  match tree.lookUp location part with
  | .ok (inner, some .directory) => .ok inner
  | .ok (_, some (.file _)) => .error .notADirectory
  | .ok (_, none) => .error .notFound
  | .error fault => .error fault

/-- The directory in which the last part of a path is looked up. -/
def outer (tree : FileTree) (path : Path) : Except FileFault Location := do
  path.check
  path.parts.dropLast.foldlM tree.enter path.start

/-- The location of a path, and what is there. All parts but the last have to be directories. -/
def locate (tree : FileTree) (path : Path) : Except FileFault (Location × Option Node) := do
  let outer ← tree.outer path
  match path.parts.getLast? with
  | some last => tree.lookUp outer last
  | none => return (outer, tree.node? outer)

def read (tree : FileTree) (path : Path) : Except ReadFault Bytes :=
  match tree.locate path with
  | .error fault => .error (.opening fault)
  | .ok (_, none) => .error (.opening .notFound)
  | .ok (_, some .directory) => .error (.reading .isADirectory)
  | .ok (_, some (.file content)) =>
    if path.directory then .error (.opening .notADirectory) else .ok content

/-- Creates a file, or replaces its content. A path that names a directory is refused before its
last part is looked up. -/
def write (tree : FileTree) (path : Path) (content : Bytes) : Except FileFault FileTree := do
  let _ ← tree.outer path
  if path.directory then throw .isADirectory
  match ← tree.locate path with
  | (_, some .directory) => throw .isADirectory
  | (location, _) => return tree.put location (.file content)

/-- Goes into directories, the outermost first, and makes each one that is missing. A file in the
way is what the look-up of the whole path stops at. It is found in the place of a directory to be
made only at the very end, or if one before it had to be `made`. -/
def makeInward (tree : FileTree) (location : Location) (made : Bool) :
    (parts : List String) → Except FileFault Unit × FileTree
  | [] => (.ok (), tree)
  | part :: inward =>
    match tree.lookUp location part with
    | .ok (inner, some .directory) => tree.makeInward inner made inward
    | .ok (inner, none) => (tree.put inner .directory).makeInward inner true inward
    | .ok (_, some (.file _)) =>
      (.error (if made || inward.isEmpty then .exists else .notADirectory), tree)
    | .error fault => (.error fault, tree)

/-- Makes a directory with all those around it that are missing. -/
def makeAll (tree : FileTree) (path : Path) : Except FileFault Unit × FileTree :=
  match path.check with
  | .ok () => tree.makeInward path.start false path.parts
  | .error fault => (.error fault, tree)

/-- Makes the directories that a path lies in. -/
def makeParents (tree : FileTree) (path : Path) : Except FileFault Unit × FileTree :=
  match path.parent? with
  | some parent => tree.makeAll parent
  | none => (.ok (), tree)

end FileTree

end StoreBench
