/-!
# Paths

A path is a text whose names are separated by slashes. It is kept as given, for messages show it.
To a file system a path is bytes, which need not be a text. Paths are put in order as bytes too, by
their parts: slashes in a row count as one, and dots between them do not count.
-/

namespace Ridership

abbrev Bytes := List UInt8

def bytesOf (s : String) : Bytes :=
  s.toUTF8.data.toList

/-- The text that is written with these bytes, if they are the bytes of a text. -/
def textOf? (bytes : Bytes) : Option String :=
  String.fromUTF8? bytes.toByteArray

namespace Disk

/-- The names on a path; two slashes in a row and a slash at an end make empty names. -/
def names (path : String) : List String :=
  (path.toList.splitOn '/').map String.ofList

def join (folder name : String) : String :=
  if folder = "" ∨ folder.endsWith "/" then folder ++ name else folder ++ "/" ++ name

namespace Path

def slash : UInt8 := 47

def dot : UInt8 := 46

/-- The path of a name in a folder. -/
def inFolder (folder name : Bytes) : Bytes :=
  if folder = [] ∨ folder.getLast? = some slash then folder ++ name else folder ++ slash :: name

inductive Part
  | root
  | here
  | above
  | name (bytes : Bytes)
deriving DecidableEq, Repr

/-- What stands between two slashes is a part of the path unless it is empty or a dot. -/
def part? (piece : Bytes) : Option Part :=
  if piece = [] ∨ piece = [dot] then none
  else if piece = [dot, dot] then some .above
  else some (.name piece)

/-- A slash at the start of a path is a part of it, and so is a dot that stands there. -/
def start (path : Bytes) : List Part :=
  if path.head? = some slash then [.root]
  else if (path.splitOn slash).head? = some [dot] then [.here]
  else []

def parts (path : Bytes) : List Part :=
  start path ++ (path.splitOn slash).filterMap part?

/-- The last part of a path, if it is a name. -/
def fileName? (path : Bytes) : Option Bytes :=
  match (parts path).getLast? with
  | some (.name bytes) => some bytes
  | _ => none

/-- The parts of one kind stand before those of the next, and names are in the order of their
bytes. -/
def Part.key : Part → Bytes
  | .root => [0]
  | .here => [1]
  | .above => [2]
  | .name bytes => 3 :: bytes

/-- The order of paths is that of these lists. Paths with the same parts are equal in it. -/
def order (path : Bytes) : List Bytes :=
  (parts path).map Part.key

end Path

/-- One path does not stand behind the other. -/
def pathLe (a b : Bytes) : Bool :=
  decide (Path.order a ≤ Path.order b)

end Disk

end Ridership
