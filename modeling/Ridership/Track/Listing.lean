import Ridership.Failure

/-!
# The tracks of a folder

The tracks of a folder are the files directly in it that are not hidden. Links and folders are no
tracks. The list is sorted, whatever order the disk has them in.
-/

namespace Ridership.Track

open Ridership.Disk (Node)

/-- The name of a file hides it if it is a text that starts with a dot. A name that is not a text
does not hide a file, whatever it starts with. -/
def isHidden (path : Bytes) : Bool :=
  match (Disk.Path.fileName? path).bind textOf? with
  | some name => name.startsWith "."
  | none => false

/-- The entry with this path is a file that is not hidden. -/
def isTrack (path : Bytes) : Node → Bool
  | .file _ => !isHidden path
  | _ => false

/-- The paths of the tracks among the entries of a folder. A name is what bytes the file system
has for it, which need not be a text. -/
def listing (folder : Bytes) (entries : List (Bytes × Node)) : List Bytes :=
  let found := entries.map fun e => (Disk.Path.inFolder folder e.1, e.2)
  ((found.filter fun e => isTrack e.1 e.2).map Prod.fst).mergeSort Disk.pathLe

/-- All names on a disk are texts. -/
def inBytes (entries : List (String × Node)) : List (Bytes × Node) :=
  entries.map fun e => (bytesOf e.1, e.2)

/-- The tracks of a folder of a disk. Their paths are texts, as the names are. -/
def files (d : Disk) (folder : String) : Except Failure (List String) :=
  match d.entries folder with
  | .ok entries => .ok ((listing (bytesOf folder) (inBytes entries)).filterMap textOf?)
  | .error f => .error (.io folder (.disk f))

end Ridership.Track
