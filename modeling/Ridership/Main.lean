import Ridership.Command.Run
import Ridership.Disk.Layout

/-!
# The program

The program lays out the files that a command line names as a disk, carries the request out on it,
and brings the file that the request writes back to the file system.
-/

namespace Ridership.Main

def takeFile (d : Disk) (path : String) : IO Disk := do
  try
    let bytes ← IO.FS.readBinFile path
    return d.addFile path bytes.toList
  catch _ => return d

def takeFolder (d : Disk) (path : String) : IO Disk := do
  try
    let mut d := d
    let entries ← (← IO.FS.realPath path).readDir
    d := d.addFolder path
    for e in entries do
      if (← e.path.symlinkMetadata).type matches .file then
        d := d.addFile (Disk.join path e.fileName) (← IO.FS.readBinFile e.path).toList
    return d
  catch _ => return d

/-- Puts on the disk what is at a path, and the folder above it. -/
def take (d : Disk) (path : String) : IO Disk := do
  let above := "/".intercalate (Disk.names path).dropLast
  let mut d := d
  try
    let _ ← (← IO.FS.realPath (if above = "" then "." else above)).readDir
    d := (d.addFoldersAbove path).1
  catch _ => pure ()
  d ← takeFolder d path
  takeFile d path

/-- Brings a file of the disk back to the file system. -/
def bringBack (before after : Disk) (path : String) : IO Unit := do
  match before.read path, after.read path with
  | old, .ok bytes =>
    if old.toOption ≠ some bytes then IO.FS.writeBinFile path bytes.toByteArray
  | .ok _, .error .notFound => IO.FS.removeFile path
  | _, _ => return ()

def carryOut (args : List String) : IO UInt32 := do
  let request := Command.requestOf args
  let paths := match request with
    | .ok r => r.paths
    | .error _ => []
  let before ← paths.foldlM take {}
  let o := Command.run before args
  if let .ok r := request then
    if let some path := r.target? then bringBack before o.disk path
  for line in o.out do
    IO.println line
  for line in o.err do
    IO.eprintln line
  return o.code.toUInt32

end Ridership.Main

def main (args : List String) : IO UInt32 :=
  Ridership.Main.carryOut args
