import Ridership.Disk.Basic

/-!
# Laying out a disk

A disk is filled by naming folders, files and links; the folders above a name are made where they
are missing.
-/

namespace Ridership.Disk

def addNode (d : Disk) (place : Place) (node : Node) (h : ∀ id, node ≠ .file id) : Disk :=
  { d with
    nodes := (place, node) :: d.nodes
    files_exist := by
      intro n hn id hid
      rcases List.mem_cons.mp hn with rfl | hold
      · exact absurd hid (h id)
      · exact d.files_exist n hold id hid }

/-- Makes the folders with these names, one in the other, starting in `folder`. Yields the disk
and the innermost folder. -/
def makeFolders (d : Disk) (folder : Place) : List String → Disk × Place
  | [] => (d, folder)
  | name :: rest =>
    match d.walk maxLinks folder [name] with
    | .ok (.folder place) => makeFolders d place rest
    | .ok (.vacant place) => makeFolders (d.addNode place .folder (by simp)) place rest
    | _ => makeFolders d (folder ++ [name]) rest

def addFolder (d : Disk) (path : String) : Disk :=
  (d.makeFolders [] (names path)).1

def addFoldersAbove (d : Disk) (path : String) : Disk × Place :=
  d.makeFolders [] (names path).dropLast

def addFile (d : Disk) (path : String) (bytes : Bytes) : Disk :=
  let d := (d.addFoldersAbove path).1
  match d.create path with
  | .ok (d, id) => d.setContent id bytes
  | .error _ => d

/-- Makes a symbolic link where nothing has the name. -/
def addLink (d : Disk) (path target : String) : Disk :=
  let (d, folder) := d.addFoldersAbove path
  let place := folder ++ [(names path).getLast?.getD ""]
  match d.node? place with
  | some _ => d
  | none => d.addNode place (.link target) (by simp)

end Ridership.Disk
