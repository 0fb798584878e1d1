import Ridership.Disk.Path

/-!
# A disk

A disk has folders, files and symbolic links. The bytes of a file are kept apart from its name:
who has opened a file goes on reading and writing these bytes when the name is gone. A disk may
have an allowance of bytes that can still be written; writing beyond it fails after the bytes that
fit. It may also wear out: then it neither changes the length of a file nor makes one durable.
-/

namespace Ridership

abbrev FileId := Nat

namespace Disk

/-- A folder, file or link by its names from the root. -/
abbrev Place := List String

inductive Node
  | folder
  | file (id : FileId)
  | link (target : String)
deriving DecidableEq, Repr

inductive Fault
  | notFound
  | notAFolder
  | isAFolder
  | tooManyLinks
  | nameTooLong
  | invalidName
  | noSpace
  | wornOut
deriving DecidableEq, Repr

def Fault.message : Fault → String
  | .notFound => "No such file or directory (os error 2)"
  | .notAFolder => "Not a directory (os error 20)"
  | .isAFolder => "Is a directory (os error 21)"
  | .tooManyLinks => "Too many levels of symbolic links (os error 40)"
  | .nameTooLong => "File name too long (os error 36)"
  | .invalidName => "file name contained an unexpected NUL byte"
  | .noSpace => "No space left on device (os error 28)"
  | .wornOut => "Input/output error (os error 5)"

/-- What a path leads to. A vacant place has no name yet in a folder that is there. -/
inductive Target
  | folder (place : Place)
  | file (place : Place) (id : FileId)
  | vacant (place : Place)
deriving DecidableEq, Repr

end Disk

/-- A disk: what each place below the root holds, and the content of each file. -/
structure Disk where
  nodes : List (Disk.Place × Disk.Node) := []
  contents : List Bytes := []
  /-- How many bytes can still be written, if there is a limit. -/
  allowance : Option Nat := none
  /-- How many more times the disk sets a length or makes a file durable, if there is a limit. -/
  endurance : Option Nat := none
  files_exist : ∀ n ∈ nodes, ∀ id, n.2 = .file id → id < contents.length := by simp
deriving Repr

namespace Disk

def node? (d : Disk) (p : Place) : Option Node :=
  if p = [] then some .folder else (d.nodes.find? fun n => n.1 == p).map Prod.snd

def content (d : Disk) (id : FileId) : Bytes :=
  d.contents[id]?.getD []

def setContent (d : Disk) (id : FileId) (bytes : Bytes) : Disk :=
  { d with
    contents := d.contents.set id bytes
    files_exist := by simpa using d.files_exist }

theorem content_setContent_self (d : Disk) {id : FileId} (h : id < d.contents.length)
    (bytes : Bytes) : (d.setContent id bytes).content id = bytes := by
  simp [content, setContent, h]

theorem content_setContent_of_ne (d : Disk) {id other : FileId} (h : id ≠ other)
    (bytes : Bytes) : (d.setContent id bytes).content other = d.content other := by
  simp [content, setContent, List.getElem?_set_ne h]

def maxName : Nat := 255

def maxPath : Nat := 4095

/-- How many links are followed for one path. -/
def maxLinks : Nat := 40

/-- Follows names from a folder, and at most `links` links on the way. -/
def walk (d : Disk) (links : Nat) (folder : Place) : List String → Except Fault Target
  | [] => .ok (.folder folder)
  | name :: rest =>
    if name = "" ∨ name = "." then walk d links folder rest
    else if name = ".." then walk d links folder.dropLast rest
    else if maxName < name.utf8ByteSize then .error .nameTooLong
    else
      let place := folder ++ [name]
      match d.node? place with
      | some .folder => walk d links place rest
      | some (.file id) => if rest = [] then .ok (.file place id) else .error .notAFolder
      | some (.link target) =>
        match links with
        | 0 => .error .tooManyLinks
        | links + 1 =>
          walk d links (if target.startsWith "/" then [] else folder) (names target ++ rest)
      | none => if rest = [] then .ok (.vacant place) else .error .notFound
termination_by rest => (links, rest.length)

def locate (d : Disk) (path : String) : Except Fault Target :=
  if path.toList.contains '\x00' then .error .invalidName
  else if path = "" then .error .notFound
  else if maxPath < path.utf8ByteSize then .error .nameTooLong
  else d.walk maxLinks [] (names path)

def openFile (d : Disk) (path : String) : Except Fault FileId := do
  match ← d.locate path with
  | .file _ id => return id
  | .folder _ => throw .isAFolder
  | .vacant _ => throw .notFound

def read (d : Disk) (path : String) : Except Fault Bytes :=
  (d.openFile path).map d.content

def addEmpty (d : Disk) (place : Place) : Disk :=
  { d with
    nodes := (place, .file d.contents.length) :: d.nodes
    contents := d.contents ++ [[]]
    files_exist := by
      intro n hn id hid
      rw [List.length_append, List.length_singleton]
      rcases List.mem_cons.mp hn with rfl | hold
      · cases hid
        exact Nat.lt_succ_self _
      · exact Nat.lt_succ_of_lt (d.files_exist n hold id hid) }

/-- Empties the file at a path, or makes an empty one. -/
def create (d : Disk) (path : String) : Except Fault (Disk × FileId) := do
  match ← d.locate path with
  | .file _ id => return (d.setContent id [], id)
  | .folder _ => throw .isAFolder
  | .vacant place => return (d.addEmpty place, d.contents.length)

def wear (d : Disk) : Disk × Except Fault Unit :=
  match d.endurance with
  | none => (d, .ok ())
  | some 0 => (d, .error .wornOut)
  | some (n + 1) => ({ d with endurance := some n }, .ok ())

def resize (old : Bytes) (length : Nat) : Bytes :=
  old.take length ++ List.replicate (length - old.length) 0

def setLength (d : Disk) (id : FileId) (length : Nat) : Disk × Except Fault Unit :=
  match d.wear with
  | (d, .error f) => (d, .error f)
  | (d, .ok ()) => (d.setContent id (resize (d.content id) length), .ok ())

def sync (d : Disk) : Disk × Except Fault Unit :=
  d.wear

/-- A content with some bytes written over it; a gap in front of them is filled with zeros. -/
def overlay (old : Bytes) (offset : Nat) (new : Bytes) : Bytes :=
  old.take offset ++ List.replicate (offset - old.length) 0 ++ new ++
    old.drop (offset + new.length)

theorem overlay_nil {old : Bytes} {offset : Nat} (h : offset ≤ old.length) :
    overlay old offset [] = old := by
  simp [overlay, Nat.sub_eq_zero_of_le h]

/-- A content grows to the end of what is written over it, and never shrinks. -/
theorem length_overlay (old : Bytes) (offset : Nat) (new : Bytes) :
    (overlay old offset new).length = max old.length (offset + new.length) := by
  simp only [overlay, List.length_append, List.length_take, List.length_replicate,
    List.length_drop]
  omega

/-- Writes bytes into a file, as many as the allowance admits. -/
def write (d : Disk) (id : FileId) (offset : Nat) (bytes : Bytes) : Disk × Except Fault Unit :=
  let fitting := bytes.take (d.allowance.getD bytes.length)
  let written := d.setContent id (overlay (d.content id) offset fitting)
  ({ written with allowance := d.allowance.map (· - fitting.length) },
    if fitting.length = bytes.length then .ok () else .error .noSpace)

/-- The place that the last name of a path stands for. A link there is not followed. -/
def placeOf (d : Disk) (path : String) : Except Fault Place := do
  match (names path).reverse with
  | [] => throw .notFound
  | name :: above =>
    if name = "" ∨ name = "." ∨ name = ".." then throw .notFound
    match ← d.walk maxLinks [] above.reverse with
    | .folder folder => return folder ++ [name]
    | .file _ _ => throw .notAFolder
    | .vacant _ => throw .notFound

def vacate (d : Disk) (place : Place) : Disk :=
  { d with
    nodes := d.nodes.filter fun n => n.1 != place
    files_exist := fun n hn => d.files_exist n (List.mem_filter.mp hn |>.1) }

/-- Takes away the name at a path. A link is taken away itself, not what it leads to. -/
def remove (d : Disk) (path : String) : Except Fault Disk := do
  let place ← d.placeOf path
  match d.node? place with
  | none => throw .notFound
  | some .folder => throw .isAFolder
  | some _ => return d.vacate place

/-- The names in the folder at a path, in no particular order, with what they stand for. -/
def entries (d : Disk) (path : String) : Except Fault (List (String × Node)) := do
  match ← d.locate path with
  | .file _ _ => throw .notAFolder
  | .vacant _ => throw .notFound
  | .folder folder =>
    return d.nodes.filterMap fun (place, node) =>
      match place.getLast? with
      | some name => if place.dropLast = folder then some (name, node) else none
      | none => none

end Disk

end Ridership
