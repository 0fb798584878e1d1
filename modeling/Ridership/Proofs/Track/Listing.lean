import Mathlib
import Ridership.Proofs.Disk.Distinct
import Ridership.Proofs.Disk.PathOrder
import Ridership.Track.Listing

/-!
# Which tracks are listed

The tracks of a folder are listed once each and in the order of their paths, and no folder and no
link is listed, whatever the link leads to. The list follows from the names that files have in the
folder, so it does not matter in which order a file system delivers what is in there. Files whose
names start with a dot are hidden, but only if these names are texts: one that is not is listed
nonetheless. On a disk all names are texts, so no hidden file is listed there.
-/

namespace Ridership.Track

open Disk (Place Node join)
open Disk.Path (EntryName dot inFolder order)

variable {folder name path : Bytes} {node : Node} {entries delivered : List (Bytes × Node)}
  {hidden : Bytes → Prop} {paths : List Bytes}

def StartsWithDot (name : Bytes) : Prop :=
  name.head? = some dot

def IsText (name : Bytes) : Prop :=
  ∃ s, bytesOf s = name

/-- What a file system can deliver for a folder, in some order: each entry has a name of its own. -/
structure Delivered (entries : List (Bytes × Node)) : Prop where
  names : ∀ e ∈ entries, EntryName e.1
  distinct : (entries.map Prod.fst).Nodup

/-- The paths are those of the files among the entries that are not hidden: in strict order, each
of them once, and nothing else. -/
structure Lists (hidden : Bytes → Prop) (folder : Bytes) (entries : List (Bytes × Node))
    (paths : List Bytes) : Prop where
  ascending : paths.Pairwise fun a b => order a < order b
  once : ∀ name id, (name, .file id) ∈ entries → ¬hidden name →
    paths.count (inFolder folder name) = 1
  only : ∀ path ∈ paths, ∃ name id, (name, .file id) ∈ entries ∧ ¬hidden name ∧
    path = inFolder folder name

/-! ## Entries -/

theorem isHidden_iff (folder : Bytes) (h : EntryName name) :
    isHidden (inFolder folder name) = true ↔ StartsWithDot name ∧ IsText name := by
  rw [isHidden, Disk.Path.fileName?_inFolder h, Option.bind_some]
  cases ht : textOf? name with
  | none =>
    refine ⟨nofun, fun ⟨_, s, hs⟩ => ?_⟩
    rw [textOf?_eq_some_iff.mpr hs] at ht
    cases ht
  | some s =>
    have hs : bytesOf s = name := textOf?_eq_some_iff.mp ht
    have hdot : s.startsWith "." = true ↔ StartsWithDot name := by
      rw [StartsWithDot, ← hs, head?_bytesOf_iff (d := '.') rfl (by decide),
        String.startsWith_string_iff]
      cases s.toList <;> simp [List.prefix_cons_iff, eq_comm]
    exact hdot.trans (and_iff_left ⟨s, hs⟩).symm

theorem isTrack_iff (folder : Bytes) (h : EntryName name) :
    isTrack (inFolder folder name) node = true ↔
      (∃ id, node = .file id) ∧ ¬(StartsWithDot name ∧ IsText name) := by
  rw [← isHidden_iff folder h]
  cases node with
  | file id => simp [isTrack]
  | folder | link target => simp [isTrack]

theorem mem_listing (h : Delivered entries) : path ∈ listing folder entries ↔
    ∃ name id, (name, .file id) ∈ entries ∧ ¬(StartsWithDot name ∧ IsText name) ∧
      path = inFolder folder name := by
  rw [listing, List.mem_mergeSort, List.mem_map]
  constructor
  · rintro ⟨e, hmem, rfl⟩
    obtain ⟨hfound, htrack⟩ := List.mem_filter.mp hmem
    obtain ⟨⟨name, node⟩, hentry, rfl⟩ := List.mem_map.mp hfound
    obtain ⟨⟨id, rfl⟩, hshown⟩ := (isTrack_iff folder (h.names _ hentry)).mp htrack
    exact ⟨name, id, hentry, hshown, rfl⟩
  · rintro ⟨name, id, hentry, hshown, rfl⟩
    have htrack := (isTrack_iff folder (h.names _ hentry)).mpr ⟨⟨id, rfl⟩, hshown⟩
    exact ⟨_, List.mem_filter.mpr ⟨List.mem_map.mpr ⟨_, hentry, rfl⟩, htrack⟩, rfl⟩

/-- Names that are not equal have paths that are not. -/
theorem nodup_orders (h : Delivered entries) (folder : Bytes) :
    ((entries.map fun e => (inFolder folder e.1, e.2)).map fun e => order e.1).Nodup := by
  rw [List.map_map]
  refine List.pairwise_map.mpr ((List.pairwise_map.mp h.distinct).imp_of_mem ?_)
  intro a b ha hb hne heq
  exact hne ((Disk.Path.order_inFolder_inj (h.names a ha) (h.names b hb)).mp heq)

theorem ascending_listing (h : Delivered entries) (folder : Bytes) :
    (listing folder entries).Pairwise fun a b => order a < order b := by
  refine Disk.Path.strict_mergeSort id ?_
  rw [List.map_map]
  exact (nodup_orders h folder).sublist (List.filter_sublist.map _)

/-- The list does not depend on the order in which the entries are delivered. -/
theorem listing_perm (h : Delivered entries) (hperm : delivered.Perm entries) :
    listing folder delivered = listing folder entries := by
  have hdelivered : Delivered delivered :=
    ⟨fun e he => h.names e (hperm.mem_iff.mp he), (hperm.map _).nodup_iff.mpr h.distinct⟩
  have hfound := (((hperm.map fun e => (inFolder folder e.1, e.2)).filter
    fun e => isTrack e.1 e.2).map Prod.fst)
  refine Disk.Path.eq_of_strict id ?_ (ascending_listing h folder)
    (ascending_listing hdelivered folder)
  exact (List.mergeSort_perm _ _).trans (hfound.trans (List.mergeSort_perm _ _).symm)

/-! ## What is listed -/

theorem Lists.congr {hidden' : Bytes → Prop} (h : Lists hidden folder entries paths)
    (hiff : ∀ name id, (name, .file id) ∈ entries → (hidden name ↔ hidden' name)) :
    Lists hidden' folder entries paths where
  ascending := h.ascending
  once name id hentry hshown := h.once name id hentry (mt (hiff name id hentry).mp hshown)
  only path hpath := by
    obtain ⟨name, id, hentry, hshown, hname⟩ := h.only path hpath
    exact ⟨name, id, hentry, mt (hiff name id hentry).mpr hshown, hname⟩

theorem lists_listing (h : Delivered entries) (folder : Bytes) :
    Lists (fun name => StartsWithDot name ∧ IsText name) folder entries
      (listing folder entries) where
  ascending := ascending_listing h folder
  once name id hentry hshown := by
    have hnodup : (listing folder entries).Nodup := by
      refine (ascending_listing h folder).imp fun {a b} hlt heq => ?_
      rw [heq] at hlt
      exact List.lt_irrefl _ hlt
    exact List.count_eq_one_of_mem hnodup ((mem_listing h).mpr ⟨name, id, hentry, hshown, rfl⟩)
  only path hpath := (mem_listing h).mp hpath

/-- A hidden file is listed exactly if its name is not a text. -/
theorem lists_hidden_iff (h : Delivered entries) (folder : Bytes) :
    Lists StartsWithDot folder entries (listing folder entries) ↔
      ∀ name id, (name, .file id) ∈ entries → StartsWithDot name → IsText name := by
  constructor
  · intro hlists name id hentry hdot
    by_contra htext
    have hpath : inFolder folder name ∈ listing folder entries :=
      (mem_listing h).mpr ⟨name, id, hentry, fun hhidden => htext hhidden.2, rfl⟩
    obtain ⟨name', _, -, hshown, hname⟩ := hlists.only _ hpath
    rw [← Disk.Path.inFolder_injective folder hname] at hshown
    exact hshown hdot
  · intro htexts
    refine (lists_listing h folder).congr fun name id hentry => ?_
    exact and_iff_left_of_imp (htexts name id hentry)

/-! ## Tracks on a disk -/

variable {d : Disk} {p : String} {place : Place}

/-- The entries of a folder of a disk as a file system delivers them. -/
def entriesAt (d : Disk) (place : Place) : List (Bytes × Node) :=
  inBytes (d.nodes.filterMap (Disk.entryIn? place))

theorem isText_of_mem (h : (name, node) ∈ entriesAt d place) : IsText name := by
  obtain ⟨entry, -, he⟩ := List.mem_map.mp h
  exact ⟨entry.1, congrArg Prod.fst he⟩

theorem map_filterMap_textOf? {l : List Bytes} (h : ∀ bytes ∈ l, IsText bytes) :
    (l.filterMap textOf?).map bytesOf = l := by
  induction l with
  | nil => rfl
  | cons bytes rest ih =>
    obtain ⟨s, rfl⟩ := h bytes List.mem_cons_self
    rw [List.filterMap_cons_some (textOf?_bytesOf s), List.map_cons,
      ih fun b hb => h b (List.mem_cons_of_mem _ hb)]

/-- The tracks of a folder of a disk are those listed among its entries: all their paths are
texts. -/
theorem files_of_entries {found : List (String × Node)} (h : d.entries p = .ok found) :
    ∃ tracks, files d p = .ok tracks ∧
      tracks.map bytesOf = listing (bytesOf p) (inBytes found) := by
  rw [files, h]
  refine ⟨_, rfl, map_filterMap_textOf? fun path hpath => ?_⟩
  rw [listing, List.mem_mergeSort] at hpath
  obtain ⟨e, hmem, rfl⟩ := List.mem_map.mp hpath
  obtain ⟨entry, hentry, rfl⟩ := List.mem_map.mp (List.mem_filter.mp hmem).1
  obtain ⟨named, -, rfl⟩ := List.mem_map.mp hentry
  exact ⟨join p named.1, Disk.Path.bytesOf_join p named.1⟩

theorem delivered_entriesAt (hd : d.Distinct)
    (hnames : ∀ n ∈ d.nodes, ∀ name ∈ n.1, EntryName (bytesOf name)) :
    Delivered (entriesAt d place) where
  names e he := by
    obtain ⟨⟨name, node⟩, hentry, rfl⟩ := List.mem_map.mp he
    obtain ⟨n, hn, hname⟩ := List.mem_filterMap.mp hentry
    obtain rfl := Disk.entryIn?_eq_some_iff.mp hname
    exact hnames _ hn name (List.mem_append_right place List.mem_cons_self)
  distinct := by
    rw [entriesAt, inBytes, List.map_map]
    have hnodup : ((d.nodes.filterMap (Disk.entryIn? place)).map Prod.fst).Nodup :=
      Disk.nodup_entries hd
    have hbytes := hnodup.map bytesOf_injective
    rwa [List.map_map] at hbytes

theorem mem_entriesAt_iff (hd : d.Distinct) {name : String} :
    (bytesOf name, node) ∈ entriesAt d place ↔ d.node? (place ++ [name]) = some node := by
  rw [← Disk.mem_entries_iff hd, entriesAt, inBytes, List.mem_map]
  constructor
  · rintro ⟨⟨name', node'⟩, hentry, heq⟩
    obtain ⟨hname, rfl⟩ := Prod.mk.inj heq
    exact bytesOf_injective hname ▸ hentry
  · exact fun hentry => ⟨_, hentry, rfl⟩

/-- On a disk the tracks of a folder are the files in it that are not hidden, in the order of their
paths and each of them once. In which order the disk has its nodes makes no difference. -/
theorem tracks_of_disk (hd : d.Distinct) (hplace : d.locate p = .ok (.folder place))
    (hnames : ∀ n ∈ d.nodes, ∀ name ∈ n.1, EntryName (bytesOf name)) :
    ∃ tracks, files d p = .ok tracks ∧
      Lists StartsWithDot (bytesOf p) (entriesAt d place) (tracks.map bytesOf) ∧
      (∀ name, join p name ∈ tracks ↔
        (∃ id, d.node? (place ++ [name]) = some (.file id)) ∧ ¬StartsWithDot (bytesOf name)) ∧
      ∀ d' : Disk, d'.nodes.Perm d.nodes → files d' p = .ok tracks := by
  have hdelivered : Delivered (entriesAt d place) := delivered_entriesAt hd hnames
  obtain ⟨tracks, hfiles, hlisting⟩ := files_of_entries (Disk.entries_of_folder hplace)
  rw [← entriesAt] at hlisting
  have hlists : Lists StartsWithDot (bytesOf p) (entriesAt d place) (tracks.map bytesOf) := by
    rw [hlisting, lists_hidden_iff hdelivered]
    exact fun name id hentry _ => isText_of_mem hentry
  refine ⟨tracks, hfiles, hlists, fun name => ?_, fun d' hperm => ?_⟩
  · rw [← List.mem_map_of_injective bytesOf_injective, Disk.Path.bytesOf_join]
    constructor
    · intro hmem
      obtain ⟨name', id, hentry, hshown, heq⟩ := hlists.only _ hmem
      obtain rfl := Disk.Path.inFolder_injective _ heq
      exact ⟨⟨id, (mem_entriesAt_iff hd).mp hentry⟩, hshown⟩
    · rintro ⟨⟨id, hnode⟩, hshown⟩
      have honce := hlists.once _ id ((mem_entriesAt_iff hd).mpr hnode) hshown
      exact List.count_pos_iff.mp (honce ▸ Nat.one_pos)
  · obtain ⟨tracks', hfiles', hlisting'⟩ :=
      files_of_entries (Disk.entries_of_folder (Disk.locate_folder_of_perm hd hperm hplace))
    rw [← entriesAt] at hlisting'
    have hentries : (entriesAt d' place).Perm (entriesAt d place) := (hperm.filterMap _).map _
    rw [listing_perm hdelivered hentries, ← hlisting] at hlisting'
    rw [hfiles', bytesOf_injective.list_map hlisting']

/-! ## Tracks of any folder -/

end Ridership.Track
