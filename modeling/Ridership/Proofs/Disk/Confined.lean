import Ridership.Index.Writing
import Ridership.Proofs.Disk.Lookup

/-!
# Changes confined to one file

To write a file changes nothing but its content, and to make or remove one nothing but what is at
its place. The changes add up: whatever is done to one file, every other path leads to what it led
to before, and every other file has the content it had.
-/

namespace Ridership.Disk

variable {d d' d'' : Disk} {p q : Place} {id : FileId} {path : String} {t : Target}

/-! ## The ends of paths -/

theorem node?_root : d.node? [] = some .folder := by simp [node?]

theorem IsLeaf.ne_root (h : d.IsLeaf p) : p ≠ [] := by
  rintro rfl
  rcases h with h | ⟨id, h⟩ <;> simp [node?_root] at h

theorem mem_of_node? {n : Node} (h : d.node? p = some n) (hn : n ≠ .folder) :
    ∃ place, (place, n) ∈ d.nodes := by
  unfold node? at h
  split at h
  · exact absurd (Option.some.inj h).symm hn
  · obtain ⟨⟨place, node⟩, hf, rfl⟩ := Option.map_eq_some_iff.mp h
    exact ⟨place, List.mem_of_find?_eq_some hf⟩

theorem lt_of_node? (h : d.node? p = some (.file id)) : id < d.contents.length := by
  obtain ⟨place, hmem⟩ := mem_of_node? h nofun
  exact d.files_exist _ hmem id rfl

theorem locate_on (h : SameBranches d d') (hl : d.locate path = .ok t) :
    d'.locate path = .ok (t.on d') := by
  unfold locate at hl ⊢
  split at hl
  · cases hl
  · next hnul =>
    split at hl
    · cases hl
    · next hempty =>
      split at hl
      · cases hl
      · next hlong =>
        rw [if_neg hnul, if_neg hempty, if_neg hlong]
        exact walk_on h hl

theorem locate_eq_walk {ns : List String} (hnul : path.toList.contains '\x00' = false)
    (hempty : path ≠ "") (hlong : path.utf8ByteSize ≤ maxPath) (hnames : names path = ns) :
    d.locate path = d.walk maxLinks [] ns := by
  rw [locate, if_neg (by rw [hnul]; nofun), if_neg hempty, if_neg (Nat.not_lt.mpr hlong), hnames]

/-- A file directly in the top folder is found by its name. -/
theorem locate_of_name {name : String} (hnames : names name = [name])
    (hnul : name.toList.contains '\x00' = false) (hname : IsName name)
    (hnode : d.node? [name] = some (.file id)) : d.locate name = .ok (.file [name] id) := by
  have hlong : name.utf8ByteSize ≤ maxPath :=
    Nat.le_trans (Nat.le_of_not_lt hname.2.2) (by decide)
  rw [locate_eq_walk hnul (fun h => hname.1 (.inl h)) hlong hnames, walk_name hname]
  simp only [List.nil_append, hnode, if_true]

/-- A file in a folder of the top folder is found by the two names. -/
theorem locate_of_names {folder name : String} (hnames : names path = [folder, name])
    (hnul : path.toList.contains '\x00' = false) (hempty : path ≠ "")
    (hlong : path.utf8ByteSize ≤ maxPath) (hfolder : IsName folder) (hname : IsName name)
    (hnode : d.node? [folder] = some .folder) (hfile : d.node? [folder, name] = some (.file id)) :
    d.locate path = .ok (.file [folder, name] id) := by
  rw [locate_eq_walk hnul hempty hlong hnames, walk_name hfolder]
  simp only [List.nil_append, hnode]
  rw [walk_name hname]
  simp only [List.singleton_append, hfile, if_true]

theorem walk_of_locate (hl : d.locate path = .ok t) :
    d.walk maxLinks [] (names path) = .ok t := by
  unfold locate at hl
  split at hl
  · cases hl
  · split at hl
    · cases hl
    · split at hl
      · cases hl
      · exact hl

theorem holds_of_locate (hl : d.locate path = .ok t) : t.Holds d :=
  walk_holds (walk_of_locate hl)

theorem openFile_eq_ok_iff : d.openFile path = .ok id ↔ ∃ p, d.locate path = .ok (.file p id) := by
  unfold openFile
  cases hl : d.locate path with
  | error f => exact ⟨nofun, nofun⟩
  | ok t =>
    cases t with
    | folder p => exact ⟨nofun, fun ⟨_, h⟩ => by cases h⟩
    | vacant p => exact ⟨nofun, fun ⟨_, h⟩ => by cases h⟩
    | file p id' =>
      constructor
      · intro h
        cases h
        exact ⟨p, rfl⟩
      · rintro ⟨_, h⟩
        cases h
        rfl

theorem openFile_of_name {name : String} (hnames : names name = [name])
    (hnul : name.toList.contains '\x00' = false) (hname : IsName name)
    (hnode : d.node? [name] = some (.file id)) : d.openFile name = .ok id :=
  openFile_eq_ok_iff.mpr ⟨_, locate_of_name hnames hnul hname hnode⟩

theorem lt_of_openFile (h : d.openFile path = .ok id) : id < d.contents.length := by
  obtain ⟨p, hl⟩ := openFile_eq_ok_iff.mp h
  exact lt_of_node? (holds_of_locate hl)

/-- A path to a vacant place has no file to open. -/
theorem openFile_of_vacant (hl : d.locate path = .ok (.vacant p)) :
    d.openFile path = .error .notFound := by
  unfold openFile
  rw [hl]
  rfl

theorem create_cases (h : d.create path = .ok (d', id)) :
    (∃ p, d.locate path = .ok (.file p id) ∧ d' = d.setContent id []) ∨
      ∃ p, d.locate path = .ok (.vacant p) ∧ id = d.contents.length ∧ d' = d.addEmpty p := by
  unfold create at h
  cases hl : d.locate path with
  | error f =>
    rw [hl] at h
    cases h
  | ok t =>
    rw [hl] at h
    cases t with
    | folder p => cases h
    | file p id' =>
      cases h
      exact .inl ⟨p, rfl, rfl⟩
    | vacant p =>
      cases h
      exact .inr ⟨p, rfl, rfl, rfl⟩

/-! ## Links at the end of a path -/

/-- The last name of a path is that of a link. -/
def IsLink (d : Disk) (path : String) : Prop :=
  ∃ p target, d.placeOf path = .ok p ∧ d.node? p = some (.link target)

/-- Unless its last name is that of a link, a path ends at the place that this name stands for. -/
theorem placeOf_of_locate (hlink : ¬d.IsLink path) (hl : d.locate path = .ok t)
    (ht : t = .vacant p ∨ ∃ id, t = .file p id) : d.placeOf path = .ok p := by
  have hw := walk_of_locate hl
  have hnotFolder : ∀ q, t ≠ .folder q := by
    rintro q rfl
    rcases ht with h | ⟨id, h⟩ <;> cases h
  cases hn : (names path).reverse with
  | nil =>
    rw [List.reverse_eq_nil_iff.mp hn, walk] at hw
    exact absurd (Except.ok.inj hw).symm (hnotFolder _)
  | cons name above =>
    have hnames : names path = above.reverse ++ [name] := by
      rw [← List.reverse_reverse (names path), hn, List.reverse_cons]
    rw [hnames] at hw
    obtain ⟨folder, links, habove, hlast⟩ := walk_append (by simp) hw
    have hname : IsName name := isName_of_walk hlast hnotFolder
    have hproper : ¬(name = "" ∨ name = "." ∨ name = "..") := by
      rintro (h | h | h)
      · exact hname.1 (.inl h)
      · exact hname.1 (.inr h)
      · exact hname.2.1 h
    have hplace : d.placeOf path = .ok (folder ++ [name]) := by
      unfold placeOf
      rw [hn]
      simp only [if_neg hproper, habove, bind, Except.bind, pure, Except.pure]
    rw [walk_name hname] at hlast
    rw [hplace]
    congr 1
    split at hlast
    · rw [walk] at hlast
      exact absurd (Except.ok.inj hlast).symm (hnotFolder _)
    · cases hlast
      rcases ht with h | ⟨id, h⟩ <;> cases h
      rfl
    · next target hnode => exact absurd ⟨_, target, hplace, hnode⟩ hlink
    · cases hlast
      rcases ht with h | ⟨id, h⟩ <;> cases h
      rfl

/-! ## Writing a file -/

/-- The second disk is the first with another content of one file. -/
structure Rewrites (id : FileId) (d d' : Disk) : Prop where
  nodes_eq : d'.nodes = d.nodes
  length_eq : d'.contents.length = d.contents.length
  content_eq : ∀ other, other ≠ id → d'.content other = d.content other

theorem Rewrites.refl : Rewrites id d d :=
  ⟨rfl, rfl, fun _ _ => rfl⟩

theorem Rewrites.trans (h : Rewrites id d d') (h' : Rewrites id d' d'') : Rewrites id d d'' :=
  ⟨h'.nodes_eq.trans h.nodes_eq, h'.length_eq.trans h.length_eq,
    fun other hne => (h'.content_eq other hne).trans (h.content_eq other hne)⟩

theorem Rewrites.node?_eq (h : Rewrites id d d') (p : Place) : d'.node? p = d.node? p := by
  unfold node?
  rw [h.nodes_eq]

theorem Rewrites.openFile (h : Rewrites id d d') {other : FileId}
    (ho : d.openFile path = .ok other) : d'.openFile path = .ok other := by
  obtain ⟨p, hl⟩ := openFile_eq_ok_iff.mp ho
  have hnode : d'.node? p = some (.file other) := (h.node?_eq p).trans (holds_of_locate hl)
  have hbranches : SameBranches d d' := fun q => by rw [branch?, branch?, h.node?_eq]
  refine openFile_eq_ok_iff.mpr ⟨p, ?_⟩
  rw [locate_on hbranches hl, Target.on_of_file hnode (.inr ⟨other, rfl⟩)]

theorem rewrites_setContent (bytes : Bytes) : Rewrites id d (d.setContent id bytes) where
  nodes_eq := rfl
  length_eq := by simp [setContent]
  content_eq := fun _ hne => content_setContent_of_ne d (Ne.symm hne) bytes

theorem rewrites_wear : Rewrites id d d.wear.1 := by
  unfold wear
  split
  · exact .refl
  · exact .refl
  · exact ⟨rfl, rfl, fun _ _ => rfl⟩

theorem content_wear (other : FileId) : d.wear.1.content other = d.content other := by
  unfold wear
  split <;> rfl

theorem wear_succeeds (id : FileId) (h : d.endurance ≠ some 0) :
    ∃ d', d.wear = (d', .ok ()) ∧ Rewrites id d d' ∧ d'.content id = d.content id ∧
      d'.allowance = d.allowance ∧ d'.endurance = d.endurance.map (· - 1) := by
  have hw : Rewrites id d d.wear.1 := rewrites_wear
  refine ⟨d.wear.1, ?_, hw, content_wear id, ?_, ?_⟩ <;>
    unfold wear <;> split <;> simp_all

theorem rewrites_write {offset : Nat} {bytes : Bytes} :
    Rewrites id d (d.write id offset bytes).1 := by
  have h : Rewrites id d (d.setContent id _) := rewrites_setContent
    (overlay (d.content id) offset (bytes.take (d.allowance.getD bytes.length)))
  exact ⟨h.nodes_eq, h.length_eq, h.content_eq⟩

theorem rewrites_setLength {length : Nat} : Rewrites id d (d.setLength id length).1 := by
  unfold setLength
  have hw : Rewrites id d d.wear.1 := rewrites_wear
  split
  · next hwear => rwa [hwear] at hw
  · next hwear =>
    rw [hwear] at hw
    exact hw.trans (rewrites_setContent _)

/-- A file gets its length, or stays as it was on a disk that is worn out. -/
theorem setLength_cases (hid : id < d.contents.length) {length : Nat} {r : Except Fault Unit}
    (h : d.setLength id length = (d', r)) :
    (∃ f, r = .error f ∧ d'.content id = d.content id) ∨
      r = .ok () ∧ d'.content id = resize (d.content id) length := by
  have hr : Rewrites id d d.wear.1 := rewrites_wear
  have hkeep : d.wear.1.content id = d.content id := content_wear id
  unfold setLength at h
  split at h
  · next hwear =>
    rw [hwear] at hkeep
    cases h
    exact .inl ⟨_, rfl, hkeep⟩
  · next hwear =>
    rw [hwear] at hr hkeep
    cases h
    refine .inr ⟨rfl, ?_⟩
    rw [content_setContent_self _ (hr.length_eq.symm ▸ hid), hkeep]

/-- The disk admits this many bytes and requests that wear it. -/
structure Affords (d : Disk) (bytes requests : Nat) : Prop where
  space : ∀ b, d.allowance = some b → bytes ≤ b
  strength : ∀ k, d.endurance = some k → requests ≤ k

theorem Affords.ne_zero {bytes requests : Nat} (h : d.Affords bytes (requests + 1)) :
    d.endurance ≠ some 0 :=
  fun h0 => Nat.not_succ_le_zero requests (h.strength 0 h0)

theorem Affords.wear {bytes requests : Nat} (h : d.Affords bytes (requests + 1))
    (ha : d'.allowance = d.allowance) (he : d'.endurance = d.endurance.map (· - 1)) :
    d'.Affords bytes requests := by
  refine ⟨fun b hb => h.space b (ha ▸ hb), fun k hk => ?_⟩
  rw [he] at hk
  obtain ⟨k₀, hk₀, rfl⟩ := Option.map_eq_some_iff.mp hk
  have := h.strength k₀ hk₀
  omega

theorem Affords.create {bytes requests : Nat} (h : d.Affords bytes requests)
    (hc : d.create path = .ok (d', id)) : d'.Affords bytes requests := by
  rcases create_cases hc with ⟨p, -, rfl⟩ | ⟨p, -, -, rfl⟩
  · exact ⟨h.space, h.strength⟩
  · exact ⟨h.space, h.strength⟩

theorem Affords.setLength {bytes requests : Nat} (h : d.Affords bytes (requests + 1))
    (hid : id < d.contents.length) (length : Nat) :
    ∃ d', d.setLength id length = (d', .ok ()) ∧ Rewrites id d d' ∧
      d'.content id = resize (d.content id) length ∧ d'.Affords bytes requests := by
  obtain ⟨d₁, hw, hr, hc, ha, he⟩ := wear_succeeds id h.ne_zero
  have hd₁ := h.wear ha he
  refine ⟨d₁.setContent id (resize (d₁.content id) length), ?_, hr.trans (rewrites_setContent _),
    ?_, ⟨hd₁.space, hd₁.strength⟩⟩
  · simp only [Disk.setLength, hw]
  · rw [content_setContent_self _ (hr.length_eq.symm ▸ hid), hc]

theorem rewrites_perform (steps : List Index.Step) :
    Rewrites id d (Index.perform d id steps).1 := by
  induction steps generalizing d with
  | nil => exact .refl
  | cons step rest ih =>
    cases step with
    | barrier =>
      have hw : Rewrites id d d.sync.1 := rewrites_wear
      unfold Index.perform
      split
      · next hsync =>
        rw [hsync] at hw
        exact hw.trans ih
      · next hsync => rwa [hsync] at hw
    | write offset bytes =>
      have hw : Rewrites id d (d.write id offset bytes).1 := rewrites_write
      unfold Index.perform
      split
      · next hwrite =>
        rw [hwrite] at hw
        exact hw.trans ih
      · next hwrite => rwa [hwrite] at hw

/-! ## Changes at one place -/

/-- There is nothing at a place but perhaps this file. -/
def AtMost (d : Disk) (p : Place) (id : FileId) : Prop :=
  d.node? p = none ∨ d.node? p = some (.file id)

theorem AtMost.isLeaf (h : d.AtMost p id) : d.IsLeaf p :=
  h.imp_right fun h => ⟨id, h⟩

/-- The disks differ in the content of one file, and in whether it is at its place. -/
structure Confined (p : Place) (id : FileId) (d d' : Disk) : Prop where
  before : d.AtMost p id
  after : d'.AtMost p id
  node?_eq : ∀ q, q ≠ p → d'.node? q = d.node? q
  content_eq : ∀ other, other ≠ id → d'.content other = d.content other

theorem Confined.trans (h : Confined p id d d') (h' : Confined p id d' d'') :
    Confined p id d d'' :=
  ⟨h.before, h'.after, fun q hq => (h'.node?_eq q hq).trans (h.node?_eq q hq),
    fun other hne => (h'.content_eq other hne).trans (h.content_eq other hne)⟩

theorem Confined.symm (h : Confined p id d d') : Confined p id d' d :=
  ⟨h.after, h.before, fun q hq => (h.node?_eq q hq).symm,
    fun other hne => (h.content_eq other hne).symm⟩

theorem Rewrites.confined (h : Rewrites id d d') (hp : d.AtMost p id) : Confined p id d d' where
  before := hp
  after := by
    unfold AtMost
    rw [h.node?_eq]
    exact hp
  node?_eq := fun q _ => h.node?_eq q
  content_eq := h.content_eq

theorem Confined.sameBranches (h : Confined p id d d') : SameBranches d d' :=
  sameBranches_of_leaf h.before.isLeaf h.after.isLeaf h.node?_eq

theorem node?_addEmpty_self (hp : p ≠ []) :
    (d.addEmpty p).node? p = some (.file d.contents.length) := by
  simp [node?, addEmpty, hp]

theorem confined_addEmpty (hp : d.node? p = none) :
    Confined p d.contents.length d (d.addEmpty p) where
  before := .inl hp
  after := .inr (node?_addEmpty_self (IsLeaf.ne_root (.inl hp)))
  node?_eq := by
    intro q hq
    have hne : (p == q) = false := by simpa using Ne.symm hq
    simp [node?, addEmpty, hne]
  content_eq := by
    intro other hne
    unfold content addEmpty
    rcases Nat.lt_or_gt_of_ne hne with hlt | hgt
    · rw [List.getElem?_append_left hlt]
    · rw [List.getElem?_eq_none (by simp; exact hgt), List.getElem?_eq_none (Nat.le_of_lt hgt)]

theorem node?_vacate_self (hp : p ≠ []) : (d.vacate p).node? p = none := by
  simp [node?, vacate, hp]

theorem confined_vacate (hp : d.AtMost p id) : Confined p id d (d.vacate p) where
  before := hp
  after := .inl (node?_vacate_self hp.isLeaf.ne_root)
  node?_eq := by
    intro q hq
    unfold node? vacate
    congr 2
    rw [List.find?_filter]
    congr 1
    funext n
    by_cases hn : n.1 = q
    · simp [hn, hq]
    · simp [hn]
  content_eq := fun _ _ => rfl

/-! ## What paths lead to afterwards -/

theorem Confined.locate_self (h : Confined p id d d') (hp : d'.node? p = some (.file id))
    (hl : d.locate path = .ok t) (ht : t = .vacant p ∨ ∃ id', t = .file p id') :
    d'.locate path = .ok (.file p id) := by
  rw [locate_on h.sameBranches hl, Target.on_of_file hp ht]

theorem Confined.locate_gone (h : Confined p id d d') (hp : d'.node? p = none)
    (hl : d.locate path = .ok t) (ht : t = .vacant p ∨ ∃ id', t = .file p id') :
    d'.locate path = .ok (.vacant p) := by
  rw [locate_on h.sameBranches hl, Target.on_of_none hp ht]

/-- Every path that leads to another file leads to it still, with the content it had. -/
theorem Confined.other_file (h : Confined p id d d') {other : FileId}
    (ho : d.openFile path = .ok other) (hne : other ≠ id) :
    d'.openFile path = .ok other ∧ d'.content other = d.content other := by
  obtain ⟨q, hl⟩ := openFile_eq_ok_iff.mp ho
  have hnode : d.node? q = some (.file other) := holds_of_locate hl
  have hq : q ≠ p := by
    rintro rfl
    rcases h.before with hp | hp <;> rw [hp] at hnode <;> cases hnode
    exact hne rfl
  have hnode' : d'.node? q = some (.file other) := (h.node?_eq q hq).trans hnode
  refine ⟨openFile_eq_ok_iff.mpr ⟨q, ?_⟩, h.content_eq other hne⟩
  rw [locate_on h.sameBranches hl, Target.on_of_file hnode' (.inr ⟨other, rfl⟩)]

/-- A path leads to a file that it did not lead to before only if it is that one file, and it is at
its place. -/
theorem Confined.appeared (h : Confined p id d d') {other : FileId}
    (ho : d'.openFile path = .ok other) :
    d.openFile path = .ok other ∨ other = id ∧ d'.node? p = some (.file id) := by
  by_cases hne : other = id
  · subst hne
    obtain ⟨q, hl⟩ := openFile_eq_ok_iff.mp ho
    have hnode : d'.node? q = some (.file other) := holds_of_locate hl
    by_cases hq : q = p
    · exact .inr ⟨rfl, hq ▸ hnode⟩
    · have hold : d.node? q = some (.file other) := (h.node?_eq q hq).symm.trans hnode
      refine .inl (openFile_eq_ok_iff.mpr ⟨q, ?_⟩)
      rw [locate_on h.symm.sameBranches hl, Target.on_of_file hold (.inr ⟨other, rfl⟩)]
  · exact .inl (h.symm.other_file ho hne).1

/-! ## Making and removing a file -/

theorem placeOf_on (h : SameBranches d d') (hp : d.placeOf path = .ok p) :
    d'.placeOf path = .ok p := by
  unfold placeOf at hp ⊢
  split at hp
  · cases hp
  · next name above _ =>
    split at hp
    · cases hp
    · next hproper =>
      rw [if_neg hproper]
      cases hw : d.walk maxLinks [] above.reverse with
      | error f =>
        rw [hw] at hp
        cases hp
      | ok t =>
        rw [hw] at hp
        rw [walk_on h hw]
        cases t with
        | folder folder => exact hp
        | file _ _ | vacant _ => cases hp

theorem remove_of_file (hp : d.placeOf path = .ok p) (hn : d.node? p = some (.file id)) :
    d.remove path = .ok (d.vacate p) := by
  unfold remove
  rw [hp]
  simp only [bind, Except.bind, hn, pure, Except.pure]

/-- On the second disk a file is at the path, where on the first one it was as well or nothing was,
and nothing else has changed. -/
structure Made (path : String) (p : Place) (id : FileId) (d d' : Disk) : Prop where
  target : ∃ t, d.locate path = .ok t ∧ (t = .vacant p ∨ ∃ id', t = .file p id')
  origin : d.openFile path = .ok id ∨ id = d.contents.length
  confined : Confined p id d d'
  present : d'.node? p = some (.file id)

theorem made_of_create (h : d.create path = .ok (d', id)) :
    ∃ p, Made path p id d d' ∧ d'.content id = [] := by
  rcases create_cases h with ⟨p, hl, rfl⟩ | ⟨p, hl, rfl, rfl⟩
  · have hnode : d.node? p = some (.file id) := holds_of_locate hl
    refine ⟨p, ⟨⟨_, hl, .inr ⟨id, rfl⟩⟩, .inl (openFile_eq_ok_iff.mpr ⟨p, hl⟩), ?_, hnode⟩, ?_⟩
    · exact (rewrites_setContent []).confined (.inr hnode)
    · exact content_setContent_self d (lt_of_node? hnode) []
  · have hnode : d.node? p = none := holds_of_locate hl
    refine ⟨p, ⟨⟨_, hl, .inl rfl⟩, .inr rfl, confined_addEmpty hnode, ?_⟩, ?_⟩
    · exact node?_addEmpty_self (IsLeaf.ne_root (.inl hnode))
    · simp [content, addEmpty]

namespace Made

theorem rewrites (h : Made path p id d d') (hr : Rewrites id d' d'') : Made path p id d d'' where
  target := h.target
  origin := h.origin
  confined := h.confined.trans (hr.confined h.confined.after)
  present := (hr.node?_eq p).trans h.present

theorem lt_length (h : Made path p id d d') : id < d'.contents.length :=
  lt_of_node? h.present

theorem openFile_of_confined (h : Made path p id d d') (hc : Confined p id d d'')
    (hp : d''.node? p = some (.file id)) : d''.openFile path = .ok id := by
  obtain ⟨t, hl, ht⟩ := h.target
  exact openFile_eq_ok_iff.mpr ⟨p, hc.locate_self hp hl ht⟩

theorem openFile (h : Made path p id d d') : d'.openFile path = .ok id :=
  h.openFile_of_confined h.confined h.present

/-- Once the file is removed there is none at the path, and nothing else has changed. -/
theorem remove (h : Made path p id d d') (hlink : ¬d.IsLink path) :
    ∃ d'', d'.remove path = .ok d'' ∧ Confined p id d d'' ∧
      d''.openFile path = .error .notFound := by
  obtain ⟨t, hl, ht⟩ := h.target
  have hplace : d'.placeOf path = .ok p :=
    placeOf_on h.confined.sameBranches (placeOf_of_locate hlink hl ht)
  have hc : Confined p id d (d'.vacate p) := h.confined.trans (confined_vacate h.confined.after)
  have hgone := node?_vacate_self (d := d') h.confined.after.isLeaf.ne_root
  exact ⟨_, remove_of_file hplace h.present, hc, openFile_of_vacant (hc.locate_gone hgone hl ht)⟩

/-- Where a file was at the path, it is the one that was made anew. -/
theorem eq_of_openFile (h : Made path p id d d') {other : FileId}
    (ho : d.openFile path = .ok other) : id = other := by
  obtain ⟨q, hl⟩ := openFile_eq_ok_iff.mp ho
  obtain ⟨t, ht, hend⟩ := h.target
  have hnode : d.node? q = some (.file other) := holds_of_locate hl
  obtain rfl : t = .file q other := Except.ok.inj (ht.symm.trans hl)
  obtain rfl : q = p := by
    rcases hend with hv | ⟨id', hf⟩
    · cases hv
    · cases hf
      rfl
  rcases h.confined.before with hnone | hfile
  · rw [hnode] at hnone
    cases hnone
  · rw [hnode] at hfile
    cases hfile
    rfl

/-- A file that another path led to is not the one that was made. -/
theorem other_ne (h : Made path p id d d') {q : String} {other : FileId}
    (ho : d.openFile q = .ok other) (hne : d.openFile path ≠ .ok other) : other ≠ id := by
  rintro rfl
  rcases h.origin with hold | hnew
  · exact hne hold
  · obtain ⟨place, hl⟩ := openFile_eq_ok_iff.mp ho
    have hlt := lt_of_node? (holds_of_locate hl)
    rw [hnew] at hlt
    exact Nat.lt_irrefl _ hlt

end Made

end Ridership.Disk
