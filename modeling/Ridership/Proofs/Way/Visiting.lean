import Ridership.Build.Prepare
import Ridership.Proofs.Decimal.Spelling
import Ridership.Proofs.Way.Popularity

/-!
# The order in which a table is visited

The entries of an object, one for each key, are visited in any order when a table is made of them.
A way may be written as a key in more than one text, with a plus sign or with zeros in front, and
of the entries of one way the last one visited counts. So the order does not matter just when the
keys of a way all carry the same popularity; then it does not matter to a build either.
-/

namespace Ridership

namespace Way.Table

open Ridership.Json (Value)

variable {fields entries order : List (String × Value)} {key : String} {v : Value} {way : WayId}
  {t : Table}

/-! ## Tables -/

/-- The value of the last entry that is for a way. -/
def lastOf (way : WayId) (entries : List (String × Value)) : Option Value :=
  (entries.reverse.find? fun e => wayOfKey? e.1 == some way).map Prod.snd

theorem lastOf_cons (e : String × Value) : lastOf way (e :: entries) =
    (lastOf way entries).or (if wayOfKey? e.1 = some way then some e.2 else none) := by
  simp only [lastOf, List.reverse_cons, List.find?_append, Option.map_or, List.find?_singleton]
  congr 1
  simp only [beq_iff_eq]
  split <;> rfl

theorem lastOf_append_singleton (e : String × Value) (h : wayOfKey? e.1 = some way) :
    lastOf way (entries ++ [e]) = some e.2 := by
  simp [lastOf, h]

theorem mem_of_lastOf (h : lastOf way entries = some v) :
    ∃ key, (key, v) ∈ entries ∧ wayOfKey? key = some way := by
  obtain ⟨⟨key, w⟩, hfind, rfl⟩ := Option.map_eq_some_iff.mp h
  have hmem := List.mem_of_find?_eq_some hfind
  have hway := List.find?_some hfind
  exact ⟨key, List.mem_reverse.mp hmem, beq_iff_eq.mp hway⟩

theorem lastOf_of_mem (h : (key, v) ∈ entries) (hway : wayOfKey? key = some way) :
    ∃ w, lastOf way entries = some w := by
  rw [← Option.isSome_iff_exists, lastOf, Option.isSome_map, List.find?_isSome]
  exact ⟨(key, v), List.mem_reverse.mpr h, beq_iff_eq.mpr hway⟩

/-- Entries whose keys are way numbers go into a table one after another. -/
theorem foldlM_addEntry (hkeys : ∀ e ∈ entries, (wayOfKey? e.1).isSome) (t : Table) :
    ∃ t', entries.foldlM addEntry t = .ok t' ∧
      ∀ way, t'[way]? = ((lastOf way entries).map popularityOf).or t[way]? := by
  induction entries generalizing t with
  | nil => exact ⟨t, rfl, fun way => rfl⟩
  | cons e rest ih =>
    obtain ⟨written, hwritten⟩ := Option.isSome_iff_exists.mp (hkeys e List.mem_cons_self)
    obtain ⟨t', hrest, hlookup⟩ := ih (fun e he => hkeys e (List.mem_cons_of_mem _ he))
      (t.insert written (popularityOf e.2))
    have hadd : addEntry t e = .ok (t.insert written (popularityOf e.2)) := by
      rw [addEntry, hwritten]
    refine ⟨t', by rw [List.foldlM_cons, hadd]; exact hrest, fun way => ?_⟩
    rw [hlookup, lastOf_cons, hwritten, Option.map_or, Option.or_assoc,
      Std.TreeMap.getElem?_insert]
    congr 1
    by_cases hsame : written = way
    · subst hsame
      simp
    · have hne : compare written way ≠ .eq := fun h => hsame (Std.LawfulEqCmp.eq_of_compare h)
      simp [hsame, hne]

theorem exists_ofEntries (hkeys : ∀ e ∈ entries, (wayOfKey? e.1).isSome) :
    ∃ t, ofEntries entries = .ok t := by
  obtain ⟨t, ht, -⟩ := foldlM_addEntry hkeys ∅
  exact ⟨t, ht⟩

/-- A table has for each way the popularity of the last entry for it. -/
theorem getElem?_ofEntries (hkeys : ∀ e ∈ entries, (wayOfKey? e.1).isSome)
    (h : ofEntries entries = .ok t) (way : WayId) :
    t[way]? = (lastOf way entries).map popularityOf := by
  obtain ⟨t', ht', hlookup⟩ := foldlM_addEntry hkeys ∅
  obtain rfl : t' = t := Except.ok.inj (ht'.symm.trans h)
  rw [hlookup, Std.TreeMap.getElem?_emptyc, Option.or_none]

/-! ## Orders of visiting -/

/-- The entries are those of the object with these fields, each key once, in some order. -/
structure Enumerates (fields entries : List (String × Value)) : Prop where
  distinct : (entries.map Prod.fst).Nodup
  mem_iff : ∀ key v, (key, v) ∈ entries ↔ (Value.object fields).field? key = some v

/-- The keys of one way carry the same popularity. -/
def Unambiguous (fields : List (String × Value)) : Prop :=
  ∀ key v key' v', (Value.object fields).field? key = some v →
    (Value.object fields).field? key' = some v' → wayOfKey? key = wayOfKey? key' →
      popularityOf v = popularityOf v'

theorem field?_cons (f : String × Value) : (Value.object (f :: fields)).field? key =
    ((Value.object fields).field? key).or (if f.1 = key then some f.2 else none) := by
  simp only [Value.field?, List.reverse_cons, List.find?_append, Option.map_or,
    List.find?_singleton]
  congr 1
  simp only [beq_iff_eq]
  split <;> rfl

theorem field?_eq_none_iff :
    (Value.object fields).field? key = none ↔ ∀ f ∈ fields, f.1 ≠ key := by
  simp [Value.field?]

theorem mem_of_field? (h : (Value.object fields).field? key = some v) : (key, v) ∈ fields := by
  obtain ⟨⟨written, w⟩, hfind, rfl⟩ := Option.map_eq_some_iff.mp h
  have hkey := List.find?_some hfind
  obtain rfl : written = key := beq_iff_eq.mp hkey
  exact List.mem_reverse.mp (List.mem_of_find?_eq_some hfind)

/-- The last field of each key, in the order of the document. -/
def lasts : List (String × Value) → List (String × Value)
  | [] => []
  | f :: rest => if rest.any (·.1 == f.1) then lasts rest else f :: lasts rest

theorem lasts_cons_of_last {f : String × Value} (h : ∀ later ∈ fields, later.1 ≠ f.1) :
    lasts (f :: fields) = f :: lasts fields := by
  rw [lasts, if_neg]
  rw [List.any_eq_true]
  rintro ⟨later, hmem, hsame⟩
  exact h later hmem (beq_iff_eq.mp hsame)

/-- A field is dropped when its key occurs again, and is kept otherwise. -/
theorem lasts_cons (f : String × Value) (fields : List (String × Value)) :
    (∃ later ∈ fields, later.1 = f.1) ∧ lasts (f :: fields) = lasts fields ∨
      (∀ later ∈ fields, later.1 ≠ f.1) ∧ lasts (f :: fields) = f :: lasts fields := by
  by_cases hlater : ∃ later ∈ fields, later.1 = f.1
  · refine .inl ⟨hlater, ?_⟩
    rw [lasts, if_pos]
    simpa using hlater
  · have hlast : ∀ later ∈ fields, later.1 ≠ f.1 := fun later hmem hsame =>
      hlater ⟨later, hmem, hsame⟩
    exact .inr ⟨hlast, lasts_cons_of_last hlast⟩

theorem mem_lasts_iff : (key, v) ∈ lasts fields ↔ (Value.object fields).field? key = some v := by
  induction fields with
  | nil => simp [lasts, Value.field?]
  | cons f rest ih =>
    rw [field?_cons]
    obtain ⟨⟨later, hmem, hsame⟩, hdropped⟩ | ⟨hlast, hkept⟩ := lasts_cons f rest
    · rw [hdropped, ih]
      cases hrest : (Value.object rest).field? key with
      | some w => simp
      | none =>
        have hne : f.1 ≠ key := hsame ▸ field?_eq_none_iff.mp hrest later hmem
        simp [hne]
    · rw [hkept, List.mem_cons, ih]
      by_cases hkey : f.1 = key
      · subst hkey
        rw [field?_eq_none_iff.mpr hlast]
        simp [Prod.ext_iff, eq_comm]
      · have hne : (key, v) ≠ f := fun h => hkey (h ▸ rfl)
        simp [hkey, hne]

theorem enumerates_lasts (fields : List (String × Value)) : Enumerates fields (lasts fields) := by
  refine ⟨?_, fun key v => mem_lasts_iff⟩
  induction fields with
  | nil => exact List.nodup_nil
  | cons f rest ih =>
    obtain ⟨-, hdropped⟩ | ⟨hlast, hkept⟩ := lasts_cons f rest
    · rwa [hdropped]
    · rw [hkept, List.map_cons, List.nodup_cons]
      refine ⟨fun hmem => ?_, ih⟩
      obtain ⟨⟨written, w⟩, hmem, hsame⟩ := List.mem_map.mp hmem
      exact hlast _ (mem_of_field? (mem_lasts_iff.mp hmem)) hsame

/-- Where no key occurs twice, the fields are visited in any order. -/
theorem enumerates_of_perm (hdistinct : (fields.map Prod.fst).Nodup) (hperm : order.Perm fields) :
    Enumerates fields order := by
  have hlasts : lasts fields = fields := by
    clear hperm
    induction fields with
    | nil => rfl
    | cons f rest ih =>
      obtain ⟨hfirst, hrest⟩ := List.nodup_cons.mp hdistinct
      rw [lasts_cons_of_last fun later hmem hsame => hfirst (hsame ▸ List.mem_map_of_mem hmem),
        ih hrest]
  refine ⟨(hperm.map Prod.fst).nodup_iff.mpr hdistinct, fun key v => ?_⟩
  rw [hperm.mem_iff, ← mem_lasts_iff, hlasts]

/-- Later fields with a key stand in for the earlier ones. -/
theorem lastOf_lasts (way : WayId) : lastOf way (lasts fields) = lastOf way fields := by
  induction fields with
  | nil => rfl
  | cons f rest ih =>
    obtain ⟨⟨⟨written, w⟩, hmem, hsame⟩, hdropped⟩ | ⟨-, hkept⟩ := lasts_cons f rest
    · obtain rfl : written = f.1 := hsame
      rw [hdropped, ih, lastOf_cons]
      by_cases hway : wayOfKey? f.1 = some way
      · obtain ⟨w', hw'⟩ := lastOf_of_mem hmem hway
        rw [hw', Option.some_or]
      · rw [if_neg hway, Option.or_none]
    · rw [hkept, lastOf_cons, lastOf_cons, ih]

/-- Any key of an object may be the last one that is visited. -/
theorem enumerates_moveLast (h : (Value.object fields).field? key = some v) :
    Enumerates fields ((lasts fields).filter (·.1 != key) ++ [(key, v)]) := by
  obtain ⟨hdistinct, hmem⟩ := enumerates_lasts fields
  constructor
  · rw [List.map_append, List.nodup_append]
    refine ⟨hdistinct.sublist (List.filter_sublist.map _), by simp, ?_⟩
    intro written hwritten last hlast
    obtain ⟨e, he, rfl⟩ := List.mem_map.mp hwritten
    obtain rfl : last = key := by simpa using hlast
    simpa using (List.mem_filter.mp he).2
  · intro written w
    rw [List.mem_append, List.mem_filter, hmem]
    by_cases hkey : written = key
    · subst hkey
      simp [h, eq_comm]
    · simp [hkey]

variable {order' : List (String × Value)} {t' : Table}

theorem Enumerates.keys_parse (he : Enumerates fields order)
    (hkeys : ∀ f ∈ fields, (wayOfKey? f.1).isSome) : ∀ e ∈ order, (wayOfKey? e.1).isSome :=
  fun e hmem => hkeys _ (mem_of_field? ((he.mem_iff e.1 e.2).mp hmem))

/-- What a table has for a way comes from a key of the way, and every way with a key is there. -/
theorem Enumerates.lastOf_iff (he : Enumerates fields order) :
    ((∃ w, lastOf way order = some w) ↔
      ∃ key v, (Value.object fields).field? key = some v ∧ wayOfKey? key = some way) ∧
    ∀ w, lastOf way order = some w →
      ∃ key, (Value.object fields).field? key = some w ∧ wayOfKey? key = some way := by
  have hfrom : ∀ w, lastOf way order = some w →
      ∃ key, (Value.object fields).field? key = some w ∧ wayOfKey? key = some way := by
    intro w hw
    obtain ⟨key, hmem, hway⟩ := mem_of_lastOf hw
    exact ⟨key, (he.mem_iff key w).mp hmem, hway⟩
  refine ⟨⟨?_, ?_⟩, hfrom⟩
  · rintro ⟨w, hw⟩
    obtain ⟨key, hfield, hway⟩ := hfrom w hw
    exact ⟨key, w, hfield, hway⟩
  · rintro ⟨key, v, hfield, hway⟩
    exact lastOf_of_mem ((he.mem_iff key v).mpr hfield) hway

theorem natBelow?_of_wayOfKey? (h : wayOfKey? key = some way) :
    Decimal.natBelow? UInt64.size key.toList = some way.toNat := by
  obtain ⟨n, hn, rfl⟩ := Option.map_eq_some_iff.mp h
  have hlt : n < UInt64.size := of_decide_eq_true (Option.filter_eq_some_iff.mp hn).2
  rw [hn]
  exact congrArg some (UInt64.toNat_ofNat_of_lt hlt).symm

/-- Objects whose keys have no plus signs and no zeros in front are unambiguous. -/
theorem unambiguous_of_plain (hkeys : ∀ f ∈ fields, (wayOfKey? f.1).isSome)
    (hplain : ∀ f ∈ fields, Decimal.Plain f.1.toList) : Unambiguous fields := by
  intro key v key' v' hfield hfield' hways
  obtain ⟨way, hway⟩ := Option.isSome_iff_exists.mp (hkeys _ (mem_of_field? hfield))
  have hdigits := (hplain _ (mem_of_field? hfield)).eq_toDigits (natBelow?_of_wayOfKey? hway)
  have hdigits' := (hplain _ (mem_of_field? hfield')).eq_toDigits
    (natBelow?_of_wayOfKey? (hways ▸ hway))
  have hsame : key = key' := String.toList_inj.mp (hdigits.trans hdigits'.symm)
  rw [hsame, hfield'] at hfield
  rw [Option.some_inj.mp hfield]

/-- Orders of an unambiguous object give the same popularities. -/
theorem Unambiguous.lookups_eq (hu : Unambiguous fields) (he : Enumerates fields order)
    (he' : Enumerates fields order') (way : WayId) :
    (lastOf way order).map popularityOf = (lastOf way order').map popularityOf := by
  cases hlast : lastOf way order with
  | none =>
    cases hlast' : lastOf way order' with
    | none => rfl
    | some w' =>
      obtain ⟨w, hw⟩ := he.lastOf_iff.1.mpr (he'.lastOf_iff.1.mp ⟨w', hlast'⟩)
      rw [hw] at hlast
      cases hlast
  | some w =>
    obtain ⟨w', hlast'⟩ := he'.lastOf_iff.1.mpr (he.lastOf_iff.1.mp ⟨w, hlast⟩)
    obtain ⟨key, hfield, hway⟩ := he.lastOf_iff.2 w hlast
    obtain ⟨key', hfield', hway'⟩ := he'.lastOf_iff.2 w' hlast'
    rw [hlast', Option.map_some, Option.map_some,
      hu key w key' w' hfield hfield' (hway.trans hway'.symm)]

/-- Visited in any order, the entries of an object make the same table just when the keys of one
way carry the same popularity. -/
theorem equiv_iff_unambiguous (hkeys : ∀ f ∈ fields, (wayOfKey? f.1).isSome) :
    (∀ order order' t t', Enumerates fields order → Enumerates fields order' →
      ofEntries order = .ok t → ofEntries order' = .ok t' → t.Equiv t') ↔ Unambiguous fields := by
  constructor
  · intro hsame key v key' v' hfield hfield' hways
    obtain ⟨way, hway⟩ := Option.isSome_iff_exists.mp (hkeys _ (mem_of_field? hfield))
    have he := enumerates_moveLast hfield
    have he' := enumerates_moveLast hfield'
    obtain ⟨t, ht⟩ := exists_ofEntries (he.keys_parse hkeys)
    obtain ⟨t', ht'⟩ := exists_ofEntries (he'.keys_parse hkeys)
    have hequal := (hsame _ _ t t' he he' ht ht').getElem?_eq (k := way)
    rw [getElem?_ofEntries (he.keys_parse hkeys) ht,
      getElem?_ofEntries (he'.keys_parse hkeys) ht', lastOf_append_singleton _ hway,
      lastOf_append_singleton _ (hways ▸ hway)] at hequal
    exact Option.some_inj.mp hequal
  · intro hu order order' t t' he he' ht ht'
    refine .of_forall_constGet?_eq fun way => ?_
    rw [getElem?_ofEntries (he.keys_parse hkeys) ht,
      getElem?_ofEntries (he'.keys_parse hkeys) ht']
    exact hu.lookups_eq he he' way

/-- The order of the document is one of the orders, but for the fields that a later one with the
same key stands in for. -/
theorem equiv_document (ht : ofEntries (lasts fields) = .ok t) (ht' : ofEntries fields = .ok t')
    (hkeys : ∀ f ∈ fields, (wayOfKey? f.1).isSome) : t.Equiv t' := by
  refine .of_forall_constGet?_eq fun way => ?_
  rw [getElem?_ofEntries ((enumerates_lasts fields).keys_parse hkeys) ht,
    getElem?_ofEntries hkeys ht', lastOf_lasts]

/-- The table of a document whose entries are visited as `visit` arranges them. -/
def ofBytesVisiting (visit : List (String × Value) → List (String × Value)) (bytes : Bytes) :
    Except TableFault Table := do
  match ← (Value.ofBytes bytes).mapError .json with
  | .object fields => ofEntries (visit fields)
  | _ => throw (.json (.wrongType "an object"))

def loadVisiting (visit : List (String × Value) → List (String × Value)) (d : Disk)
    (path : String) : Except Failure Table := do
  let bytes ← (d.readPlain path).mapError (.io path)
  (ofBytesVisiting visit bytes).mapError (.malformedTable path)

theorem load_eq (d : Disk) (path : String) : load d path = loadVisiting id d path :=
  rfl

theorem loadVisiting_eq {visit : List (String × Value) → List (String × Value)} {d : Disk}
    {path : String} {bytes : Bytes} (hread : d.readPlain path = .ok bytes)
    (hobject : Value.ofBytes bytes = .ok (.object fields)) :
    loadVisiting visit d path = (ofEntries (visit fields)).mapError (.malformedTable path) := by
  simp only [loadVisiting, hread, ofBytesVisiting, hobject, Except.mapError, bind, Except.bind]

end Way.Table

namespace Build

open Way.Table

variable {fields : List (String × Json.Value)} {edges : Way.EdgeMap} {table table' : Way.Table}
  {visit : List (String × Json.Value) → List (String × Json.Value)} {d : Disk} {store : Store}
  {path file : String} {network : Extent} {bytes : Bytes}

/-! ## Builds -/

/-- Edges are joined to a table by what it has for their ways. -/
theorem Source.joinWays_congr (h : table.Equiv table') (edges : Way.EdgeMap) (store : Store) :
    Source.joinWays edges table store = Source.joinWays edges table' store := by
  have hpopularity : ∀ e,
      Source.popularityOf edges table e = Source.popularityOf edges table' e := by
    intro e
    simp only [Source.popularityOf]
    split
    · rfl
    · exact h.getD_eq
  simp only [Source.joinWays, Source.joinEdge, hpopularity]

/-- Fills a store from a table whose entries are visited as `visit` arranges them. -/
def fillVisiting (visit : List (String × Json.Value) → List (String × Json.Value)) (file : String)
    (edges : Way.EdgeMap) (d : Disk) (store : Store) :
    List Event × Except Halt (Store × Summary) :=
  match loadVisiting visit d file with
  | .error f => ([], .error (.failed f))
  | .ok table =>
    match Source.joinWays edges table store with
    | .error m => ([], .error (.misused m))
    | .ok (store, summary) => ([.finished summary], .ok (store, summary))

/-- Builds an index whose store is filled in this way. -/
def prepareBy (fill : Disk → Store → List Event × Except Halt (Store × Summary)) (d : Disk)
    (path : String) (network : Extent) : Outcome :=
  match Store.create d path network with
  | (d, .error f) => ⟨d, [], .error (.failed f)⟩
  | (d, .ok store) =>
    match fill d store with
    | (events, .error (.failed f)) => ⟨discard d path, events, .error (.failed f)⟩
    | (events, .error (.misused m)) => ⟨d, events, .error (.misused m)⟩
    | (events, .ok (store, summary)) =>
      match store.flush d with
      | (d, .error f) => ⟨discard d path, events, .error (.failed f)⟩
      | (d, .ok ()) => ⟨d, events, .ok (store, summary)⟩

theorem prepare_eq_prepareBy (sched : Scheduling) (source : Option Source) :
    prepare sched d path network source =
      prepareBy (fun d store => fillFrom sched d store source) d path network :=
  rfl

/-- A store is filled alike in every order from an object without ambiguity. -/
theorem fillVisiting_eq (hread : d.readPlain file = .ok bytes)
    (hobject : Json.Value.ofBytes bytes = .ok (.object fields))
    (hkeys : ∀ f ∈ fields, (wayOfKey? f.1).isSome) (hu : Unambiguous fields)
    (he : Enumerates fields (visit fields)) :
    fillVisiting visit file edges d store = Source.fillFromWays d file edges store := by
  obtain ⟨t, ht⟩ := exists_ofEntries (he.keys_parse hkeys)
  obtain ⟨t', ht'⟩ := exists_ofEntries hkeys
  obtain ⟨s, hs⟩ := exists_ofEntries ((enumerates_lasts fields).keys_parse hkeys)
  have hsame : t.Equiv t' :=
    ((equiv_iff_unambiguous hkeys).mpr hu _ _ _ _ he (enumerates_lasts fields) ht hs).trans
      (equiv_document hs ht' hkeys)
  have hload : loadVisiting visit d file = .ok t := by
    rw [loadVisiting_eq hread hobject, ht]
    rfl
  have hload' : Way.Table.load d file = .ok t' := by
    rw [load_eq, loadVisiting_eq hread hobject, id, ht']
    rfl
  have hjoin := Source.joinWays_congr hsame edges store
  cases hjoined : Source.joinWays edges t' store with
  | error m => simp only [fillVisiting, Source.fillFromWays, hload, hload', hjoin, hjoined]
  | ok joined => simp only [fillVisiting, Source.fillFromWays, hload, hload', hjoin, hjoined]

/-- Of an object whose keys are way numbers a table is made in every order of visiting: it has the
ways of the keys, and for each of them the popularity that one of its keys carries. All orders make
the same table just when the keys of one way carry the same popularity, as they do when the ways
are written plainly, and then every build from the file leaves the same disk, the same events and
the same result. The order of the document is one of the orders. A number carries itself, cut to
what a counter can hold and rounded down, and what is not a number carries nothing. -/
theorem visiting_order_immaterial_iff (hkeys : ∀ f ∈ fields, (wayOfKey? f.1).isSome) :
    (∀ order, Enumerates fields order → ∃ t, ofEntries order = .ok t ∧
      (∀ way, (∃ n, t[way]? = some n) ↔
        ∃ key v, (Json.Value.object fields).field? key = some v ∧ wayOfKey? key = some way) ∧
      ∀ way n, t[way]? = some n → ∃ key v, (Json.Value.object fields).field? key = some v ∧
        wayOfKey? key = some way ∧ n = popularityOf v) ∧
    ((∀ order order' t t', Enumerates fields order → Enumerates fields order' →
      ofEntries order = .ok t → ofEntries order' = .ok t' → t.Equiv t') ↔ Unambiguous fields) ∧
    ((∀ f ∈ fields, Decimal.Plain f.1.toList) → Unambiguous fields) ∧
    (∃ order, Enumerates fields order ∧ ∀ t t', ofEntries order = .ok t →
      ofEntries fields = .ok t' → t.Equiv t') ∧
    (∀ v, (∀ n, v = .number n → IsFloor (popularityOf v).toNat (clamp n.exact)) ∧
      ((∀ n, v ≠ .number n) → popularityOf v = 0)) ∧
    (Unambiguous fields → ∀ visit, Enumerates fields (visit fields) →
      ∀ sched d path network file edges,
        (∀ d₁ store, Store.create d path network = (d₁, .ok store) →
          ∃ bytes, d₁.readPlain file = .ok bytes ∧
            Json.Value.ofBytes bytes = .ok (.object fields)) →
        prepareBy (fillVisiting visit file edges) d path network =
          prepare sched d path network (some (.ways file edges))) := by
  refine ⟨fun order he => ?_, equiv_iff_unambiguous hkeys, unambiguous_of_plain hkeys,
    ⟨_, enumerates_lasts fields, fun t t' ht ht' => equiv_document ht ht' hkeys⟩,
    fun v => ⟨fun n hn => hn ▸ isFloor_popularityOf n, fun hnone => ?_⟩,
    fun hu visit he sched d path network file edges hfile => ?_⟩
  · obtain ⟨t, ht⟩ := exists_ofEntries (he.keys_parse hkeys)
    have hlookup := getElem?_ofEntries (he.keys_parse hkeys) ht
    refine ⟨t, ht, fun way => ?_, fun way n hn => ?_⟩
    · rw [← he.lastOf_iff.1, hlookup]
      simp
    · rw [hlookup] at hn
      obtain ⟨w, hw, rfl⟩ := Option.map_eq_some_iff.mp hn
      obtain ⟨key, hfield, hway⟩ := he.lastOf_iff.2 w hw
      exact ⟨key, w, hfield, hway, rfl⟩
  · cases v with
    | number n => exact absurd rfl (hnone n)
    | _ => rfl
  · rw [prepare_eq_prepareBy]
    unfold prepareBy
    rcases hcreate : Store.create d path network with ⟨d₁, f | store⟩
    · rfl
    · obtain ⟨bytes, hread, hobject⟩ := hfile d₁ store hcreate
      have hfill : fillVisiting visit file edges d₁ store =
          fillFrom sched d₁ store (some (.ways file edges)) :=
        fillVisiting_eq hread hobject hkeys hu he
      simp only [hfill]

/-- A way whose two keys carry different numbers that are rounded down to one popularity. -/
def twoSpellings : List (String × Json.Value) :=
  [("5", .number (.integer 1)), ("05", .number (.real 1.5))]

theorem visiting_two_spellings : ∃ t t', ofEntries twoSpellings = .ok t ∧
    ofEntries twoSpellings.reverse = .ok t' ∧ t.Equiv t' := by
  have hkeys : ∀ f ∈ twoSpellings, (wayOfKey? f.1).isSome := by decide +kernel
  have hdistinct : (twoSpellings.map Prod.fst).Nodup := by decide
  have hu : Unambiguous twoSpellings := by
    have hone : ∀ key v, (Json.Value.object twoSpellings).field? key = some v →
        popularityOf v = 1 := by
      intro key v h
      rcases List.mem_cons.mp (mem_of_field? h) with h | h
      · cases h
        decide +kernel
      · cases List.mem_singleton.mp h
        decide +kernel
    intro key v key' v' h h' _
    rw [hone key v h, hone key' v' h']
  obtain ⟨hall, hsame, -⟩ := visiting_order_immaterial_iff hkeys
  obtain ⟨t, ht, -⟩ := hall _ (enumerates_of_perm hdistinct (.refl _))
  obtain ⟨t', ht', -⟩ := hall _ (enumerates_of_perm hdistinct (List.reverse_perm _))
  exact ⟨t, t', ht, ht', hsame.mpr hu _ _ t t' (enumerates_of_perm hdistinct (.refl _))
    (enumerates_of_perm hdistinct (List.reverse_perm _)) ht ht'⟩

/-- A way whose two keys carry different popularities. -/
def twoPopularities : List (String × Json.Value) :=
  [("5", .number (.integer 1)), ("05", .number (.integer 2))]

/-- Both orders of the two entries may be visited, and they give the way different popularities and
an edge on it different counters. -/
theorem visiting_order_matters :
    (∀ f ∈ twoPopularities, (wayOfKey? f.1).isSome) ∧
      Enumerates twoPopularities twoPopularities ∧
      Enumerates twoPopularities twoPopularities.reverse ∧
      ∃ t t', ofEntries twoPopularities = .ok t ∧ ofEntries twoPopularities.reverse = .ok t' ∧
        t[(5 : Way.WayId)]? = some 2 ∧ t'[(5 : Way.WayId)]? = some 1 ∧
        (Source.joinWays (.ofPairs [(0, 5)]) t ⟨"index", 0, #[0], false⟩).map
          (Index.image ·.1.records) = .ok (Index.image #[2]) ∧
        (Source.joinWays (.ofPairs [(0, 5)]) t' ⟨"index", 0, #[0], false⟩).map
          (Index.image ·.1.records) = .ok (Index.image #[1]) := by
  have hdistinct : (twoPopularities.map Prod.fst).Nodup := by decide
  exact ⟨by decide +kernel, enumerates_of_perm hdistinct (.refl _),
    enumerates_of_perm hdistinct (List.reverse_perm _), _, _, rfl, rfl, rfl, rfl, rfl, rfl⟩

end Build

end Ridership
