import Mathlib.Algebra.BigOperators.Group.Finset.Piecewise
import Mathlib.Algebra.Order.BigOperators.Group.Finset
import Ridership.Proofs.Build.Halting
import Ridership.Proofs.Build.Joining
import Ridership.Proofs.Build.TrackBuild

/-!
# The accounts of a build

Whichever source a store was filled from, the increments of the summary are the sum of what the
source gives to the edges, and every counter holds what its edge was given, as far as counters go.
So the counters add up to the increments unless some edge was given more than a counter holds, and
then they add up to less.
-/

namespace Ridership

/-- The sum of an amount over the first `n` edges. -/
def sumOver (n : Nat) (amount : EdgeId → Nat) : Nat :=
  ∑ e ∈ Finset.range n, amount (UInt32.ofNat e)

section

variable {n : Nat} {amount : EdgeId → Nat}

theorem sumOver_zero (n : Nat) : sumOver n (fun _ => 0) = 0 :=
  Finset.sum_const_zero

theorem sumOver_add (n : Nat) (amount other : EdgeId → Nat) :
    sumOver n (fun e => amount e + other e) = sumOver n amount + sumOver n other :=
  Finset.sum_add_distrib

theorem toNat_ofNat_of_mem_range (hn : n ≤ UInt32.size) {e : Nat} (he : e ∈ Finset.range n) :
    (UInt32.ofNat e).toNat = e :=
  UInt32.toNat_ofNat_of_lt (Nat.lt_of_lt_of_le (Finset.mem_range.mp he) hn)

theorem sumOver_single (hn : n ≤ UInt32.size) {e : EdgeId} (he : e.toNat < n) (k : Nat) :
    sumOver n (fun e' => if e = e' then k else 0) = k := by
  have hsame : ∀ e' ∈ Finset.range n, e = UInt32.ofNat e' ↔ e.toNat = e' := by
    intro e' he'
    rw [← UInt32.toNat_inj, toNat_ofNat_of_mem_range hn he']
  calc sumOver n (fun e' => if e = e' then k else 0)
      = ∑ e' ∈ Finset.range n, if e.toNat = e' then k else 0 :=
        Finset.sum_congr rfl fun e' he' => if_congr (hsame e' he') rfl rfl
    _ = k := by rw [Finset.sum_ite_eq, if_pos (Finset.mem_range.mpr he)]

theorem sumOver_clipped_le (n : Nat) (amount : EdgeId → Nat) :
    sumOver n (fun e => min maxCount (amount e)) ≤ sumOver n amount :=
  Finset.sum_le_sum fun _ _ => Nat.min_le_right _ _

/-- The sum of clipped amounts is that of the amounts only if none was clipped. -/
theorem sumOver_clipped_eq_iff (hn : n ≤ UInt32.size) :
    sumOver n (fun e => min maxCount (amount e)) = sumOver n amount ↔
      ∀ e : EdgeId, e.toNat < n → amount e ≤ maxCount := by
  unfold sumOver
  rw [Finset.sum_eq_sum_iff_of_le fun _ _ => Nat.min_le_right _ _]
  constructor
  · intro h e he
    have hmin := h e.toNat (Finset.mem_range.mpr he)
    rw [UInt32.ofNat_toNat] at hmin
    exact min_eq_right_iff.mp hmin
  · intro h e he
    refine Nat.min_eq_right (h _ ?_)
    rw [toNat_ofNat_of_mem_range hn he]
    exact Finset.mem_range.mp he

end

namespace Store

variable {s : Store} {total : EdgeId → Nat} {counts : List (EdgeId × UInt32)} {n : Nat}

/-- The counts of a tally are given to edges of the store and to no others. -/
theorem sumOver_added (hn : n ≤ UInt32.size) (hin : ∀ c ∈ counts, c.1.toNat < n) :
    sumOver n (added counts) = (counts.map fun c => c.2.toNat).sum := by
  induction counts with
  | nil => exact sumOver_zero n
  | cons c rest ih =>
    have hsplit : added (c :: rest) =
        fun e => (if c.1 = e then c.2.toNat else 0) + added rest e :=
      funext fun e => added_cons c rest e
    rw [hsplit, sumOver_add, sumOver_single hn (hin c List.mem_cons_self),
      ih fun c' hc' => hin c' (List.mem_cons_of_mem _ hc'), List.map_cons, List.sum_cons]

/-- The counters of a store add up to the totals, as far as counters go. -/
theorem Holds.sum_records (hs : s.Holds total) (hmax : s.records.size ≤ UInt32.size) :
    (s.records.toList.map UInt32.toNat).sum =
      sumOver s.records.size fun e => min maxCount (total e) := by
  have hcounters : s.records.toList.map UInt32.toNat =
      (List.range s.records.size).map fun e => min maxCount (total (UInt32.ofNat e)) := by
    refine List.ext_getElem (by simp) fun i hi _ => ?_
    have hlt : i < s.records.size := by simpa using hi
    have hid : (UInt32.ofNat i).toNat = i :=
      UInt32.toNat_ofNat_of_lt (Nat.lt_of_lt_of_le hlt hmax)
    have hcounter := hs (UInt32.ofNat i) (by rwa [hid])
    simp only [hid] at hcounter
    simpa using hcounter
  rw [hcounters]
  rfl

end Store

namespace Build

variable {policy : FailurePolicy} {total : Nat} {m m' : Merging} {r : Result}
  {results : List Result} {events : List Event} {store filled : Store} {summary : Summary}
  {amount : EdgeId → Nat} {n : Nat}

/-- A store and a number of increments account for what was given to each edge. -/
structure Accounts (store : Store) (increments : Nat) (amount : EdgeId → Nat) : Prop where
  holds : store.Holds amount
  increments_eq : increments = sumOver store.records.size amount

theorem Accounts.sum_le (h : Accounts store n amount) (hmax : store.records.size ≤ UInt32.size) :
    (store.records.toList.map UInt32.toNat).sum ≤ n := by
  rw [h.holds.sum_records hmax, h.increments_eq]
  exact sumOver_clipped_le _ _

theorem Accounts.sum_eq_iff (h : Accounts store n amount)
    (hmax : store.records.size ≤ UInt32.size) :
    (store.records.toList.map UInt32.toNat).sum = n ↔
      ∀ e : EdgeId, e.toNat < store.records.size → amount e ≤ maxCount := by
  rw [h.holds.sum_records hmax, h.increments_eq]
  exact sumOver_clipped_eq_iff hmax

theorem accounts_fresh (h : store.Fresh n) : Accounts store 0 fun _ => 0 :=
  ⟨Store.holds_zeros h.zeros, (sumOver_zero _).symm⟩

theorem riddenCount_fresh (h : store.Fresh n) : store.riddenCount = 0 := by
  simp [Store.riddenCount, h.zeros]

/-! ## Merging -/

theorem sumOver_contribution (hn : n ≤ UInt32.size) {path : String} {counts : Counts}
    (hin : InRange n (path, .ok counts)) :
    sumOver n (fun e => contribution e (path, .ok counts)) =
      (counts.map fun c => c.2.toNat).sum :=
  Store.sumOver_added hn (hin counts rfl)

namespace Merging

/-- A result that is taken in goes into the accounts. -/
theorem step_accounts (hw : m.store.readOnly = false) (hmax : m.store.records.size ≤ UInt32.size)
    (hin : InRange m.store.records.size r) (ha : Accounts m.store m.increments amount)
    (h : m.step policy total r = (events, .ok m')) :
    Accounts m'.store m'.increments fun e => contribution e r + amount e := by
  obtain ⟨events', m₁, hstep, hholds⟩ := step_holds total hw hin (tolerated_of_step h) ha.holds
  rw [h] at hstep
  cases hstep
  refine ⟨hholds, ?_⟩
  -- The counters are settled. The increments grow by the counts of the result, and these are what
  -- it adds over all edges, since none of them is out of range.
  rw [(recounts_step h).size_eq, sumOver_add, ← ha.increments_eq]
  rcases step_eq_ok h with ⟨path, counts, store, sum, rfl, hmerge, rfl, -⟩ |
    ⟨path, failure, rfl, -, rfl, -⟩
  · rw [sumOver_contribution hmax hin, ← Store.merge_sum hmerge]
    exact Nat.add_comm _ _
  · have hnothing : sumOver m.store.records.size
        (fun e => contribution e (path, .error failure)) = 0 := sumOver_zero _
    rw [hnothing, Nat.zero_add]

theorem run_accounts (hw : m.store.readOnly = false)
    (hmax : m.store.records.size ≤ UInt32.size)
    (hin : ∀ r ∈ results, InRange m.store.records.size r)
    (ha : Accounts m.store m.increments amount)
    (h : run policy total m results = (events, .ok m')) :
    Accounts m'.store m'.increments fun e => contributions results e + amount e := by
  induction results generalizing m amount events with
  | nil =>
    cases h
    simpa [contributions] using ha
  | cons r rest ih =>
    obtain ⟨_, m₁, _, hstep, hrest, -⟩ := run_cons_eq_ok h
    have hr := recounts_step hstep
    have hlater := ih (hr.readOnly_eq.trans hw) (by rwa [hr.size_eq])
      (fun r hmem => by rw [hr.size_eq]; exact hin r (List.mem_cons_of_mem _ hmem))
      (step_accounts hw hmax (hin r List.mem_cons_self) ha hstep) hrest
    simpa [contributions, Nat.add_assoc, Nat.add_left_comm] using hlater

end Merging

theorem mergeAll_accounts (hfresh : store.Fresh n) (hin : ∀ r ∈ results, InRange n r)
    (h : mergeAll policy store results = (events, .ok (filled, summary))) :
    Accounts filled summary.increments (contributions results) ∧
      summary.ridden = filled.riddenCount := by
  obtain ⟨_, m, hrun, rfl, rfl, -⟩ := mergeAll_eq_ok h
  rw [← hfresh.size_eq] at hin
  have hmax : store.records.size ≤ UInt32.size := hfresh.size_eq ▸ hfresh.bounded
  have haccounts := Merging.run_accounts (m := { store }) hfresh.writable hmax hin
    (accounts_fresh hfresh) hrun
  exact ⟨haccounts, rfl⟩

/-! ## Sources -/

namespace Source

variable {edges : Way.EdgeMap} {table : Way.Table}

/-- What a source gives to each edge of a store of `n` edges. -/
def given (d : Disk) (n : Nat) : Source → EdgeId → Nat
  | .tracks folder matcher _, e =>
    match Track.files d folder with
    | .ok files => (files.map (talliedIn d matcher e)).sum
    | .error _ => 0
  | .ways file edges, e =>
    match Way.Table.load d file with
    | .ok table => if e.toNat < n % UInt32.size then (popularityOf edges table e).toNat else 0
    | .error _ => 0

/-- Tracks are matched to edges below this number only. -/
def Within (n : Nat) : Source → Prop
  | .tracks _ matcher _ => ∀ p hit, matcher.locate p = some hit → hit.edge.toNat < n
  | .ways _ _ => True

/-- The edges below `k` have the popularity of their ways, and the others have nothing yet. -/
theorem toNat_joinedTo {k : Nat} {e : EdgeId} (he : e.toNat < (joinedTo edges table n k).length) :
    (joinedTo edges table n k)[e.toNat].toNat =
      if e.toNat < k then (popularityOf edges table e).toNat else 0 := by
  have hid : UInt32.ofNat e.toNat = e := UInt32.ofNat_toNat
  by_cases hlt : e.toNat < k
  · simp [joinedTo, hlt, hid]
  · simp [joinedTo, List.getElem_append, hlt]

theorem joinWays_accounts (hfresh : store.Fresh n)
    (h : joinWays edges table store = .ok (filled, summary)) :
    Accounts filled summary.increments (fun e =>
        if e.toNat < n % UInt32.size then (popularityOf edges table e).toNat else 0) ∧
      summary.ridden = filled.riddenCount := by
  rw [joinWays_eq hfresh] at h
  cases h
  have hmax : (joinedTo edges table n (n % UInt32.size)).length ≤ UInt32.size := by
    rw [length_joinedTo (Nat.mod_le n UInt32.size)]
    exact hfresh.bounded
  have hsmall : ∀ e : EdgeId,
      (if e.toNat < n % UInt32.size then (popularityOf edges table e).toNat else 0) ≤ maxCount := by
    intro e
    split
    · exact toNat_le_maxCount _
    · exact Nat.zero_le _
  have hholds : Store.Holds
      { store with records := (joinedTo edges table n (n % UInt32.size)).toArray }
      fun e => if e.toNat < n % UInt32.size then (popularityOf edges table e).toNat else 0 := by
    intro e he
    rw [Nat.min_eq_right (hsmall e)]
    exact toNat_joinedTo he
  refine ⟨⟨hholds, ?_⟩, rfl⟩
  calc ((joinedTo edges table n (n % UInt32.size)).map UInt32.toNat).sum
      = sumOver _ _ := hholds.sum_records hmax
    _ = sumOver _ _ := (sumOver_clipped_eq_iff hmax).mpr fun e _ => hsmall e

theorem fillFromTracks_accounts {sched : Scheduling} {d : Disk} {folder : String}
    {matcher : Snap.Matcher} (hsched : sched.Fair) (hfresh : store.Fresh n)
    (hwithin : Within n (.tracks folder matcher policy))
    (h : fillFromTracks sched d folder matcher policy store = (events, .ok (filled, summary))) :
    Accounts filled summary.increments (given d n (.tracks folder matcher policy)) ∧
      summary.ridden = filled.riddenCount := by
  simp only [fillFromTracks, hsched.workers] at h
  split at h
  · cases h
  · next files hfiles =>
    have hgiven : given d n (.tracks folder matcher policy) =
        contributions ((sched.order files).map (resultOf sched d matcher)) := by
      funext e
      simp only [given, hfiles, contributions_resultOf hsched]
    rw [hgiven]
    exact mergeAll_accounts hfresh (inRange_results hsched.visit hwithin _) h

theorem fillFromWays_accounts {d : Disk} {file : String} (hfresh : store.Fresh n)
    (h : fillFromWays d file edges store = (events, .ok (filled, summary))) :
    Accounts filled summary.increments (given d n (.ways file edges)) ∧
      summary.ridden = filled.riddenCount := by
  simp only [fillFromWays] at h
  split at h
  · cases h
  · next table htable =>
    split at h
    · cases h
    · next hjoin =>
      cases h
      have hgiven : given d n (.ways file edges) = fun e =>
          if e.toNat < n % UInt32.size then (popularityOf edges table e).toNat else 0 := by
        funext e
        simp only [given, htable]
      rw [hgiven]
      exact joinWays_accounts hfresh hjoin

end Source

/-- What each edge of a new store of `n` edges is given; without a source nothing is. -/
def given (d : Disk) (n : Nat) : Option Source → EdgeId → Nat
  | none, _ => 0
  | some source, e => source.given d n e

/-- A new store that was filled and the increments of its summary account for what the source gives
to the edges, and the summary has the number of counters that are not zero. -/
theorem fillFrom_accounts {sched : Scheduling} {d : Disk} {source : Option Source}
    (hsched : sched.Fair) (hfresh : store.Fresh n) (hwithin : ∀ s, source = some s → s.Within n)
    (h : fillFrom sched d store source = (events, .ok (filled, summary))) :
    Accounts filled summary.increments (given d n source) ∧
      summary.ridden = filled.riddenCount := by
  match source, h with
  | none, h =>
    cases h
    exact ⟨accounts_fresh hfresh, (riddenCount_fresh hfresh).symm⟩
  | some (.tracks folder matcher policy), h =>
    exact Source.fillFromTracks_accounts hsched hfresh (hwithin _ rfl) h
  | some (.ways file edges), h => exact Source.fillFromWays_accounts hfresh h

/-! ## Builds from ways -/

/-- A build from ways joins the table to the edges if the disk has room for the index. -/
theorem prepare_ways {sched : Scheduling} {d d₁ : Disk} {path file : String} {network : Extent}
    {edges : Way.EdgeMap} {table : Way.Table}
    (hcreate : Store.create d path network = (d₁, .ok store))
    (htable : Way.Table.load d₁ file = .ok table)
    (hd : d₁.Affords (Index.byteSize store.records.size + Index.headerSize) 2) :
    let records := Source.joinedTo edges table network.edgeCount (network.edgeCount % UInt32.size)
    (prepare sched d path network (some (.ways file edges))).result =
      .ok ({ store with records := records.toArray }, Source.summaryOf records) := by
  intro records
  have hfresh := Store.fresh_of_create hcreate
  have hfill : fillFrom sched d₁ store (some (.ways file edges)) =
      ([.finished (Source.summaryOf records)],
        .ok ({ store with records := records.toArray }, Source.summaryOf records)) :=
    Source.fillFromWays_of_joinWays htable (Source.joinWays_eq hfresh)
  have hcreated := Store.create_created d path network
  rw [hcreate] at hcreated
  obtain ⟨d₂, hflush⟩ : ∃ d₂, Store.flush { store with records := records.toArray } d₁ =
      (d₂, .ok ()) := by
    cases hcreated with
    | created _ made zeros =>
      obtain ⟨d₂, hflush, -⟩ := flush_filled made hd (by rwa [Array.size_replicate]) rfl
        (recounts_fillFrom hfill)
      exact ⟨d₂, hflush⟩
  simp only [prepare, hcreate, hfill, hflush]

/-- A table that gives way 5 the popularity 7. -/
def oneWay : Bytes :=
  bytesOf "\x7b\"5\": 7\x7d"

theorem load_oneWay {d : Disk} {path : String} (hread : d.read path = .ok oneWay) :
    Way.Table.load d path = .ok ((∅ : Way.Table).insert 5 7) := by
  have hbytes : d.readPlain path = .ok oneWay := Disk.readPlain_of_plain hread (by cbv)
  have hvalue : Json.Value.ofBytes oneWay = .ok (.object [("5", .number (.integer 7))]) := by cbv
  have hway : Way.Table.wayOfKey? "5" = some 5 := by decide
  have hpopularity : Way.Table.popularityOf (.number (.integer 7)) = 7 := by decide
  have hentries : Way.Table.ofEntries [("5", .number (.integer 7))] =
      .ok ((∅ : Way.Table).insert 5 7) := by
    simp only [Way.Table.ofEntries, List.foldlM, Way.Table.addEntry, hway, hpopularity]
    rfl
  simp only [Way.Table.load, hbytes, Way.Table.parse, Way.Table.ofBytes, hvalue, hentries,
    Except.mapError, bind, Except.bind]

end Build

end Ridership
