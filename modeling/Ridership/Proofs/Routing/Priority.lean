import Mathlib.Data.Rat.Cast.Order
import Mathlib.Tactic.Linarith
import Mathlib.Tactic.NormNum
import Mathlib.Tactic.Ring
import Mathlib.Tactic.SplitIfs
import Ridership.Routing.Cost

/-!
# How far priorities range, and what they depend on

Whatever its tags, the priority of a way is its base priority, times a factor for its difficulty and
one for caution, plus what it costs to ride in traffic. A cycle network takes off a share of the
product and nothing of the rest. In exact arithmetic this bounds all priorities, and the bounds are
reached. Eleven keys are read and no others, and two of them only for ways with traffic; that holds
of doubles as well.
-/

namespace Ridership.Routing

/-! ## Parts of a priority -/

/-- What a way costs off any network and out of traffic. -/
def calmPriority (t : Tags) : ℚ :=
  withCaution t (withDifficulty t (basePriority t))

/-- What it costs more to ride in traffic. -/
def surcharge (t : Tags) : ℚ :=
  withTraffic t 0

theorem withDifficulty_eq (t : Tags) (cost : ℚ) :
    withDifficulty t cost = cost * withDifficulty t 1 := by
  unfold withDifficulty
  split <;> simp only [one_mul, mul_one]

theorem withCaution_eq (t : Tags) (cost : ℚ) : withCaution t cost = cost * withCaution t 1 := by
  unfold withCaution
  split <;> simp only [one_mul, mul_one]

theorem withTraffic_eq (t : Tags) (cost : ℚ) : withTraffic t cost = cost + surcharge t := by
  unfold surcharge withTraffic
  split_ifs <;> ring

theorem calmPriority_eq (t : Tags) :
    calmPriority t = basePriority t * withDifficulty t 1 * withCaution t 1 := by
  rw [calmPriority, withCaution_eq, withDifficulty_eq]

/-- A cycle network keeps a share of the product and leaves the rest. -/
theorem priority_eq (t : Tags) (inNetwork : Bool) :
    priority t inNetwork = (if inNetwork then 0.65 else 1) * calmPriority t + surcharge t := by
  rw [priority, withTraffic_eq, withCaution_eq, withDifficulty_eq, calmPriority_eq, onNetwork]
  split <;> ring

/-! ## Bounds -/

theorem basePriority_bounds (t : Tags) :
    0.6 ≤ (basePriority t : ℚ) ∧ (basePriority t : ℚ) ≤ 2.5 := by
  unfold basePriority
  split_ifs <;> (try split) <;> norm_num

theorem withDifficulty_bounds (t : Tags) :
    1 ≤ (withDifficulty t 1 : ℚ) ∧ (withDifficulty t 1 : ℚ) ≤ 2.5 := by
  unfold withDifficulty
  split <;> norm_num

theorem withCaution_bounds (t : Tags) :
    1 ≤ (withCaution t 1 : ℚ) ∧ (withCaution t 1 : ℚ) ≤ 1.25 := by
  unfold withCaution
  split <;> norm_num

theorem surcharge_bounds (t : Tags) : 0 ≤ surcharge t ∧ surcharge t ≤ 0.1 := by
  unfold surcharge withTraffic
  split_ifs <;> norm_num

theorem calmPriority_bounds (t : Tags) : 0.6 ≤ calmPriority t ∧ calmPriority t ≤ 7.8125 := by
  obtain ⟨hbase_low, hbase_high⟩ := basePriority_bounds t
  obtain ⟨hdifficulty_low, hdifficulty_high⟩ := withDifficulty_bounds t
  obtain ⟨hcaution_low, hcaution_high⟩ := withCaution_bounds t
  have hbase : 0 ≤ (basePriority t : ℚ) := by linarith
  have hproduct : 0 ≤ (basePriority t : ℚ) * withDifficulty t 1 := mul_nonneg hbase (by linarith)
  rw [calmPriority_eq]
  constructor
  · calc (0.6 : ℚ)
        ≤ basePriority t := hbase_low
      _ ≤ basePriority t * withDifficulty t 1 := le_mul_of_one_le_right hbase hdifficulty_low
      _ ≤ basePriority t * withDifficulty t 1 * withCaution t 1 :=
        le_mul_of_one_le_right hproduct hcaution_low
  · have hhigh : (basePriority t : ℚ) * withDifficulty t 1 ≤ 2.5 * 2.5 :=
      mul_le_mul hbase_high hdifficulty_high (by linarith) (by norm_num)
    calc basePriority t * withDifficulty t 1 * withCaution t 1
        ≤ 2.5 * 2.5 * 1.25 := mul_le_mul hhigh hcaution_high (by linarith) (by norm_num)
      _ = 7.8125 := by norm_num

/-! ## Keys that are read -/

namespace Tags

/-- The keys that say what kind of way it is. -/
def kindKeys : List String :=
  ["highway", "bicycle", "cycleway", "cycleway:left", "cycleway:right", "cycleway:both",
    "tracktype", "mtb:scale", "RLIS:bicycle"]

/-- The keys that say how much traffic there is. -/
def trafficKeys : List String :=
  ["lanes", "oneway"]

def AgreeOn (keys : List String) (t t' : Tags) : Prop :=
  ∀ key ∈ keys, t.get? key = t'.get? key

variable {t t' : Tags} {keys : List String}

theorem AgreeOn.isAnyOf (h : AgreeOn keys t t') (key : String) (hkey : key ∈ keys)
    (values : List String) : t.isAnyOf key values = t'.isAnyOf key values := by
  rw [Tags.isAnyOf, h key hkey, Tags.isAnyOf]

theorem AgreeOn.isCyclePath (h : AgreeOn kindKeys t t') : t.isCyclePath = t'.isCyclePath := by
  have hhighway := h.isAnyOf "highway" (by decide)
  have hbicycle := h.isAnyOf "bicycle" (by decide)
  simp only [Tags.isCyclePath, hhighway, hbicycle]

theorem AgreeOn.hasCycleLane (h : AgreeOn kindKeys t t') : t.hasCycleLane = t'.hasCycleLane := by
  have hway := h.isAnyOf "cycleway" (by decide)
  have hleft := h.isAnyOf "cycleway:left" (by decide)
  have hright := h.isAnyOf "cycleway:right" (by decide)
  have hboth := h.isAnyOf "cycleway:both" (by decide)
  simp only [Tags.hasCycleLane, hway, hleft, hright, hboth]

theorem AgreeOn.oneWay (h : AgreeOn trafficKeys t t') : t.oneWay = t'.oneWay :=
  h.isAnyOf "oneway" (by decide) _

theorem AgreeOn.laneCount (h : AgreeOn trafficKeys t t') : t.laneCount = t'.laneCount := by
  rw [Tags.laneCount, h "lanes" (by decide), h.oneWay, Tags.laneCount]

end Tags

section

open Tags (AgreeOn kindKeys trafficKeys)

variable {α : Type} [OfScientific α] {t t' : Tags}

theorem basePriority_congr (h : AgreeOn kindKeys t t') :
    (basePriority t : α) = basePriority t' := by
  have hshared : t.hasSharedLane = t'.hasSharedLane :=
    h.isAnyOf "cycleway" (by decide) _
  have hhighway := h.isAnyOf "highway" (by decide)
  have hbicycle := h.isAnyOf "bicycle" (by decide)
  simp only [basePriority, h.isCyclePath, h.hasCycleLane, hshared, hhighway, hbicycle,
    h "tracktype" (by decide)]

variable [Mul α]

theorem withDifficulty_congr (h : AgreeOn kindKeys t t') (cost : α) :
    withDifficulty t cost = withDifficulty t' cost := by
  simp only [withDifficulty, h "mtb:scale" (by decide)]

theorem withCaution_congr (h : AgreeOn kindKeys t t') (cost : α) :
    withCaution t cost = withCaution t' cost := by
  simp only [withCaution, h.isAnyOf "RLIS:bicycle" (by decide)]

variable [Add α]

/-- Apart from traffic, a priority depends on the kind of way. -/
theorem priority_congr_calm (h : AgreeOn kindKeys t t')
    (htraffic : ∀ cost : α, withTraffic t cost = withTraffic t' cost) (inNetwork : Bool) :
    (priority t inNetwork : α) = priority t' inNetwork := by
  rw [priority, htraffic, withCaution_congr h, withDifficulty_congr h, basePriority_congr h,
    priority]

theorem priority_congr (hkind : AgreeOn kindKeys t t') (htraffic : AgreeOn trafficKeys t t')
    (inNetwork : Bool) : (priority t inNetwork : α) = priority t' inNetwork := by
  refine priority_congr_calm hkind (fun cost => ?_) inNetwork
  simp only [withTraffic, hkind.isAnyOf "cycleway" (by decide), hkind.isCyclePath,
    htraffic.laneCount, htraffic.oneWay]

/-- A way apart from traffic is a cycle path or has a track of its own. -/
def ApartFromTraffic (t : Tags) : Prop :=
  t.isCyclePath = true ∨ t.get? "cycleway" = some "track"

omit [Mul α] in
theorem withTraffic_apart (h : ApartFromTraffic t) (cost : α) : withTraffic t cost = cost := by
  have hapart : (t.isAnyOf "cycleway" ["track"] || t.isCyclePath) = true := by
    rcases h with hpath | htrack
    · rw [hpath, Bool.or_true]
    · simp [Tags.isAnyOf, htrack]
  exact if_pos hapart

theorem priority_congr_apart (hkind : AgreeOn kindKeys t t') (h : ApartFromTraffic t)
    (inNetwork : Bool) : (priority t inNetwork : α) = priority t' inNetwork := by
  have h' : ApartFromTraffic t' := by
    rwa [ApartFromTraffic, ← hkind.isCyclePath, ← hkind "cycleway" (by decide)]
  refine priority_congr_calm hkind (fun cost => ?_) inNetwork
  rw [withTraffic_apart h, withTraffic_apart h']

end

open Tags (AgreeOn kindKeys trafficKeys)

/-- Computed exactly, priorities range from 0.39 to 7.9125, and both are reached. A cycle network
lowers a priority by 0.35 of the product of base, difficulty and caution. Ways with the same tags
for eleven keys have the same priority, exactly and in doubles; for a cycle path or a way with a
track of its own the lanes and the direction make no difference either. -/
theorem priority_range_and_reads :
    (∀ t : Tags, 0.39 ≤ (priority t true : ℚ) ∧ (priority t true : ℚ) < priority t false ∧
      (priority t false : ℚ) ≤ 7.9125 ∧
      (priority t false : ℚ) - priority t true =
        0.35 * (basePriority t * withDifficulty t 1 * withCaution t 1)) ∧
    (∃ t, (priority t true : ℚ) = 0.39) ∧
    (∃ t, (priority t false : ℚ) = 7.9125) ∧
    (∀ t t' : Tags, AgreeOn kindKeys t t' → AgreeOn trafficKeys t t' → ∀ inNetwork,
      (priority t inNetwork : ℚ) = priority t' inNetwork ∧
      (priority t inNetwork : Float) = priority t' inNetwork) ∧
    ∀ t t' : Tags, AgreeOn kindKeys t t' →
      (t.isCyclePath = true ∨ t.get? "cycleway" = some "track") → ∀ inNetwork,
      (priority t inNetwork : ℚ) = priority t' inNetwork ∧
      (priority t inNetwork : Float) = priority t' inNetwork := by
  refine ⟨fun t => ?_, ⟨⟨[("highway", "cycleway")]⟩, by decide +kernel⟩,
    ⟨⟨[("highway", "trunk"), ("mtb:scale", "1"), ("RLIS:bicycle", "caution_area"), ("lanes", "4"),
      ("oneway", "yes")]⟩, by decide +kernel⟩,
    fun t t' hkind htraffic inNetwork =>
      ⟨priority_congr hkind htraffic inNetwork, priority_congr hkind htraffic inNetwork⟩,
    fun t t' hkind h inNetwork =>
      ⟨priority_congr_apart hkind h inNetwork, priority_congr_apart hkind h inNetwork⟩⟩
  obtain ⟨hcalm_low, hcalm_high⟩ := calmPriority_bounds t
  obtain ⟨hmore_low, hmore_high⟩ := surcharge_bounds t
  have hon : priority t true = 0.65 * calmPriority t + surcharge t := priority_eq t true
  have hoff : priority t false = calmPriority t + surcharge t := by
    rw [priority_eq, if_neg Bool.false_ne_true, one_mul]
  refine ⟨by linarith, by linarith, by linarith, ?_⟩
  rw [hon, hoff, ← calmPriority_eq]
  ring

/-- Neither a name nor an earlier tag with the same key makes a difference to a wide road, and
neither its lanes nor its direction to a track beside one. -/
theorem priority_of_wide_roads :
    let road : Tags := ⟨[("highway", "primary"), ("lanes", " +4 "), ("oneway", "yes")]⟩
    let named : Tags := ⟨[("name", "Main"), ("highway", "path"), ("oneway", "yes"),
      ("lanes", " +4 "), ("highway", "primary")]⟩
    let track : Tags := ⟨[("highway", "primary"), ("cycleway", "track"), ("lanes", "4")]⟩
    let oneWayTrack : Tags := ⟨[("highway", "primary"), ("cycleway", "track"), ("oneway", "yes")]⟩
    (priority road true : ℚ) = 0.62 ∧ (priority named true : Float) = priority road true ∧
      (priority track false : ℚ) = 0.7 ∧
      (priority oneWayTrack false : Float) = priority track false := by
  intro road named track oneWayTrack
  obtain ⟨-, -, -, hreads, hapart⟩ := priority_range_and_reads
  have hroads := hreads named road (by unfold AgreeOn; decide +kernel)
    (by unfold AgreeOn; decide +kernel) true
  have htracks := hapart oneWayTrack track (by unfold AgreeOn; decide +kernel)
    (.inr (by decide +kernel)) false
  exact ⟨by decide +kernel, hroads.2, by decide +kernel, htracks.2⟩

end Ridership.Routing
