import Ridership.Proofs.Build.Totals
import Ridership.Proofs.Store.History
import Ridership.Proofs.Tally.Runs

/-!
# Tracks ridden backwards, and tracks cut in two

A tally is taken from the front, but the rides it counts are those of the track ridden backwards.
Cut in two, a track gives the same rides but for one at most: the run that is cut may have become
too short, or may be counted on both sides, or the edge confirmed last is forgotten at the cut. This
holds of the counts however large they are, as 32-bit numbers; as long as they are exact, it holds
of the counters of a store as well.
-/

namespace Ridership

namespace Tally

/-! ## Backwards -/

theorem longRuns_append {before behind : List EdgeId}
    (h : ∀ x ∈ before.getLast?, ∀ y ∈ behind.head?, x ≠ y) :
    longRuns (before ++ behind) = longRuns before ++ longRuns behind := by
  unfold longRuns
  rw [List.splitBy_append fun x hx y hy => beq_false_of_ne (h x hx y hy), List.filter_append,
    List.filterMap_append]

theorem longRuns_replicate (n : Nat) (a : EdgeId) :
    longRuns (List.replicate n a) = if 2 ≤ n then [a] else [] := by
  cases n with
  | zero => rfl
  | succ n =>
    rw [List.replicate_succ, longRuns_cons, List.dropWhile_replicate_eq_filter_not]
    cases n with
    | zero => rfl
    | succ n => simp [List.replicate_succ, longRuns]

theorem exists_first_run (a : EdgeId) (rest : List EdgeId) :
    ∃ n behind, a :: rest = List.replicate (n + 1) a ++ behind ∧ behind.length ≤ rest.length ∧
      ∀ y ∈ behind.head?, a ≠ y := by
  refine ⟨(rest.takeWhile (· == a)).length, rest.dropWhile (· == a), ?_,
    (List.dropWhile_suffix _).length_le, ?_⟩
  · rw [List.replicate_succ, ← takeWhile_eq_replicate, List.cons_append,
      List.takeWhile_append_dropWhile]
  · rintro y hy rfl
    have hnot := List.head?_dropWhile_not (· == a) rest
    rw [Option.mem_def.mp hy] at hnot
    simp at hnot

/-- The long runs of the touches backwards are the same, from the last one to the first. -/
theorem longRuns_reverse (edges : List EdgeId) :
    longRuns edges.reverse = (longRuns edges).reverse := by
  match edges with
  | [] => rfl
  | a :: rest =>
    obtain ⟨n, behind, hsplit, hle, hends⟩ := exists_first_run a rest
    have hshorter : behind.length < (a :: rest).length := Nat.lt_succ_of_le hle
    have ih := longRuns_reverse behind
    have hrun : (longRuns (List.replicate (n + 1) a)).reverse =
        longRuns (List.replicate (n + 1) a) := by
      rw [longRuns_replicate]
      split <;> rfl
    rw [hsplit, List.reverse_append, List.reverse_replicate, longRuns_append, longRuns_append, ih,
      List.reverse_append, hrun]
    · intro x hx y hy
      obtain rfl := List.eq_of_mem_replicate (List.mem_of_mem_getLast? hx)
      exact hends y hy
    · intro x hx y hy
      rw [List.getLast?_reverse] at hx
      obtain rfl := List.eq_of_mem_replicate (List.mem_of_mem_head? hy)
      exact (hends x hx).symm
termination_by edges.length

theorem unrepeated_cons_anew (a : EdgeId) (l : List EdgeId) :
    unrepeated none (a :: l) = a :: unrepeated (some a) l :=
  unrepeated_cons_of_ne nofun

/-- What is left out after an edge is that edge in front. -/
theorem unrepeated_anew (a : EdgeId) (l : List EdgeId) :
    unrepeated none l = (if l.head? = some a then [a] else []) ++ unrepeated (some a) l := by
  cases l with
  | nil => rfl
  | cons b l =>
    rw [unrepeated_cons_anew, List.head?_cons]
    by_cases h : b = a
    · subst h
      rw [if_pos rfl, unrepeated_cons_self, List.singleton_append]
    · have hne : some a ≠ some b := fun heq => h (Option.some_inj.mp heq).symm
      rw [if_neg hne.symm, unrepeated_cons_of_ne hne, List.nil_append]

theorem destutter_cons (a : EdgeId) (l : List EdgeId) :
    (a :: l).destutter (· ≠ ·) =
      (if l.head? = some a then [] else [a]) ++ l.destutter (· ≠ ·) := by
  show unrepeated none (a :: l) = _ ++ unrepeated none l
  rw [unrepeated_cons_anew, unrepeated_anew a l]
  split <;> rfl

theorem destutter'_concat (a b : EdgeId) (l : List EdgeId) :
    (l ++ [b]).destutter' (· ≠ ·) a =
      l.destutter' (· ≠ ·) a ++ if (a :: l).getLast? = some b then [] else [b] := by
  induction l generalizing a with
  | nil =>
    by_cases h : a = b <;> simp [h]
  | cons c l ih =>
    by_cases h : a = c
    · subst h
      simp [ih]
    · simp [ih, h]

theorem destutter_concat (b : EdgeId) (l : List EdgeId) :
    (l ++ [b]).destutter (· ≠ ·) =
      l.destutter (· ≠ ·) ++ if l.getLast? = some b then [] else [b] := by
  cases l with
  | nil => rfl
  | cons a l => exact destutter'_concat a b l

theorem destutter_reverse (l : List EdgeId) :
    l.reverse.destutter (· ≠ ·) = (l.destutter (· ≠ ·)).reverse := by
  induction l with
  | nil => rfl
  | cons a l ih =>
    rw [List.reverse_cons, destutter_concat, ih, destutter_cons, List.reverse_append,
      List.getLast?_reverse]
    split <;> rfl

theorem confirmed_reverse (edges : List EdgeId) :
    confirmed edges.reverse = (confirmed edges).reverse := by
  rw [confirmed_eq_keptRuns, confirmed_eq_keptRuns, keptRuns, longRuns_reverse, destutter_reverse,
    keptRuns]

theorem ofTouches_reverse (edges : List EdgeId) :
    (ofTouches edges.reverse).Equiv (ofTouches edges) := by
  refine .of_forall_constGet?_eq fun e => ?_
  show (ofList (confirmed edges.reverse))[e]? = (ofList (confirmed edges))[e]?
  rw [getElem?_ofList, getElem?_ofList, confirmed_reverse, List.count_reverse]
  simp only [List.mem_reverse]

/-! ## Cut in two -/

/-- The lists are the same, but for one more edge in front of one of them. -/
def ButFirst (l l' : List EdgeId) : Prop :=
  l = l' ∨ ∃ x, l = x :: l' ∨ l' = x :: l

/-- Only the first run can be on the edge confirmed last. -/
theorem butFirst_unrepeated (last : Option EdgeId) (l : List EdgeId) :
    ButFirst (unrepeated last l) (unrepeated none l) := by
  cases last with
  | none => exact .inl rfl
  | some a =>
    rw [unrepeated_anew a l]
    split
    · exact .inr ⟨a, .inr rfl⟩
    · exact .inl rfl

/-- Whatever was touched and confirmed before, the touches that follow are confirmed as if nothing
had been, but for the first ride. -/
theorem butFirst_confirmedAfter (prev : EdgeId) (last : Option EdgeId) (edges : List EdgeId) :
    ButFirst (confirmedAfter prev last edges) (confirmed edges) := by
  rw [confirmedAfter_eq, confirmed_eq_keptRuns]
  show ButFirst _ (unrepeated none (longRuns edges))
  cases edges with
  | nil => exact butFirst_unrepeated last []
  | cons e rest =>
    by_cases he : e = prev
    · subst he
      rw [longRuns_twice, longRuns_cons e rest]
      split
      · exact butFirst_unrepeated last _
      · -- With the touch in front, a lone touch makes a run.
        rw [List.nil_append]
        by_cases hlast : last = some e
        · rw [hlast, unrepeated_cons_self]
          exact butFirst_unrepeated (some e) _
        · rw [unrepeated_cons_of_ne hlast, unrepeated_anew e]
          split
          · exact .inl rfl
          · exact .inr ⟨e, .inl rfl⟩
    · rw [longRuns_of_ne he]
      exact butFirst_unrepeated last _

theorem confirmedAfter_append (prev : EdgeId) (last : Option EdgeId) (a b : List EdgeId) :
    ∃ prev' last', confirmedAfter prev last (a ++ b) =
      confirmedAfter prev last a ++ confirmedAfter prev' last' b := by
  fun_induction confirmedAfter prev last a with
  | case1 prev last => exact ⟨prev, last, rfl⟩
  | case2 prev last e rest h ih =>
    obtain ⟨prev', last', heq⟩ := ih
    exact ⟨prev', last', by rw [List.cons_append, confirmedAfter, if_pos h, heq, List.cons_append]⟩
  | case3 prev last e rest h ih =>
    obtain ⟨prev', last', heq⟩ := ih
    exact ⟨prev', last', by rw [List.cons_append, confirmedAfter, if_neg h, heq]⟩

/-- Behind a cut the touches are confirmed as in a track of their own, but for the first ride. -/
theorem confirmed_append (a b : List EdgeId) :
    ∃ behind, confirmed (a ++ b) = confirmed a ++ behind ∧ ButFirst behind (confirmed b) := by
  cases a with
  | nil => exact ⟨confirmed b, rfl, .inl rfl⟩
  | cons first rest =>
    obtain ⟨prev, last, heq⟩ := confirmedAfter_append first none rest b
    exact ⟨_, heq, butFirst_confirmedAfter prev last b⟩

/-! ## Counts that are at most one apart -/

section

variable {α β : Type} [Add α] [OfNat α 1] [Add β] [OfNat β 1]

/-- The counts of all edges agree but for one at most, where they differ by one. -/
def AtMostOneApart (f g : EdgeId → α) : Prop :=
  ∃ x, (∀ e, e ≠ x → f e = g e) ∧ (f x = g x ∨ f x = g x + 1 ∨ g x = f x + 1)

/-- What is computed from the counts is at most one apart if one more makes one more at most. -/
theorem AtMostOneApart.map {f g : EdgeId → α} (h : AtMostOneApart f g) (φ : EdgeId → α → β)
    (hφ : ∀ e n, φ e (n + 1) = φ e n ∨ φ e (n + 1) = φ e n + 1) :
    AtMostOneApart (fun e => φ e (f e)) fun e => φ e (g e) := by
  obtain ⟨x, hagree, hx⟩ := h
  refine ⟨x, fun e he => congrArg (φ e) (hagree e he), ?_⟩
  rcases hx with heq | heq | heq
  · exact .inl (congrArg (φ x) heq)
  · simp only [heq]
    exact (hφ x (g x)).imp_right .inl
  · simp only [heq]
    exact (hφ x (f x)).imp Eq.symm .inr

end

theorem ButFirst.count {l l' : List EdgeId} (h : ButFirst l l') :
    AtMostOneApart (fun e => l.count e) fun e => l'.count e := by
  rcases h with rfl | ⟨x, rfl | rfl⟩
  · exact ⟨0, fun _ _ => rfl, .inl rfl⟩
  · exact ⟨x, fun e he => List.count_cons_of_ne he.symm, .inr (.inl List.count_cons_self)⟩
  · exact ⟨x, fun e he => (List.count_cons_of_ne he.symm).symm,
      .inr (.inr List.count_cons_self)⟩

theorem count_confirmed_append (a b : List EdgeId) :
    AtMostOneApart (fun e => (confirmed (a ++ b)).count e)
      fun e => (confirmed a).count e + (confirmed b).count e := by
  obtain ⟨behind, heq, hbehind⟩ := confirmed_append a b
  simp only [heq, List.count_append]
  exact hbehind.count.map (fun e n => (confirmed a).count e + n) fun _ _ => .inr rfl

end Tally

/-! ## Into a store -/

namespace Store

variable {s : Store} {total : EdgeId → Nat} {edges : List EdgeId}
  {visited : List (EdgeId × UInt32)}

/-- The counts of a tally that is exact are added to the counters, in whatever order they are
visited. -/
theorem merge_touches (hw : s.readOnly = false) (hin : ∀ e ∈ edges, e.toNat < s.edgeCount)
    (hlen : edges.length < 2 * UInt32.size) (hv : visited.Perm (Tally.ofTouches edges).toList)
    (hs : s.Holds total) :
    (∃ sum, (s.merge visited).2 = .ok sum) ∧
      (s.merge visited).1.Holds fun e => (Tally.confirmed edges).count e + total e := by
  have hedges : ∀ c ∈ visited, c.1.toNat < s.records.size := by
    rintro ⟨e, n⟩ hc
    have hmem : e ∈ Tally.ofTouches edges := Tally.mem_of_mem_toList (hv.mem_iff.mp hc)
    exact hin e (Tally.mem_of_mem_confirmed (Tally.mem_of_mem_ofList hmem))
  obtain ⟨t, sum, hmerge, ht⟩ := merge_holds visited hw hedges hs
  have hadded : ∀ e, added visited e = (Tally.confirmed edges).count e := fun e => by
    rw [added_perm hv, added_toList, Tally.toNat_getD_ofTouches hlen]
  simp only [hadded] at ht
  rw [hmerge]
  exact ⟨⟨sum, rfl⟩, ht⟩

/-- Merged one after the other, the tallies of two parts leave the counters of the whole, but for
one at most. -/
theorem merge_cut {a b : List EdgeId} {whole first second : List (EdgeId × UInt32)}
    (hw : s.readOnly = false) (hin : ∀ e ∈ a ++ b, e.toNat < s.edgeCount)
    (hlen : (a ++ b).length < 2 * UInt32.size)
    (hwhole : whole.Perm (Tally.ofTouches (a ++ b)).toList)
    (hfirst : first.Perm (Tally.ofTouches a).toList)
    (hsecond : second.Perm (Tally.ofTouches b).toList) :
    (∃ sum, (s.merge whole).2 = .ok sum) ∧ (∃ sum, (s.merge first).2 = .ok sum) ∧
      (∃ sum, ((s.merge first).1.merge second).2 = .ok sum) ∧
      Tally.AtMostOneApart (s.merge whole).1.counter
        ((s.merge first).1.merge second).1.counter := by
  have hlen' := hlen
  rw [List.length_append] at hlen'
  have hr := recounts_merge (s := s) first
  have hr' := recounts_merge (s := (s.merge first).1) second
  have hrwhole := recounts_merge (s := s) whole
  have hina : ∀ e ∈ a, e.toNat < s.edgeCount := fun e he => hin e (List.mem_append_left b he)
  have hinb : ∀ e ∈ b, e.toNat < (s.merge first).1.edgeCount := fun e he => by
    rw [edgeCount, hr.size_eq]
    exact hin e (List.mem_append_right a he)
  obtain ⟨hsum, hall⟩ := merge_touches hw hin hlen hwhole s.holds_self
  obtain ⟨hsum₁, hone⟩ := merge_touches hw hina (by omega) hfirst s.holds_self
  obtain ⟨hsum₂, htwo⟩ := merge_touches (hr.readOnly_eq.trans hw) hinb (by omega) hsecond hone
  refine ⟨hsum, hsum₁, hsum₂, ?_⟩
  let clipped (e : EdgeId) (n : Nat) : Nat :=
    if e.toNat < s.records.size then min maxCount (n + s.counter e) else 0
  have hleft : (s.merge whole).1.counter =
      fun e => clipped e ((Tally.confirmed (a ++ b)).count e) := funext fun e => by
    rw [hall.counter_eq, hrwhole.size_eq]
  have hright : ((s.merge first).1.merge second).1.counter =
      fun e => clipped e ((Tally.confirmed a).count e + (Tally.confirmed b).count e) :=
    funext fun e => by
      rw [htwo.counter_eq, hr'.size_eq, hr.size_eq, Nat.add_left_comm, ← Nat.add_assoc]
  rw [hleft, hright]
  refine (Tally.count_confirmed_append a b).map clipped fun e n => ?_
  by_cases he : e.toNat < s.records.size
  · simp only [clipped, if_pos he]
    omega
  · simp only [clipped, if_neg he, true_or]

end Store

namespace Snap.Matcher

theorem tally_reverse (m : Matcher) (track : List Geo.Point) :
    (m.tally track.reverse).Equiv (m.tally track) := by
  rw [tally, touches, List.filterMap_reverse, List.map_reverse]
  exact Tally.ofTouches_reverse _

theorem tally_append (m : Matcher) (track rest : List Geo.Point) :
    m.tally (track ++ rest) =
      Tally.ofTouches ((m.touches track).map Hit.edge ++ (m.touches rest).map Hit.edge) := by
  rw [tally, touches, List.filterMap_append, List.map_append, touches, touches]

end Snap.Matcher

namespace Tally

/-- The touches backwards make the same tally, and so does a track ridden backwards. Cut in two,
touches make tallies whose sum is that of the whole but for one edge at most, where it is one more
or one less; counted in 32 bits, and in full as long as there are less than twice as many touches
as there are such numbers. Merged into a store then, and visited in any order, the two leave all
counters but one as the whole does, and that one at most one apart. -/
theorem reversed_and_cut_tallies (a b : List EdgeId) :
    (ofTouches a.reverse).Equiv (ofTouches a) ∧
    AtMostOneApart (fun e => (ofTouches (a ++ b)).getD e 0)
      (fun e => (ofTouches a).getD e 0 + (ofTouches b).getD e 0) ∧
    ((a ++ b).length < 2 * UInt32.size →
      AtMostOneApart (fun e => ((ofTouches (a ++ b)).getD e 0).toNat)
        (fun e => ((ofTouches a).getD e 0).toNat + ((ofTouches b).getD e 0).toNat) ∧
      ∀ s : Store, s.readOnly = false → (∀ e ∈ a ++ b, e.toNat < s.edgeCount) →
        ∀ whole first second : List (EdgeId × UInt32),
          whole.Perm (ofTouches (a ++ b)).toList → first.Perm (ofTouches a).toList →
          second.Perm (ofTouches b).toList →
          (∃ sum, (s.merge whole).2 = .ok sum) ∧ (∃ sum, (s.merge first).2 = .ok sum) ∧
          (∃ sum, ((s.merge first).1.merge second).2 = .ok sum) ∧
          AtMostOneApart (s.merge whole).1.counter
            ((s.merge first).1.merge second).1.counter) ∧
    ∀ (m : Snap.Matcher) (track rest : List Geo.Point),
      (m.tally track.reverse).Equiv (m.tally track) ∧
      AtMostOneApart (fun e => (m.tally (track ++ rest)).getD e 0)
        (fun e => (m.tally track).getD e 0 + (m.tally rest).getD e 0) := by
  have hcut : ∀ a b : List EdgeId, AtMostOneApart (fun e => (ofTouches (a ++ b)).getD e 0)
      (fun e => (ofTouches a).getD e 0 + (ofTouches b).getD e 0) := fun a b => by
    simp only [ofTouches, getD_ofList, ← UInt32.ofNat_add]
    exact (count_confirmed_append a b).map (fun _ n => UInt32.ofNat n)
      fun _ n => .inr (UInt32.ofNat_add n 1)
  refine ⟨ofTouches_reverse a, hcut a b, fun hlen => ⟨?_, ?_⟩, fun m track rest =>
    ⟨m.tally_reverse track, ?_⟩⟩
  · have ha : a.length < 2 * UInt32.size :=
      Nat.lt_of_le_of_lt (List.sublist_append_left a b).length_le hlen
    have hb : b.length < 2 * UInt32.size :=
      Nat.lt_of_le_of_lt (List.sublist_append_right a b).length_le hlen
    simp only [toNat_getD_ofTouches hlen, toNat_getD_ofTouches ha, toNat_getD_ofTouches hb]
    exact count_confirmed_append a b
  · exact fun s hw hin _ _ _ hwhole hfirst hsecond =>
      Store.merge_cut hw hin hlen hwhole hfirst hsecond
  · rw [m.tally_append]
    exact hcut _ _

/-- Edge 7 is touched twice, and left on one side of the cut once. Cut there, the track no longer
counts for it, and counts for edge 5 as before. -/
theorem cut_through_a_pair :
    let s : Store := ⟨"index", 0, Array.replicate 8 0, false⟩
    AtMostOneApart (fun e => ((ofTouches ([5, 5, 7] ++ [7, 5, 5])).getD e 0).toNat)
      (fun e => ((ofTouches [5, 5, 7]).getD e 0).toNat + ((ofTouches [7, 5, 5]).getD e 0).toNat) ∧
    AtMostOneApart (s.merge (ofTouches ([5, 5, 7] ++ [7, 5, 5])).toList).1.counter
      ((s.merge (ofTouches [5, 5, 7]).toList).1.merge (ofTouches [7, 5, 5]).toList).1.counter ∧
    confirmed ([5, 5, 7] ++ [7, 5, 5]) = [5, 7, 5] ∧ confirmed [5, 5, 7] = [5] ∧
    confirmed [7, 5, 5] = [5] := by
  intro s
  obtain ⟨-, -, hexact, -⟩ := reversed_and_cut_tallies [5, 5, 7] [7, 5, 5]
  obtain ⟨hcounts, hstore⟩ := hexact (by decide)
  have hin : ∀ e : EdgeId, e ∈ [5, 5, 7] ++ [7, 5, 5] → e.toNat < s.edgeCount := by
    simp [s, Store.edgeCount]
  obtain ⟨-, -, -, hcounters⟩ := hstore s rfl hin _ _ _ (.refl _) (.refl _) (.refl _)
  exact ⟨hcounts, hcounters, by decide, by decide, by decide⟩

end Tally

end Ridership
