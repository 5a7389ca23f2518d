import Mathlib.Analysis.SpecialFunctions.Complex.Arg
import ManeuverRanking.Proofs.Geometry.Interpolation
import ManeuverRanking.Proofs.Geometry.Nearest
import ManeuverRanking.Proofs.Path.Kept

/-!
The dense polyline of a reference path, over the real numbers. Projection finds an arc length of the
polyline, and the table turns it into a place between two of the sampled ones, so the foot of every
position lies on the path.
-/

namespace ManeuverRanking

namespace ReferencePath

section Polyline

theorem sides_eq (points : List (Vec2 ℝ)) : sides points = stepLengths stepBetween points := by
  have same (start stop : Vec2 ℝ) : (Segment.mk start stop).length = stepBetween start stop :=
    (norm_sub_comm start stop).symm
  simp only [sides, same]

theorem chordLength_eq_sum (points : List (Vec2 ℝ)) : chordLength points = (sides points).sum := by
  have total := getLastD_runningTotals 0 0 (sides points)
  rw [zero_add, List.getLastD_eq_getLast?] at total
  rwa [chordLength, places, progressOf, ← sides_eq]

theorem chordLength_nonneg (points : List (Vec2 ℝ)) : 0 ≤ chordLength points := by
  rw [chordLength_eq_sum]
  exact List.sum_nonneg (sides_nonneg points)

theorem places_ascending (points : List (Vec2 ℝ)) : (places points).Pairwise (· ≤ ·) := by
  rw [places, progressOf, ← sides_eq]
  exact runningTotals_ascending 0 (sides_nonneg points)

theorem projected_within {points : List (Vec2 ℝ)} {position : Vec2 ℝ} {progress : ℝ}
    (projected : projectToPolyline points position = .ok progress) :
    0 ≤ progress ∧ progress ≤ chordLength points := by
  obtain ⟨spot, passes, -⟩ := nearest_of_projectToPolyline projected
  have before := passes.le_end
  rw [zero_add, ← chordLength_eq_sum] at before
  exact ⟨passes.start_le, before⟩

end Polyline

/-- The polyline and the table of a path are taken at some places from its start to its end. -/
structure SampledAt (path : ReferencePath ℝ) (dense : List ℝ) : Prop where
  outline : path.outline = dense.map path.point
  table : path.placeTable =
    (List.zipWith Node.mk (progressOf (stepLengths stepBetween path.outline)) dense).toArray
  two : 2 ≤ dense.length
  ascending : dense.Pairwise (· ≤ ·)
  first : dense.head? = some 0
  last : dense.getLast? = some path.lastPlace

namespace SampledAt

variable {path : ReferencePath ℝ} {dense : List ℝ} {progress : ℝ}

theorem exists_cons (sampled : path.SampledAt dense) : ∃ later, dense = 0 :: later :=
  List.head?_eq_some_iff.mp sampled.first

theorem getLast_eq (sampled : path.SampledAt dense) (some : dense ≠ []) :
    dense.getLast some = path.lastPlace := by
  have last := sampled.last
  rwa [List.getLast?_eq_some_getLast some, Option.some.injEq] at last

theorem place_within (sampled : path.SampledAt dense) :
    ∀ place ∈ dense, 0 ≤ place ∧ place ≤ path.lastPlace := by
  intro place member
  have low := sampled.ascending.rel_head member
  have high := sampled.ascending.rel_getLast member
  rw [sampled.getLast_eq (List.ne_nil_of_mem member)] at high
  obtain ⟨later, rfl⟩ := sampled.exists_cons
  exact ⟨low, high⟩

theorem two_le_outline (sampled : path.SampledAt dense) : 2 ≤ path.outline.length := by
  rw [sampled.outline, List.length_map]
  exact sampled.two

theorem length_eq (sampled : path.SampledAt dense) :
    dense.length = (places path.outline).length := by
  have some : path.outline ≠ [] :=
    List.ne_nil_of_length_pos (Nat.lt_of_lt_of_le Nat.two_pos sampled.two_le_outline)
  rw [length_places _ some, sampled.outline, List.length_map]

theorem exists_blend (sampled : path.SampledAt dense) (low : 0 ≤ progress)
    (high : progress ≤ chordLength path.outline) :
    ∃ index share, LiesAt (places path.outline) progress index share ∧
      path.placeOfProgress progress = blend dense index share := by
  have ascending := places_ascending path.outline
  have some : 0 < (places path.outline).length := Nat.succ_pos _
  have ends : (places path.outline)[(places path.outline).length - 1] =
      chordLength path.outline := by
    rw [chordLength, List.getLast?_eq_some_getLast (List.ne_nil_of_length_pos some),
      Option.getD_some, List.getLast_eq_getElem]
  obtain ⟨index, share, lies⟩ :=
    exists_liesAt ascending some low (high.trans_eq ends.symm)
  have told := lies.readOver_eq ascending sampled.length_eq
  rw [readOver, places, ← sampled.table] at told
  refine ⟨index, share, lies, ?_⟩
  rw [placeOfProgress]
  split at told
  · rename_i value found
    rw [found]
    exact Except.ok.inj told
  · cases told

theorem placeOfProgress_within (sampled : path.SampledAt dense) (low : 0 ≤ progress)
    (high : progress ≤ chordLength path.outline) :
    0 ≤ path.placeOfProgress progress ∧ path.placeOfProgress progress ≤ path.lastPlace := by
  obtain ⟨index, share, lies, told⟩ := sampled.exists_blend low high
  rw [told]
  exact lies.blend_within sampled.length_eq sampled.place_within

theorem yields_frenet (sampled : path.SampledAt dense) (position : Vec2 ℝ) :
    Yields (path.frenet position) fun foot => 0 ≤ foot.along ∧ foot.along ≤ path.lastPlace := by
  obtain ⟨progress, projected, -⟩ :=
    completes_projectToPolyline sampled.two_le_outline position
  obtain ⟨low, high⟩ := projected_within projected
  rw [frenet, projected]
  exact .ok (sampled.placeOfProgress_within low high)

end SampledAt

section Built

variable {spacing : ℝ}

theorem evenPlaces_ascending {lastPlace : ℝ} (nonneg : 0 ≤ lastPlace) {count : Nat}
    (two : 2 ≤ count) : (evenPlaces lastPlace count).Pairwise (· ≤ ·) := by
  have samples : (0 : ℝ) < (count - 1 : Nat) := by
    have some : 0 < count - 1 := by omega
    exact_mod_cast some
  have step : 0 ≤ lastPlace / ((count - 1 : Nat) : ℝ) := div_nonneg nonneg samples.le
  have read (index : Nat) : (ofInt (index : Int) : ℝ) = index := Int.cast_natCast index
  simp only [evenPlaces, read, List.pairwise_append, List.pairwise_map, List.pairwise_singleton,
    List.mem_map, List.mem_range, List.mem_singleton, true_and]
  refine ⟨?_, ?_⟩
  · refine List.pairwise_lt_range.imp ?_
    intro first second earlier
    exact mul_le_mul_of_nonneg_right (by exact_mod_cast earlier.le) step
  · rintro _ ⟨index, before, rfl⟩ _ same
    rw [same]
    have within : (index : ℝ) ≤ ((count - 1 : Nat) : ℝ) := by exact_mod_cast before.le
    calc (index : ℝ) * (lastPlace / ((count - 1 : Nat) : ℝ))
        ≤ ((count - 1 : Nat) : ℝ) * (lastPlace / ((count - 1 : Nat) : ℝ)) :=
          mul_le_mul_of_nonneg_right within step
      _ = lastPlace := mul_div_cancel₀ _ samples.ne'

theorem sampledAt_sampled (xs ys : Spline ℝ) {lastPlace : ℝ} (nonneg : 0 ≤ lastPlace) {count : Nat}
    (two : 2 ≤ count) :
    (sampled xs ys lastPlace count).SampledAt (evenPlaces lastPlace count) where
  outline := rfl
  table := rfl
  two := two_le_evenPlaces lastPlace two
  ascending := evenPlaces_ascending nonneg two
  first := by
    obtain ⟨later, rfl⟩ : ∃ later, count = later + 2 := ⟨count - 2, by omega⟩
    simp [evenPlaces, List.range_succ_eq_map, show (ofInt 0 : ℝ) = 0 from Int.cast_zero]
  last := by simp [evenPlaces, sampled]

theorem exists_sampledAt {points : List (Vec2 ℝ)} {path : ReferencePath ℝ}
    (built : throughDistinct points spacing = .ok path) : ∃ dense, path.SampledAt dense := by
  obtain ⟨-, xs, ys, count, -, -, counted, rfl⟩ := throughDistinct_eq_ok_iff.mp built
  obtain rfl := Except.ok.inj ((sampleCount_eq ..).symm.trans counted)
  exact ⟨_, sampledAt_sampled xs ys (chordLength_nonneg points) (two_le_samplesAlong _ _)⟩

end Built

end ReferencePath

end ManeuverRanking
