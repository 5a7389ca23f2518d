import Mathlib.Analysis.SpecialFunctions.Complex.Arg
import ManeuverRanking.Proofs.Geometry.Polyline
import ManeuverRanking.Proofs.Geometry.Projection
import ManeuverRanking.Proofs.Plan.Walk
import ManeuverRanking.Proofs.Scalar.Ordered

/-!
Nearest places over the real numbers. The arc length that projection finds for a position is that of
a spot on the polyline to which no other spot of it is nearer.
-/

namespace ManeuverRanking

namespace Segment

variable (piece : Segment ℝ) (position : Vec2 ℝ)

noncomputable def foot : ℝ :=
  max 0 (min 1 (piece.share position))

theorem share_mul_lengthSquared :
    piece.share position * piece.lengthSquared =
      (position.sub piece.start).dot (piece.stop.sub piece.start) := by
  by_cases still : piece.lengthSquared = 0
  · have none : piece.length = 0 := by rw [length_eq, still, Real.sqrt_zero]
    have same := piece.length_eq_zero_iff.mp none
    simp [still, Vec2.dot, Vec2.sub, same]
  · exact div_mul_cancel₀ _ still

theorem foot_nonneg : 0 ≤ piece.foot position :=
  le_max_left _ _

theorem foot_le_one : piece.foot position ≤ 1 :=
  max_le zero_le_one (min_le_left _ _)

variable {piece position} in
theorem foot_of_nonpos (before : piece.share position ≤ 0) : piece.foot position = 0 := by
  rw [foot, min_eq_right (before.trans zero_le_one), max_eq_left before]

variable {piece position} in
theorem foot_of_one_le (beyond : 1 ≤ piece.share position) : piece.foot position = 1 := by
  rw [foot, min_eq_left beyond, max_eq_right zero_le_one]

variable {piece position} in
theorem foot_of_within (after : 0 ≤ piece.share position) (within : piece.share position ≤ 1) :
    piece.foot position = piece.share position := by
  rw [foot, min_eq_right within, max_eq_right after]

theorem foot_between {share : ℝ} (forward : 0 ≤ share) (short : share ≤ 1) :
    0 ≤ (share - piece.foot position) * (piece.foot position - piece.share position) := by
  rcases le_total (piece.share position) 0 with before | after
  · rw [foot_of_nonpos before, sub_zero, zero_sub]
    exact mul_nonneg forward (neg_nonneg.mpr before)
  · rcases le_total (piece.share position) 1 with within | beyond
    · rw [foot_of_within after within, sub_self, mul_zero]
    · rw [foot_of_one_le beyond]
      exact mul_nonneg_of_nonpos_of_nonpos (by linarith) (by linarith)

theorem dot_sub_toward (share : ℝ) :
    let way := position.sub (piece.start.toward piece.stop share)
    way.dot way = (position.sub piece.start).dot (position.sub piece.start) -
      2 * share * (piece.share position * piece.lengthSquared) + share * share * piece.lengthSquared := by
  rw [share_mul_lengthSquared]
  simp only [Vec2.dot, Vec2.sub, Vec2.toward, lengthSquared]
  ring

theorem norm_foot_le {share : ℝ} (forward : 0 ≤ share) (short : share ≤ 1) :
    (position.sub (piece.start.toward piece.stop (piece.foot position))).norm ≤
      (position.sub (piece.start.toward piece.stop share)).norm := by
  apply Real.sqrt_le_sqrt
  rw [dot_sub_toward, dot_sub_toward]
  have square : 0 ≤ piece.lengthSquared := by
    simp only [lengthSquared, Vec2.dot]
    nlinarith [mul_self_nonneg (piece.stop.sub piece.start).x,
      mul_self_nonneg (piece.stop.sub piece.start).y]
  have apart := mul_nonneg square (mul_self_nonneg (share - piece.foot position))
  have between := mul_nonneg square (piece.foot_between position forward short)
  linarith

theorem distance_within (apart : piece.start ≠ piece.stop) :
    let way := piece.stop.sub piece.start
    let offset := piece.start.sub position
    |(offset.y * way.x - offset.x * way.y) / piece.lengthSquared| *
        Real.sqrt piece.lengthSquared =
      (position.sub (piece.start.toward piece.stop (piece.share position))).norm := by
  have square : 0 < piece.lengthSquared := by
    rw [← Real.sqrt_pos, ← length_eq, length_pos_iff]
    exact apart
  intro way offset
  rw [← Real.sqrt_sq_eq_abs, ← Real.sqrt_mul (sq_nonneg _)]
  apply congrArg Real.sqrt
  rw [dot_sub_toward, share]
  field_simp
  simp only [way, offset, lengthSquared, Vec2.dot, Vec2.sub]
  ring

theorem distance_eq :
    piece.distance position =
      (position.sub (piece.start.toward piece.stop (piece.foot position))).norm := by
  unfold distance
  split
  · rename_i same
    rw [← (Vec2.sameAs_iff _ _).mp same, Vec2.toward_self]
  · rename_i different
    have apart : piece.start ≠ piece.stop := fun same => different ((Vec2.sameAs_iff _ _).mpr same)
    dsimp only
    split
    · rename_i before
      rw [foot_of_nonpos before, Vec2.toward_zero]
    · rename_i after
      split
      · rename_i beyond
        rw [foot_of_one_le beyond, Vec2.toward_one]
      · rename_i within
        rw [foot_of_within (not_le.mp after).le (not_le.mp within).le,
          ← piece.distance_within position apart]
        exact congrArg (· * _) (Exact.abs_eq _)

theorem share_start : piece.share piece.start = 0 := by
  simp [share, Vec2.dot, Vec2.sub]

theorem share_stop (apart : piece.start ≠ piece.stop) : piece.share piece.stop = 1 := by
  have square : piece.lengthSquared ≠ 0 := by
    intro none
    exact apart (piece.length_eq_zero_iff.mp (by rw [length_eq, none, Real.sqrt_zero]))
  exact div_self square

theorem reach_eq : piece.reach position = piece.foot position * piece.length := by
  have told : (if position.sameAs piece.start then (0 : ℝ)
      else if position.sameAs piece.stop then 1 else piece.share position) =
        piece.share position := by
    split
    · rename_i here
      rw [(Vec2.sameAs_iff _ _).mp here, share_start]
    · rename_i behind
      split
      · rename_i there
        rw [(Vec2.sameAs_iff _ _).mp there, share_stop]
        intro same
        rw [same] at behind
        exact behind there
      · rfl
  unfold reach
  dsimp only
  rw [told]
  split
  · rename_i before
    rw [foot_of_nonpos before, zero_mul]
  · rename_i after
    split
    · rename_i within
      rw [foot_of_within (not_le.mp after).le within]
    · rename_i beyond
      rw [foot_of_one_le (not_le.mp beyond).le, one_mul]

end Segment

section Scan

variable {position : Vec2 ℝ} {arc : ℝ} {best : Option (Nearest ℝ)} {found : Nearest ℝ}
  {points : List (Vec2 ℝ)}

theorem exists_better (point : Nearest ℝ) (forward : 0 ≤ point.arc) (best : Option (Nearest ℝ)) :
    ∃ better, (if point.replaces best then some point else best) = some better ∧
      (better = point ∨ best = some better) ∧ better.distance ≤ point.distance ∧
      ∀ earlier, best = some earlier → better.distance ≤ earlier.distance := by
  cases best with
  | none =>
      refine ⟨point, ?_, .inl rfl, le_refl _, nofun⟩
      simp [Nearest.replaces, forward]
  | some earlier =>
      by_cases nearer : point.distance < earlier.distance
      · refine ⟨point, ?_, .inl rfl, le_refl _, ?_⟩
        · simp [Nearest.replaces, forward, nearer]
        · rintro _ ⟨⟩
          exact nearer.le
      · refine ⟨earlier, ?_, .inr rfl, not_lt.mp nearer, ?_⟩
        · simp [Nearest.replaces, nearer]
        · rintro _ ⟨⟩
          exact le_refl _

/-- A place is known already or passed by a polyline, at the distance told; and nothing known or
passed is nearer. -/
structure Closest (position : Vec2 ℝ) (arc : ℝ) (best : Option (Nearest ℝ))
    (points : List (Vec2 ℝ)) (found : Nearest ℝ) : Prop where
  origin : best = some found ∨
    ∃ spot, Passes arc points found.arc spot ∧ found.distance = (position.sub spot).norm
  le_best : ∀ earlier, best = some earlier → found.distance ≤ earlier.distance
  le_passed : ∀ place spot, Passes arc points place spot →
    found.distance ≤ (position.sub spot).norm

theorem closest_of_known {points : List (Vec2 ℝ)} (short : points.length < 2)
    (told : best = some found) : Closest position arc best points found where
  origin := .inl told
  le_best := by
    rintro earlier known
    obtain rfl := Option.some.inj (told.symm.trans known)
    exact le_refl _
  le_passed := by
    intro place spot passes
    cases passes <;> simp at short

/-- The walk along a polyline finds the place closest to a position. -/
theorem closest_of_nearestAlong (forward : 0 ≤ arc)
    (told : nearestAlong position arc best points = some found) :
    Closest position arc best points found := by
  -- On the points: the best spot of the segments before is known to the walk along the rest.
  induction points generalizing arc best with
  | nil => exact closest_of_known (by simp) told
  | cons start rest ih =>
      cases rest with
      | nil => exact closest_of_known (by simp) told
      | cons stop rest =>
          have length := Segment.length_nonneg ⟨start, stop⟩
          have ahead := reach_nonneg ⟨start, stop⟩ position
          obtain ⟨better, chosen, either, nearer, kept⟩ :=
            exists_better ((⟨start, stop⟩ : Segment ℝ).nearest arc position)
              (add_nonneg forward ahead) best
          rw [nearestAlong, chosen] at told
          have later := ih (add_nonneg forward length) told
          have least := later.le_best better rfl
          have distance : ((⟨start, stop⟩ : Segment ℝ).nearest arc position).distance = _ :=
            Segment.distance_eq ⟨start, stop⟩ position
          refine ⟨?_, fun earlier known => least.trans (kept earlier known), ?_⟩
          · rcases later.origin with known | ⟨spot, passes, told⟩
            · obtain rfl := Option.some.inj known
              rcases either with rfl | known
              · refine .inr ⟨_, ?_, distance⟩
                change Passes arc _ (arc + Segment.reach _ _) _
                rw [Segment.reach_eq]
                exact .between (Segment.foot_nonneg _ _) (Segment.foot_le_one _ _)
              · exact .inl known
            · exact .inr ⟨spot, .later passes, told⟩
          · intro place spot passes
            rcases Passes.cons_iff.mp passes with ⟨share, within, short, -, rfl⟩ | passes
            · rw [distance] at nearer
              exact (least.trans nearer).trans (Segment.norm_foot_le _ _ within short)
            · exact later.le_passed place spot passes

theorem nearest_of_projectToPolyline {place : ℝ}
    (projected : projectToPolyline points position = .ok place) :
    ∃ spot, Passes 0 points place spot ∧
      ∀ other, OnPolyline points other → (position.sub spot).norm ≤ (position.sub other).norm := by
  unfold projectToPolyline at projected
  split at projected
  · rename_i found told
    obtain rfl := Except.ok.inj projected
    have closest := closest_of_nearestAlong (le_refl 0) told
    rcases closest.origin with known | ⟨spot, passes, distance⟩
    · exact absurd known nofun
    · refine ⟨spot, passes, fun other on => ?_⟩
      obtain ⟨place, passes'⟩ := on.exists_passes passes.two_le 0
      rw [← distance]
      exact closest.le_passed place other passes'
  · contradiction

end Scan

end ManeuverRanking
