import Mathlib.Analysis.SpecialFunctions.Complex.Arg
import ManeuverRanking.Proofs.Geometry.Motion

/-!
Projection onto a polyline compares distances and adds up lengths. It finds the same arc length when
the polyline and the position are moved together.
-/

namespace ManeuverRanking

theorem Vec2.sameAs_iff (left right : Vec2 ℝ) : left.sameAs right = true ↔ left = right := by
  obtain ⟨x, y⟩ := left
  obtain ⟨x', y'⟩ := right
  simp [sameAs]

namespace RigidMotion

variable (motion : RigidMotion)

theorem sameAs_spot (left right : Vec2 ℝ) :
    (motion.spot left).sameAs (motion.spot right) = left.sameAs right := by
  rw [Bool.eq_iff_iff, Vec2.sameAs_iff, Vec2.sameAs_iff, motion.spot_injective.eq_iff]

noncomputable def segment (segment : Segment ℝ) : Segment ℝ :=
  ⟨motion.spot segment.start, motion.spot segment.stop⟩

section

variable (piece : Segment ℝ) (position : Vec2 ℝ)

theorem length_segment : (motion.segment piece).length = piece.length := by
  rw [Segment.length, segment, spot_sub_spot, norm_way, Segment.length]

theorem lengthSquared_segment : (motion.segment piece).lengthSquared = piece.lengthSquared := by
  simp only [Segment.lengthSquared, segment, spot_sub_spot, dot_way]

theorem share_segment :
    (motion.segment piece).share (motion.spot position) = piece.share position := by
  simp only [Segment.share, lengthSquared_segment]
  simp only [segment, spot_sub_spot, dot_way]

theorem distance_segment :
    (motion.segment piece).distance (motion.spot position) = piece.distance position := by
  simp only [Segment.distance, share_segment, lengthSquared_segment]
  simp only [segment, sameAs_spot, spot_sub_spot, norm_way, cross_way]

theorem reach_segment :
    (motion.segment piece).reach (motion.spot position) = piece.reach position := by
  simp only [Segment.reach, share_segment, length_segment]
  simp only [segment, sameAs_spot]

theorem nearest_segment (arc : ℝ) :
    (motion.segment piece).nearest arc (motion.spot position) = piece.nearest arc position := by
  simp only [Segment.nearest, distance_segment, reach_segment]

end

theorem nearestAlong_spot (position : Vec2 ℝ) (arc : ℝ) (best : Option (Nearest ℝ))
    (points : List (Vec2 ℝ)) :
    nearestAlong (motion.spot position) arc best (points.map motion.spot) =
      nearestAlong position arc best points := by
  induction points generalizing arc best with
  | nil => rfl
  | cons start rest ih =>
      cases rest with
      | nil => rfl
      | cons stop rest =>
          have nearest := motion.nearest_segment ⟨start, stop⟩ position arc
          have length := motion.length_segment ⟨start, stop⟩
          simp only [List.map_cons, segment, nearestAlong] at ih nearest length ⊢
          rw [nearest, length, ih]

theorem projectToPolyline_spot (points : List (Vec2 ℝ)) (position : Vec2 ℝ) :
    projectToPolyline (points.map motion.spot) (motion.spot position) =
      projectToPolyline points position := by
  rw [projectToPolyline, nearestAlong_spot, projectToPolyline]

end RigidMotion

end ManeuverRanking
