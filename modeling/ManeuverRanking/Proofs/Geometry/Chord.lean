import Mathlib.Analysis.SpecialFunctions.Complex.Arg
import ManeuverRanking.Proofs.Geometry.Polyline

/-!
Chords of a polyline over the real numbers. Between two of its spots the straight way is at most the
way along the polyline, and it is that way where no corner lies between them.
-/

namespace ManeuverRanking

namespace Vec2

theorem norm_eq (vector : Vec2 ℝ) : vector.norm = ‖(⟨vector.x, vector.y⟩ : ℂ)‖ := by
  rw [Complex.norm_def]
  rfl

theorem norm_sub_le_add (first second third : Vec2 ℝ) :
    (third.sub first).norm ≤ (second.sub first).norm + (third.sub second).norm := by
  have way : (⟨third.x - first.x, third.y - first.y⟩ : ℂ) =
      ⟨second.x - first.x, second.y - first.y⟩ + ⟨third.x - second.x, third.y - second.y⟩ :=
    Complex.ext (sub_add_sub_cancel' ..).symm (sub_add_sub_cancel' ..).symm
  rw [norm_eq, norm_eq, norm_eq]
  simp only [sub, way]
  exact norm_add_le _ _

theorem norm_sub_self (spot : Vec2 ℝ) : (spot.sub spot).norm = 0 := by
  simp only [norm, dot, sub, sub_self, mul_zero, add_zero]
  exact Real.sqrt_zero

theorem norm_toward_sub (start stop : Vec2 ℝ) {first second : ℝ} (ordered : first ≤ second) :
    ((start.toward stop second).sub (start.toward stop first)).norm =
      (second - first) * (Segment.mk start stop).length := by
  have square : ((start.toward stop second).sub (start.toward stop first)).dot
      ((start.toward stop second).sub (start.toward stop first)) =
        (second - first) * (second - first) * (Segment.mk start stop).lengthSquared := by
    simp only [Segment.lengthSquared, toward, sub, dot]
    ring
  rw [norm, square, Segment.length_eq]
  change Real.sqrt _ = _
  rw [Real.sqrt_mul (mul_self_nonneg _), Real.sqrt_mul_self (sub_nonneg.mpr ordered)]

end Vec2

theorem Segment.length_eq_norm (start stop : Vec2 ℝ) :
    (Segment.mk start stop).length = (stop.sub start).norm :=
  Segment.length_eq ⟨start, stop⟩

namespace Passes

variable {arc place place' : ℝ} {points : List (Vec2 ℝ)} {spot spot' : Vec2 ℝ}

theorem norm_sub_head_le (passes : Passes arc points place spot) {first : Vec2 ℝ}
    (head : points.head? = some first) : (spot.sub first).norm ≤ place - arc := by
  induction passes generalizing first with
  | @between arc share start stop _ forward _ =>
      obtain rfl := Option.some.inj head
      have way := start.norm_toward_sub stop forward
      rw [Vec2.toward_zero, sub_zero] at way
      rw [way, add_sub_cancel_left]
  | @later arc place start stop spot _ passes ih =>
      obtain rfl := Option.some.inj head
      have behind := ih List.head?_cons
      have detour := Vec2.norm_sub_le_add start stop spot
      rw [← Segment.length_eq_norm start stop] at detour
      linarith

theorem norm_sub_le (passes : Passes arc points place spot) (passes' : Passes arc points place' spot')
    (ordered : place ≤ place') : (spot'.sub spot).norm ≤ place' - place := by
  rcases eq_or_lt_of_le ordered with rfl | ahead
  · rw [passes.unique passes', Vec2.norm_sub_self, sub_self]
  · clear ordered
    induction passes with
    | @between arc share start stop _ forward short =>
        have length := Segment.length_nonneg ⟨start, stop⟩
        rcases cons_iff.mp passes' with ⟨share', -, -, rfl, rfl⟩ | later
        · have further := lt_of_mul_lt_mul_right (lt_of_add_lt_add_left ahead) length
          rw [start.norm_toward_sub stop further.le]
          linarith
        · have rest := later.norm_sub_head_le List.head?_cons
          have side := start.norm_toward_sub stop short
          rw [Vec2.toward_one] at side
          have detour := Vec2.norm_sub_le_add (start.toward stop share) stop spot'
          linarith
    | @later arc place start stop spot _ passes ih =>
        rcases cons_iff.mp passes' with ⟨share', -, short', rfl, rfl⟩ | later
        · have within := mul_le_of_le_one_left (Segment.length_nonneg ⟨start, stop⟩) short'
          have behind := passes.start_le
          linarith
        · exact ih later ahead

theorem exists_share {start stop : Vec2 ℝ} {rest : List (Vec2 ℝ)}
    (passes : Passes arc (start :: stop :: rest) place spot)
    (near : place ≤ arc + (Segment.mk start stop).length) :
    ∃ share, place = arc + share * (Segment.mk start stop).length ∧
      spot = start.toward stop share := by
  rcases cons_iff.mp passes with ⟨share, -, -, told, there⟩ | later
  · exact ⟨share, told, there⟩
  · obtain rfl : stop = spot := Option.some.inj (later.head?_eq near)
    exact ⟨1, by rw [one_mul, le_antisymm near later.start_le], by rw [Vec2.toward_one]⟩

theorem of_beyond {start stop next : Vec2 ℝ} {rest : List (Vec2 ℝ)}
    (passes : Passes arc (start :: stop :: next :: rest) place spot)
    (beyond : arc + (Segment.mk start stop).length ≤ place) :
    Passes (arc + (Segment.mk start stop).length) (stop :: next :: rest) place spot := by
  rcases cons_iff.mp passes with ⟨share, -, short, rfl, rfl⟩ | later
  · have within := mul_le_of_le_one_left (Segment.length_nonneg ⟨start, stop⟩) short
    obtain whole : arc + (Segment.mk start stop).length =
        arc + share * (Segment.mk start stop).length := by
      linarith
    have corner := passes.unique (whole ▸ at_stop arc start stop (next :: rest))
    rw [corner, ← whole]
    exact at_start _ stop next rest
  · exact later

theorem norm_sub_eq (passes : Passes arc points place spot) (passes' : Passes arc points place' spot')
    (ordered : place ≤ place') {index : Nat}
    (next : index + 1 < (arc :: runningTotals arc (sides points)).length)
    (low : (arc :: runningTotals arc (sides points))[index] ≤ place)
    (high : place' ≤ (arc :: runningTotals arc (sides points))[index + 1]) :
    (spot'.sub spot).norm = place' - place := by
  rcases eq_or_lt_of_le ordered with rfl | ahead
  · rw [passes.unique passes', Vec2.norm_sub_self, sub_self]
  -- On the points, with the segment moving to the front of what is left.
  · induction points generalizing arc index with
    | nil => cases passes
    | cons start rest ih =>
        match rest, index with
        | [], _ => cases passes
        | stop :: rest, 0 =>
            obtain ⟨share, rfl, rfl⟩ := passes.exists_share (ordered.trans high)
            obtain ⟨share', rfl, rfl⟩ := passes'.exists_share high
            have further := lt_of_mul_lt_mul_right (lt_of_add_lt_add_left ahead)
              (Segment.length_nonneg ⟨start, stop⟩)
            rw [start.norm_toward_sub stop further.le]
            ring
        | [stop], index + 1 => simp [sides, stepLengths, runningTotals] at next
        | stop :: after :: rest, index + 1 =>
            let corner := arc + (Segment.mk start stop).length
            let later := corner :: runningTotals corner (sides (stop :: after :: rest))
            have next' : index + 1 < later.length := Nat.lt_of_succ_lt_succ next
            have behind : later[0] ≤ later[index] :=
              (runningTotals_ascending corner (sides_nonneg _)).rel_get_of_le (Nat.zero_le index)
            have beyond : corner ≤ place := behind.trans low
            exact ih (passes.of_beyond beyond) (passes'.of_beyond (beyond.trans ordered))
              next' low high

end Passes

section Corners

theorem add_norm_sub_le {corners : List (Vec2 ℝ)} (start : ℝ) (step : Nat)
    (reached : step < corners.length)
    (inside : step < (start :: runningTotals start (sides corners)).length) :
    start + (corners[step].sub corners[0]).norm ≤
      (start :: runningTotals start (sides corners))[step] := by
  induction corners generalizing start step with
  | nil => exact absurd reached (Nat.not_lt_zero _)
  | cons first rest ih =>
      match rest, step with
      | rest, 0 => simp [Vec2.norm_sub_self]
      | second :: rest, step + 1 =>
          have reached' : step < (second :: rest).length := Nat.lt_of_succ_lt_succ reached
          have later := ih (start + (Segment.mk first second).length) step reached'
            (Nat.lt_of_succ_lt_succ inside)
          have detour := Vec2.norm_sub_le_add first second (second :: rest)[step]
          rw [← Segment.length_eq_norm first second] at detour
          refine le_trans ?_ later
          simp only [List.getElem_cons_succ, List.getElem_cons_zero]
          linarith

theorem runningTotals_sides_le {β : Type} {spot : β → Vec2 ℝ} {place : β → ℝ} {stops : List β}
    (near : stops.IsChain fun before after =>
      ((spot after).sub (spot before)).norm ≤ place after - place before)
    (start : ℝ) (step : Nat) (reached : step < stops.length)
    (inside : step < (start :: runningTotals start (sides (stops.map spot))).length) :
    (start :: runningTotals start (sides (stops.map spot)))[step] ≤
      start + (place stops[step] - place stops[0]) := by
  induction stops generalizing start step with
  | nil => exact absurd reached (Nat.not_lt_zero _)
  | cons first rest ih =>
      match rest, step with
      | _, 0 => simp
      | second :: rest, step + 1 =>
          obtain ⟨short, later⟩ := List.isChain_cons_cons.mp near
          rw [← Segment.length_eq_norm] at short
          refine le_trans (ih later (start + (Segment.mk (spot first) (spot second)).length) step
            (Nat.lt_of_succ_lt_succ reached) (Nat.lt_of_succ_lt_succ inside)) ?_
          simp only [List.getElem_cons_succ, List.getElem_cons_zero]
          linarith

end Corners

end ManeuverRanking
