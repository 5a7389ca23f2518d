import Mathlib.Analysis.SpecialFunctions.Complex.Arg
import ManeuverRanking.Path.FrenetState
import ManeuverRanking.Proofs.Geometry.Direction
import ManeuverRanking.Proofs.Path.Natural
import ManeuverRanking.Proofs.Path.Sampled

/-!
Straight reference paths. The splines through points that advance in one direction are a ray that is
run at unit speed, however the points are spaced. The dense polyline lies on it, its progress is the
place on the splines, and the nearest spot to a position beside the ray is the foot of that position.
So place and offset are told back exactly, and the state of the ego vehicle is read off its heading.
-/

namespace ManeuverRanking

noncomputable def Vec2.ahead (start direction : Vec2 ℝ) (way : ℝ) : Vec2 ℝ :=
  ⟨start.x + way * direction.x, start.y + way * direction.y⟩

noncomputable def Vec2.left (direction : Vec2 ℝ) : Vec2 ℝ :=
  ⟨-direction.y, direction.x⟩

section Ahead

variable {direction : Vec2 ℝ}

@[simp] theorem Vec2.ahead_zero (start direction : Vec2 ℝ) : start.ahead direction 0 = start := by
  simp [ahead]

theorem Vec2.toward_ahead (start : Vec2 ℝ) (first second share : ℝ) :
    (start.ahead direction first).toward (start.ahead direction second) share =
      start.ahead direction (first + share * (second - first)) := by
  simp only [ahead, toward, Vec2.mk.injEq]
  constructor <;> ring

theorem norm_sub_beside (unit : direction.dot direction = 1) (start : Vec2 ℝ)
    (place other offset : ℝ) :
    (((start.ahead direction place).ahead direction.left offset).sub
      (start.ahead direction other)).norm =
        Real.sqrt ((place - other) * (place - other) + offset * offset) := by
  unfold Vec2.norm
  congr 1
  simp only [Vec2.dot, Vec2.sub, Vec2.ahead, Vec2.left] at unit ⊢
  linear_combination ((place - other) * (place - other) + offset * offset) * unit

theorem norm_sub_ahead (unit : direction.dot direction = 1) (start : Vec2 ℝ) (place other : ℝ) :
    ((start.ahead direction place).sub (start.ahead direction other)).norm = |place - other| := by
  have beside := norm_sub_beside unit start place other 0
  rwa [Vec2.ahead_zero, mul_zero, add_zero, Real.sqrt_mul_self_eq_abs] at beside

end Ahead

theorem signum_mul_abs (value : ℝ) : signum value * |value| = value := by
  rcases lt_trichotomy value 0 with below | rfl | above
  · rw [signum, if_pos below, abs_of_neg below, neg_one_mul, neg_neg]
  · rw [abs_zero, mul_zero]
  · rw [signum, if_neg above.not_gt, if_pos above, abs_of_pos above, one_mul]

namespace ReferencePath

def Advances (direction : Vec2 ℝ) (points : List (Vec2 ℝ)) : Prop :=
  points.IsChain fun start stop => ∃ way, leastStep < way ∧ stop = start.ahead direction way

section Points

variable {direction first : Vec2 ℝ} {points rest : List (Vec2 ℝ)}

theorem stepBetween_ahead (unit : direction.dot direction = 1) (start : Vec2 ℝ) {way : ℝ}
    (forward : 0 ≤ way) : stepBetween start (start.ahead direction way) = way := by
  have length := norm_sub_ahead unit start way 0
  rwa [Vec2.ahead_zero, sub_zero, abs_of_nonneg forward] at length

theorem Advances.strides (unit : direction.dot direction = 1) (advances : Advances direction points) :
    points.IsChain Strides := by
  refine advances.imp ?_
  rintro start _ ⟨way, long, rfl⟩
  rw [Strides, ← stepBetween, stepBetween_ahead unit start (leastStep_pos.trans long).le]
  exact long

theorem distinct_of_strides (strides : points.IsChain Strides) : distinct points = points := by
  have kept (before : Vec2 ℝ) (rest : List (Vec2 ℝ)) (strides : (before :: rest).IsChain Strides) :
      distinctAfter before rest = rest := by
    induction rest generalizing before with
    | nil => rfl
    | cons point rest ih =>
        obtain ⟨long, later⟩ := List.isChain_cons_cons.mp strides
        rw [distinctAfter_cons_of_strides long, ih point later]
  cases points with
  | nil => rfl
  | cons first rest => rw [distinct, kept first rest strides]

theorem apart_of_strides (strides : points.IsChain Strides) : points.IsChain (· ≠ ·) := by
  refine strides.imp ?_
  rintro start _ long rfl
  exact not_strides_self start long

theorem knots_aligned (unit : direction.dot direction = 1) (read : Vec2 ℝ → ℝ) (slope : ℝ)
    (rises : ∀ start way, read (start.ahead direction way) = read start + way * slope)
    (advances : Advances direction (first :: rest)) (start : ℝ) :
    ∀ knot ∈ List.zipWith Knot.mk
        (start :: runningTotals start (stepLengths stepBetween (first :: rest)))
        ((first :: rest).map read),
      knot.value = (read first - slope * start) + slope * knot.place := by
  induction rest generalizing first start with
  | nil => simp [stepLengths, runningTotals]
  | cons second rest ih =>
      obtain ⟨⟨way, long, rfl⟩, later⟩ := List.isChain_cons_cons.mp advances
      have step := stepBetween_ahead unit first (leastStep_pos.trans long).le
      have behind := ih later (start + way)
      rw [rises] at behind
      rw [stepLengths, step, runningTotals, List.map_cons, List.zipWith_cons_cons,
        List.forall_mem_cons]
      refine ⟨by ring, fun knot member => ?_⟩
      rw [behind knot member]
      ring

end Points

structure Straight (path : ReferencePath ℝ) (origin direction : Vec2 ℝ) : Prop where
  unit : direction.dot direction = 1
  point : ∀ place, path.point place = origin.ahead direction place
  tangent : ∀ place, path.tangent place = direction
  bend : ∀ place, path.bend place = ⟨0, 0⟩

section Ray

variable {path : ReferencePath ℝ} {origin direction : Vec2 ℝ} {place : ℝ}

namespace Straight

variable (straight : path.Straight origin direction)

include straight

theorem curvature_eq_zero (place : ℝ) : path.curvature place = 0 := by
  have bend := straight.bend place
  have xs : path.xs.secondDerivative place = 0 := congrArg Vec2.x bend
  have ys : path.ys.secondDerivative place = 0 := congrArg Vec2.y bend
  simp [curvature, xs, ys]

theorem direction_eq (place : ℝ) : path.direction place = direction := by
  have tangent := straight.tangent place
  have ys : path.ys.derivative place = direction.y := congrArg Vec2.y tangent
  have xs : path.xs.derivative place = direction.x := congrArg Vec2.x tangent
  have length : ‖(⟨direction.x, direction.y⟩ : ℂ)‖ = 1 := by
    rw [Complex.norm_def, Real.sqrt_eq_one]
    exact straight.unit
  have some : (⟨direction.x, direction.y⟩ : ℂ) ≠ 0 := by
    rw [← norm_ne_zero_iff, length]
    exact one_ne_zero
  change (⟨Real.cos (Complex.arg ⟨_, _⟩), Real.sin (Complex.arg ⟨_, _⟩)⟩ : Vec2 ℝ) = _
  rw [xs, ys, Complex.cos_arg some, Complex.sin_arg, length, div_one, div_one]

theorem cartesian_eq_beside (place offset : ℝ) : path.cartesian place offset =
    (origin.ahead direction place).ahead direction.left offset := by
  rw [cartesian_eq, straight.point, straight.direction_eq]
  simp only [Vec2.ahead, Vec2.left, Vec2.mk.injEq, and_true]
  ring

theorem offsetAt_cartesian (place offset : ℝ) :
    path.offsetAt place (path.cartesian place offset) = offset := by
  have length := norm_sub_beside straight.unit origin place place offset
  rw [sub_self, zero_mul, zero_add, Real.sqrt_mul_self_eq_abs] at length
  have foot : path.cartesian place 0 = origin.ahead direction place := by
    rw [straight.cartesian_eq_beside, Vec2.ahead_zero]
  have side : let away := (path.cartesian place offset).sub (path.cartesian place 0)
      away.y * (path.direction place).x - away.x * (path.direction place).y = offset := by
    have unit := straight.unit
    rw [foot, straight.cartesian_eq_beside, straight.direction_eq]
    simp only [Vec2.dot, Vec2.sub, Vec2.ahead, Vec2.left] at unit ⊢
    linear_combination offset * unit
  rw [offsetAt_eq]
  dsimp only at side ⊢
  rw [side, foot, straight.cartesian_eq_beside, length, signum_mul_abs]

end Straight

section Dense

variable {start : ℝ} {dense : List ℝ}

theorem runningTotals_ahead (unit : direction.dot direction = 1)
    (ascending : (start :: dense).Pairwise (· ≤ ·)) :
    runningTotals start
        (stepLengths stepBetween ((start :: dense).map (origin.ahead direction))) = dense := by
  induction dense generalizing start with
  | nil => rfl
  | cons next dense ih =>
      obtain ⟨before, later⟩ := List.pairwise_cons.mp ascending
      have step : stepBetween (origin.ahead direction start) (origin.ahead direction next) =
          next - start := by
        rw [stepBetween, norm_sub_ahead unit, abs_of_nonneg]
        exact sub_nonneg.mpr (before next List.mem_cons_self)
      have rest := ih later
      simp only [List.map_cons, stepLengths, runningTotals, step, add_sub_cancel] at rest ⊢
      rw [rest]

theorem eq_ahead_of_passes (unit : direction.dot direction = 1)
    (ascending : (start :: dense).Pairwise (· ≤ ·)) {spot : Vec2 ℝ}
    (passes : Passes start ((start :: dense).map (origin.ahead direction)) place spot) :
    spot = origin.ahead direction place := by
  induction dense generalizing start with
  | nil => cases passes
  | cons next dense ih =>
      obtain ⟨before, later⟩ := List.pairwise_cons.mp ascending
      have side : (Segment.mk (origin.ahead direction start) (origin.ahead direction next)).length =
          next - start := by
        rw [Segment.length, norm_sub_ahead unit, abs_sub_comm, abs_of_nonneg]
        exact sub_nonneg.mpr (before next List.mem_cons_self)
      simp only [List.map_cons] at passes ih
      rcases Passes.cons_iff.mp passes with ⟨share, -, -, rfl, rfl⟩ | passes
      · rw [Vec2.toward_ahead, side]
      · rw [side, add_sub_cancel] at passes
        exact ih later passes

theorem onPolyline_ahead (low : start ≤ place)
    (high : place ≤ (start :: dense).getLast (List.cons_ne_nil _ _)) :
    OnPolyline ((start :: dense).map (origin.ahead direction)) (origin.ahead direction place) := by
  induction dense generalizing start with
  | nil =>
      obtain rfl : place = start := le_antisymm high low
      exact .corner
  | cons next dense ih =>
      rcases le_total place next with here | beyond
      · rcases eq_or_lt_of_le (low.trans here) with rfl | ahead
        · obtain rfl : place = start := le_antisymm here low
          exact .corner
        · have way : 0 < next - start := sub_pos.mpr ahead
          have on : OnPolyline ((start :: next :: dense).map (origin.ahead direction))
              ((origin.ahead direction start).toward (origin.ahead direction next)
                ((place - start) / (next - start))) :=
            .between (div_nonneg (sub_nonneg.mpr low) way.le) ((div_le_one way).mpr (by linarith))
          rw [Vec2.toward_ahead, div_mul_cancel₀ _ way.ne', add_sub_cancel] at on
          exact on
      · rw [List.getLast_cons_cons] at high
        exact .later (ih beyond high)

end Dense

section Frenet

variable {dense : List ℝ}

namespace Straight

variable (straight : path.Straight origin direction) (sampled : path.SampledAt dense)

include straight sampled

theorem outline_eq : path.outline = dense.map (origin.ahead direction) := by
  rw [sampled.outline]
  exact List.map_congr_left fun place _ => straight.point place

theorem projectToPolyline_cartesian (low : 0 ≤ place) (high : place ≤ path.lastPlace)
    (offset : ℝ) : projectToPolyline path.outline (path.cartesian place offset) = .ok place := by
  have outline := straight.outline_eq sampled
  obtain ⟨progress, projected, -⟩ :=
    completes_projectToPolyline sampled.two_le_outline (path.cartesian place offset)
  obtain ⟨spot, passes, nearest⟩ := nearest_of_projectToPolyline projected
  obtain ⟨later, rfl⟩ := sampled.exists_cons
  rw [outline] at passes nearest
  have on : OnPolyline ((0 :: later).map (origin.ahead direction)) (origin.ahead direction place) :=
    onPolyline_ahead low (high.trans_eq (sampled.getLast_eq (List.cons_ne_nil _ _)).symm)
  have least := nearest _ on
  rw [eq_ahead_of_passes straight.unit sampled.ascending passes, straight.cartesian_eq_beside,
    norm_sub_beside straight.unit, norm_sub_beside straight.unit] at least
  have square := (Real.sqrt_le_sqrt_iff (add_nonneg (mul_self_nonneg _) (mul_self_nonneg _))).mp least
  have same : place - progress = 0 := by
    rw [sub_self, zero_mul, zero_add] at square
    exact mul_self_eq_zero.mp (le_antisymm (by linarith) (mul_self_nonneg _))
  rw [projected, sub_eq_zero.mp same]

theorem places_eq : places path.outline = dense := by
  obtain ⟨later, rfl⟩ := sampled.exists_cons
  rw [straight.outline_eq sampled, places, progressOf,
    runningTotals_ahead straight.unit sampled.ascending]

theorem placeOfProgress_eq (low : 0 ≤ place) (high : place ≤ path.lastPlace) :
    path.placeOfProgress place = place := by
  have same := straight.places_eq sampled
  have long : place ≤ chordLength path.outline := by
    rwa [chordLength, same, sampled.last]
  obtain ⟨index, share, lies, told⟩ := sampled.exists_blend low long
  rw [told, ← same]
  exact lies.told

theorem frenet_cartesian_eq (low : 0 ≤ place) (high : place ≤ path.lastPlace) (offset : ℝ) :
    path.frenet (path.cartesian place offset) = .ok ⟨place, offset⟩ := by
  rw [frenet, straight.projectToPolyline_cartesian sampled low high offset]
  simp only [bind, Except.bind, pure, Except.pure, straight.placeOfProgress_eq sampled low high,
    straight.offsetAt_cartesian]

theorem ofEgo_eq (low : 0 ≤ place) (high : place ≤ path.lastPlace) {offset height turn : ℝ}
    (level : Real.cos turn ≠ 0) {odometry : Odometry ℝ}
    (posed : odometry.pose = ⟨⟨(path.cartesian place offset).x, (path.cartesian place offset).y,
      height⟩, .aboutVertical (path.yaw place + turn)⟩) (acceleration : AccelerationReport ℝ) :
    FrenetState.ofEgo path odometry acceleration = odometry.speed.map fun speed =>
      ⟨⟨place, offset⟩, speed, acceleration.longitudinal, Real.tan turn, 0⟩ := by
  have found : path.frenet odometry.pose.planarPosition = .ok ⟨place, offset⟩ := by
    rw [posed]
    exact straight.frenet_cartesian_eq sampled low high offset
  -- The heading is known up to full turns only, and so are the angles computed from it.
  have away : ((normalizeAngle (odometry.pose.heading - path.yaw place) : ℝ) : Real.Angle) =
      turn := by
    rw [posed, Pose.heading_aboutVertical, coe_normalizeAngle, Real.Angle.coe_sub,
      coe_normalizeAngle, Real.Angle.coe_add, add_sub_cancel_left]
  have cosine := congrArg Real.Angle.cos away
  have rate := congrArg Real.Angle.tan away
  rw [Real.Angle.cos_coe, Real.Angle.cos_coe] at cosine
  rw [Real.Angle.tan_coe, Real.Angle.tan_coe] at rate
  have slanted : ¬ sameAs (Scalar.cos
      (normalizeAngle (odometry.pose.heading - path.yaw place))) 0 = true := by
    rw [Exact.sameAs_iff]
    exact cosine.trans_ne level
  change Scalar.tan _ = _ at rate
  unfold FrenetState.ofEgo
  rw [found]
  simp only [bind, Except.bind, pure, Except.pure, straight.curvature_eq_zero,
    FrenetState.curvatureChange, if_neg slanted, rate, zero_mul, mul_zero, zero_div, sub_zero,
    one_mul, add_zero, neg_zero]
  cases odometry.speed <;> rfl

end Straight

end Frenet

end Ray

section Built

variable {direction : Vec2 ℝ} {points : List (Vec2 ℝ)} {spacing : ℝ} {path : ReferencePath ℝ}

theorem straight_of_throughDistinct (unit : direction.dot direction = 1)
    (advances : Advances direction points) (built : throughDistinct points spacing = .ok path) :
    path.lastPlace = chordLength points ∧
      ∃ origin dense, path.Straight origin direction ∧ path.SampledAt dense := by
  obtain ⟨dense, outlined⟩ := exists_sampledAt built
  obtain ⟨two, xs, ys, count, fitted, fitted', -, rfl⟩ := throughDistinct_eq_ok_iff.mp built
  obtain ⟨first, rest, rfl⟩ := List.exists_cons_of_length_pos (by omega : 0 < points.length)
  have abscissas := Spline.through_of_aligned fitted
    (knots_aligned unit Vec2.x direction.x (fun _ _ => rfl) advances 0)
  have ordinates := Spline.through_of_aligned fitted'
    (knots_aligned unit Vec2.y direction.y (fun _ _ => rfl) advances 0)
  refine ⟨rfl, first, dense, ⟨unit, ?_, ?_, ?_⟩, outlined⟩
  · intro place
    simp only [point, sampled, (abscissas place).1, (ordinates place).1, Vec2.ahead, mul_zero,
      sub_zero, mul_comm place]
  · intro place
    simp only [tangent, sampled, (abscissas place).2.1, (ordinates place).2.1]
  · intro place
    simp only [bend, sampled, (abscissas place).2.2, (ordinates place).2.2]

theorem length_zipWith_of_paired {abscissas ordinates : List ℝ}
    (paired : abscissas.length = ordinates.length) :
    (List.zipWith Vec2.mk abscissas ordinates).length = abscissas.length := by
  rw [List.length_zipWith, ← paired, Nat.min_self]

theorem sampled_outline_length (xs ys : Spline ℝ) (lastPlace : ℝ) (count : Nat) :
    (sampled xs ys lastPlace count).outline.length - 1 = count - 1 := by
  simp [sampled, evenPlaces]

theorem lastPlace_le_of_throughDistinct (positive : 0 < spacing)
    (built : throughDistinct points spacing = .ok path) :
    path.lastPlace ≤ ((path.outline.length - 1 : Nat) : ℝ) * spacing := by
  obtain ⟨-, xs, ys, count, -, -, counted, rfl⟩ := throughDistinct_eq_ok_iff.mp built
  obtain rfl := Except.ok.inj ((sampleCount_eq ..).symm.trans counted)
  have enough : ⌈chordLength points / spacing⌉ ≤
      ((samplesAlong (chordLength points) spacing - 1 : Nat) : ℤ) := by
    unfold samplesAlong
    omega
  have short := (div_le_iff₀ positive).mp
    ((Int.le_ceil (chordLength points / spacing)).trans (Int.cast_le.mpr enough))
  rw [sampled_outline_length]
  exact_mod_cast short

/-- There is a path through any points that advance in one direction, sampled at the spacing or
closer. It is flat, tells place and offset back exactly, and gives an ego vehicle that is headed away
from it by an angle the tangent of this angle as its lateral rate. -/
theorem straight_round_trip (unit : direction.dot direction = 1)
    {abscissas ordinates : List ℝ} (paired : abscissas.length = ordinates.length)
    (two : 2 ≤ abscissas.length)
    (advances : Advances direction (List.zipWith Vec2.mk abscissas ordinates))
    (positive : 0 < spacing) :
    Yields (through abscissas ordinates spacing) fun path =>
      path.lastPlace = chordLength (List.zipWith Vec2.mk abscissas ordinates) ∧
      path.lastPlace ≤ ((path.outline.length - 1 : Nat) : ℝ) * spacing ∧
      ∀ place, 0 ≤ place → place ≤ path.lastPlace → path.curvature place = 0 ∧
        ∀ offset, path.frenet (path.cartesian place offset) = .ok ⟨place, offset⟩ ∧
          ∀ height turn, Real.cos turn ≠ 0 →
            Yields (Pose.planar
              ⟨(path.cartesian place offset).x, (path.cartesian place offset).y, height⟩
              (path.yaw place + turn)) fun pose =>
                ∀ odometry : Odometry ℝ, odometry.pose = pose → ∀ acceleration,
                  FrenetState.ofEgo path odometry acceleration = odometry.speed.map fun speed =>
                    ⟨⟨place, offset⟩, speed, acceleration.longitudinal, Real.tan turn, 0⟩ := by
  have strides := advances.strides unit
  have full := length_zipWith_of_paired paired
  have some : abscissas ≠ [] := List.ne_nil_of_length_pos (Nat.lt_of_lt_of_le Nat.two_pos two)
  -- No two points coincide, so nothing refuses a path through them.
  have passable : ∀ fault, ¬ Impassable (List.zipWith Vec2.mk abscissas ordinates) fault := by
    rintro fault (few | ⟨-, halts⟩)
    · omega
    · exact halts (apart_of_strides strides)
  obtain ⟨path, built, -⟩ := yields_throughDistinct passable spacing
  obtain ⟨last, origin, dense, straight, sampled⟩ := straight_of_throughDistinct unit advances built
  refine ⟨path, ?_, last, lastPlace_le_of_throughDistinct positive built,
    fun place low high => ⟨straight.curvature_eq_zero place, fun offset =>
      ⟨straight.frenet_cartesian_eq sampled low high offset, fun height turn level => ?_⟩⟩⟩
  · rwa [through_eq_throughDistinct paired some, distinct_of_strides strides]
  · refine ⟨_, Pose.planar_eq _ _, ?_⟩
    intro odometry posed acceleration
    exact straight.ofEgo_eq sampled low high level posed acceleration

theorem unit_slope : (⟨3 / 5, 4 / 5⟩ : Vec2 ℝ).dot ⟨3 / 5, 4 / 5⟩ = 1 := by
  simp only [Vec2.dot]
  norm_num

theorem advances_slope : Advances ⟨3 / 5, 4 / 5⟩ [⟨0, 0⟩, ⟨3, 4⟩, ⟨9, 12⟩] := by
  refine .cons_cons ⟨5, ?_, ?_⟩ (.cons_cons ⟨10, ?_, ?_⟩ (.singleton _)) <;>
    norm_num [leastStep, Vec2.ahead]

theorem chordLength_slope : chordLength [⟨0, 0⟩, ⟨3, 4⟩, ⟨9, 12⟩] = 15 := by
  have first : stepBetween ⟨0, 0⟩ ⟨3, 4⟩ = (5 : ℝ) := by
    convert stepBetween_ahead unit_slope ⟨0, 0⟩ (by norm_num : (0 : ℝ) ≤ 5) using 2
    norm_num [Vec2.ahead]
  have second : stepBetween ⟨3, 4⟩ ⟨9, 12⟩ = (10 : ℝ) := by
    convert stepBetween_ahead unit_slope ⟨3, 4⟩ (by norm_num : (0 : ℝ) ≤ 10) using 2
    norm_num [Vec2.ahead]
  simp only [chordLength, places, stepLengths, progressOf, runningTotals, first, second]
  norm_num

theorem slope_round_trip : (⟨3 / 5, 4 / 5⟩ : Vec2 ℝ).dot ⟨3 / 5, 4 / 5⟩ = 1 ∧
    ([0, 3, 9] : List ℝ).length = ([0, 4, 12] : List ℝ).length ∧
    2 ≤ ([0, 3, 9] : List ℝ).length ∧
    Advances ⟨3 / 5, 4 / 5⟩ (List.zipWith Vec2.mk [0, 3, 9] [0, 4, 12]) ∧
    (0 : ℝ) < defaultSpacing ∧ Real.cos (Real.pi / 4) ≠ 0 ∧
    ∃ path, through [0, 3, 9] [0, 4, 12] defaultSpacing = .ok path ∧ path.lastPlace = 15 ∧
      path.curvature 7 = 0 ∧ path.frenet (path.cartesian 7 (-2)) = .ok ⟨7, -2⟩ ∧
      Yields (Pose.planar ⟨(path.cartesian 7 (-2)).x, (path.cartesian 7 (-2)).y, 0⟩
        (path.yaw 7 + Real.pi / 4)) fun pose =>
          FrenetState.ofEgo path ⟨0, pose, [8, 0, 0]⟩ ⟨0, 1 / 2, 0⟩ =
            .ok ⟨⟨7, -2⟩, 8, 1 / 2, 1, 0⟩ := by
  have positive : (0 : ℝ) < defaultSpacing := by
    unfold defaultSpacing
    norm_num
  have level : Real.cos (Real.pi / 4) ≠ 0 := by
    rw [Real.cos_pi_div_four]
    positivity
  have paired : ([0, 3, 9] : List ℝ).length = ([0, 4, 12] : List ℝ).length := rfl
  have two : 2 ≤ ([0, 3, 9] : List ℝ).length := Nat.le_add_left 2 1
  have length : chordLength (List.zipWith Vec2.mk [0, 3, 9] [0, 4, 12]) = 15 := chordLength_slope
  obtain ⟨path, built, last, -, state⟩ :=
    straight_round_trip unit_slope paired two advances_slope positive
  rw [length] at last
  have inside : (7 : ℝ) ≤ path.lastPlace := by
    rw [last]
    norm_num
  obtain ⟨flat, position⟩ := state 7 (by norm_num) inside
  obtain ⟨found, posed⟩ := position (-2)
  obtain ⟨pose, planar, told⟩ := posed 0 (Real.pi / 4) level
  refine ⟨unit_slope, paired, two, advances_slope, positive, level, path, built, last, flat, found,
    pose, planar, ?_⟩
  have moving := told ⟨0, pose, [8, 0, 0]⟩ rfl ⟨0, 1 / 2, 0⟩
  rw [Real.tan_pi_div_four] at moving
  exact moving

end Built

end ReferencePath

end ManeuverRanking
