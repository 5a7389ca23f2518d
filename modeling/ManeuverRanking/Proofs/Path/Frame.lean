import Mathlib.Analysis.SpecialFunctions.Complex.Arg
import ManeuverRanking.Path.FrenetState
import ManeuverRanking.Proofs.Geometry.Direction
import ManeuverRanking.Proofs.Geometry.Projection
import ManeuverRanking.Proofs.Path.Linearity

/-!
Reference paths do not depend on the choice of the map frame. The path through moved points is the
moved path: distances decide which points are kept, where the knots lie and how many samples there
are, and each moved coordinate is a mix of both coordinates, so its spline is a mix of splines.
-/

namespace ManeuverRanking

namespace RigidMotion

variable (motion : RigidMotion)

noncomputable def abscissa : Mix :=
  ⟨Real.cos motion.yaw, -Real.sin motion.yaw, motion.shift.x⟩

noncomputable def ordinate : Mix :=
  ⟨Real.sin motion.yaw, Real.cos motion.yaw, motion.shift.y⟩

theorem spot_eq (position : Vec2 ℝ) : motion.spot position =
    ⟨motion.abscissa.value position.x position.y, motion.ordinate.value position.x position.y⟩ := by
  simp only [spot, abscissa, ordinate, Mix.value, Vec2.mk.injEq]
  constructor <;> ring

theorem way_eq (step : Vec2 ℝ) : motion.way step =
    ⟨motion.abscissa.change step.x step.y, motion.ordinate.change step.x step.y⟩ := by
  simp only [way, abscissa, ordinate, Mix.change, Vec2.mk.injEq]
  constructor <;> ring

noncomputable def path (path : ReferencePath ℝ) : ReferencePath ℝ :=
  { path with
    xs := motion.abscissa.spline path.xs path.ys
    ys := motion.ordinate.spline path.xs path.ys
    outline := path.outline.map motion.spot }

end RigidMotion

theorem knots_mix (mix : Mix) (places : List ℝ) (points : List (Vec2 ℝ)) :
    List.zipWith Knot.mk places (points.map fun point => mix.value point.x point.y) =
      List.zipWith mix.knot (List.zipWith Knot.mk places (points.map Vec2.x))
        (List.zipWith Knot.mk places (points.map Vec2.y)) := by
  induction points generalizing places with
  | nil => simp
  | cons point rest ih =>
      cases places with
      | nil => rfl
      | cons place places =>
          simp only [List.map_cons, List.zipWith_cons_cons, ih]
          rfl

theorem knots_samePlace (places : List ℝ) (points : List (Vec2 ℝ)) :
    List.Forall₂ Knot.SamePlace (List.zipWith Knot.mk places (points.map Vec2.x))
      (List.zipWith Knot.mk places (points.map Vec2.y)) := by
  induction points generalizing places with
  | nil => simp
  | cons point rest ih =>
      cases places with
      | nil => exact .nil
      | cons place places => exact .cons ⟨rfl⟩ (ih places)

namespace ReferencePath

variable (motion : RigidMotion)

theorem stepBetween_spot (start stop : Vec2 ℝ) :
    stepBetween (motion.spot start) (motion.spot stop) = stepBetween start stop := by
  rw [stepBetween, RigidMotion.spot_sub_spot, RigidMotion.norm_way, stepBetween]

theorem distinctAfter_spot (before : Vec2 ℝ) (points : List (Vec2 ℝ)) :
    distinctAfter (motion.spot before) (points.map motion.spot) =
      (distinctAfter before points).map motion.spot := by
  induction points generalizing before with
  | nil => rfl
  | cons point rest ih =>
      simp only [List.map_cons, distinctAfter, RigidMotion.spot_sub_spot, RigidMotion.norm_way, ih]
      split <;> rfl

theorem distinct_spot (points : List (Vec2 ℝ)) :
    distinct (points.map motion.spot) = (distinct points).map motion.spot := by
  cases points with
  | nil => rfl
  | cons first rest => simp only [List.map_cons, distinct, distinctAfter_spot]

theorem places_spot (points : List (Vec2 ℝ)) : places (points.map motion.spot) = places points := by
  rw [places, stepLengths_map (stepBetween_spot motion), places]

variable {points : List (Vec2 ℝ)} {spacing : ℝ} {path : ReferencePath ℝ}

theorem sampled_mix {xs ys : Spline ℝ} (same : xs.SamePlaces ys) (lastPlace : ℝ) (count : Nat) :
    sampled (motion.abscissa.spline xs ys) (motion.ordinate.spline xs ys) lastPlace count =
      motion.path (sampled xs ys lastPlace count) := by
  have outline (dense : List ℝ) : (dense.map fun place =>
      (⟨(motion.abscissa.spline xs ys).value place,
        (motion.ordinate.spline xs ys).value place⟩ : Vec2 ℝ)) =
      (dense.map fun place => (⟨xs.value place, ys.value place⟩ : Vec2 ℝ)).map motion.spot := by
    simp only [List.map_map, Function.comp_def, Spline.value_mix _ same, RigidMotion.spot_eq]
  simp only [sampled, RigidMotion.path, outline, stepLengths_map (stepBetween_spot motion)]

theorem throughDistinct_spot (built : throughDistinct points spacing = .ok path) :
    path.xs.SamePlaces path.ys ∧
      throughDistinct (points.map motion.spot) spacing = .ok (motion.path path) := by
  obtain ⟨two, xs, ys, count, fitted, fitted', counted, rfl⟩ := throughDistinct_eq_ok_iff.mp built
  have places := knots_samePlace (places points) points
  obtain ⟨same, moved⟩ := Spline.through_mix motion.abscissa places fitted fitted'
  obtain ⟨-, moved'⟩ := Spline.through_mix motion.ordinate places fitted fitted'
  have abscissas : (points.map motion.spot).map Vec2.x =
      points.map fun point => motion.abscissa.value point.x point.y := by
    simp only [List.map_map, Function.comp_def, RigidMotion.spot_eq]
  have ordinates : (points.map motion.spot).map Vec2.y =
      points.map fun point => motion.ordinate.value point.x point.y := by
    simp only [List.map_map, Function.comp_def, RigidMotion.spot_eq]
  refine ⟨same, throughDistinct_eq_ok_iff.mpr ⟨?_, motion.abscissa.spline xs ys,
    motion.ordinate.spline xs ys, count, ?_, ?_, ?_, ?_⟩⟩
  · rwa [List.length_map]
  · rw [places_spot, abscissas, knots_mix, moved]
  · rw [places_spot, ordinates, knots_mix, moved']
  · rw [places_spot, counted]
  · rw [places_spot, sampled_mix motion same]

section

variable (same : path.xs.SamePlaces path.ys)

include same

theorem point_path (place : ℝ) : (motion.path path).point place = motion.spot (path.point place) := by
  simp only [point, RigidMotion.path, Spline.value_mix _ same, RigidMotion.spot_eq]

theorem tangent_path (place : ℝ) :
    (motion.path path).tangent place = motion.way (path.tangent place) := by
  simp only [tangent, RigidMotion.path, Spline.derivative_mix _ same, RigidMotion.way_eq]

theorem bend_path (place : ℝ) :
    (motion.path path).bend place = motion.way (path.bend place) := by
  simp only [bend, RigidMotion.path, Spline.secondDerivative_mix _ same, RigidMotion.way_eq]

theorem curvature_path (place : ℝ) :
    (motion.path path).curvature place = path.curvature place := by
  have curvature_eq (path : ReferencePath ℝ) : path.curvature place =
      let squared := (path.tangent place).dot (path.tangent place)
      let denominator := squared * Scalar.sqrt squared
      if sameAs denominator 0 then 0
      else ((path.tangent place).x * (path.bend place).y -
        (path.tangent place).y * (path.bend place).x) / denominator := rfl
  have cross := motion.cross_way (path.bend place) (path.tangent place)
  rw [curvature_eq, curvature_eq]
  simp only [tangent_path motion same, bend_path motion same, RigidMotion.dot_way]
  congr 2
  linear_combination cross

theorem yaw_path {place : ℝ} (goes : path.Goes place) :
    (((motion.path path).yaw place : ℝ) : Real.Angle) = path.yaw place + motion.yaw := by
  have yaw_eq (path : ReferencePath ℝ) :
      path.yaw place = Scalar.atan2 (path.tangent place).y (path.tangent place).x := rfl
  rw [yaw_eq, yaw_eq, tangent_path motion same]
  apply atan2_turn
  rintro ⟨x, y⟩
  exact goes (congrArg₂ Vec2.mk x y)

theorem direction_path {place : ℝ} (goes : path.Goes place) :
    (motion.path path).direction place = motion.way (path.direction place) := by
  have yaw := yaw_path motion same goes
  have sine := congrArg Real.Angle.sin yaw
  have cosine := congrArg Real.Angle.cos yaw
  simp only [← Real.Angle.coe_add, Real.Angle.sin_coe, Real.Angle.cos_coe, Real.sin_add,
    Real.cos_add] at sine cosine
  simp only [direction, RigidMotion.way, sine, cosine, Vec2.mk.injEq, true_and]
  ring

theorem cartesian_path {place : ℝ} (goes : path.Goes place) (offset : ℝ) :
    (motion.path path).cartesian place offset = motion.spot (path.cartesian place offset) := by
  simp only [cartesian_eq, point_path motion same, direction_path motion same goes,
    RigidMotion.spot, RigidMotion.way, Vec2.mk.injEq]
  constructor <;> ring

theorem offsetAt_path {place : ℝ} (goes : path.Goes place) (position : Vec2 ℝ) :
    (motion.path path).offsetAt place (motion.spot position) = path.offsetAt place position := by
  simp only [offsetAt_eq, cartesian_path motion same goes, RigidMotion.spot_sub_spot,
    direction_path motion same goes, RigidMotion.cross_way, RigidMotion.norm_way]

theorem frenet_path {position : Vec2 ℝ} {foot : FrenetPoint ℝ}
    (found : path.frenet position = .ok foot) (goes : path.Goes foot.along) :
    (motion.path path).frenet (motion.spot position) = .ok foot := by
  obtain ⟨progress, projected, told⟩ := (bind_eq_ok_iff ..).mp found
  cases told
  have moved : projectToPolyline (motion.path path).outline (motion.spot position) =
      .ok progress := by
    rw [RigidMotion.path, RigidMotion.projectToPolyline_spot, projected]
  -- The place is read off a table over the progress, which the motion leaves as it is.
  have offset := offsetAt_path motion same goes position
  rw [frenet, moved]
  exact congrArg (fun offset => Except.ok (FrenetPoint.mk _ offset)) offset

theorem curvatureChange_path (place : ℝ) :
    FrenetState.curvatureChange (motion.path path) place =
      FrenetState.curvatureChange path place := by
  simp only [FrenetState.curvatureChange, curvature_path motion same]

theorem relativeYaw_path {place : ℝ} (goes : path.Goes place) (heading : ℝ) :
    normalizeAngle (normalizeAngle (heading + motion.yaw) - (motion.path path).yaw place) =
      normalizeAngle (normalizeAngle heading - path.yaw place) := by
  -- Both headings are known up to full turns only; the outer reduction takes these away.
  apply normalizeAngle_congr
  rw [Real.Angle.coe_sub, Real.Angle.coe_sub, coe_normalizeAngle, coe_normalizeAngle,
    yaw_path motion same goes, Real.Angle.coe_add, add_sub_add_right_eq_sub]

theorem ofEgo_path {position : Vec3 ℝ} {foot : FrenetPoint ℝ}
    (found : path.frenet ⟨position.x, position.y⟩ = .ok foot) (goes : path.Goes foot.along)
    (heading : ℝ) (odometry : Odometry ℝ) (acceleration : AccelerationReport ℝ) :
    FrenetState.ofEgo (motion.path path)
        { odometry with
          pose := ⟨motion.move position, .aboutVertical (heading + motion.yaw)⟩ } acceleration =
      FrenetState.ofEgo path
        { odometry with pose := ⟨position, .aboutVertical heading⟩ } acceleration := by
  have moved : (motion.path path).frenet
      (Pose.mk (motion.move position) (.aboutVertical (heading + motion.yaw))).planarPosition =
        .ok foot :=
    frenet_path motion same found goes
  unfold FrenetState.ofEgo
  dsimp only
  rw [moved, show path.frenet (Pose.mk position (.aboutVertical heading)).planarPosition = .ok foot
    from found]
  simp only [bind, Except.bind, Pose.heading_aboutVertical, relativeYaw_path motion same goes,
    curvature_path motion same, curvatureChange_path motion same]
  rfl

end

structure MovesTo (path moved : ReferencePath ℝ) : Prop where
  lastPlace : moved.lastPlace = path.lastPlace
  curvature : ∀ place, moved.curvature place = path.curvature place
  yaw : ∀ place, path.Goes place →
    ((moved.yaw place : ℝ) : Real.Angle) = path.yaw place + motion.yaw
  cartesian : ∀ place, path.Goes place → ∀ offset,
    moved.cartesian place offset = motion.spot (path.cartesian place offset)
  frenet : ∀ position, Yields (path.frenet position) fun foot =>
    path.Goes foot.along → moved.frenet (motion.spot position) = .ok foot
  state : ∀ position heading, Yields (Pose.planar position heading) fun pose =>
    Yields (Pose.planar (motion.move position) (heading + motion.yaw)) fun pose' =>
      ∀ foot, path.frenet pose.planarPosition = .ok foot → path.Goes foot.along →
        ∀ (odometry : Odometry ℝ) (acceleration : AccelerationReport ℝ),
          FrenetState.ofEgo moved { odometry with pose := pose' } acceleration =
            FrenetState.ofEgo path { odometry with pose := pose } acceleration

theorem movesTo_path (same : path.xs.SamePlaces path.ys) (two : 2 ≤ path.outline.length) :
    path.MovesTo motion (motion.path path) where
  lastPlace := rfl
  curvature := curvature_path motion same
  yaw := fun _ => yaw_path motion same
  cartesian := fun _ => cartesian_path motion same
  frenet := by
    intro position
    obtain ⟨foot, found, -⟩ := completes_frenet two position
    exact ⟨foot, found, frenet_path motion same found⟩
  state := by
    intro position heading
    refine ⟨_, Pose.planar_eq position heading, _, Pose.planar_eq _ _, ?_⟩
    intro foot found goes odometry acceleration
    exact ofEgo_path motion same found goes heading odometry acceleration

theorem zipWith_spot (abscissas ordinates : List ℝ) :
    List.zipWith Vec2.mk
        (List.zipWith (fun x y => (motion.spot ⟨x, y⟩).x) abscissas ordinates)
        (List.zipWith (fun x y => (motion.spot ⟨x, y⟩).y) abscissas ordinates) =
      (List.zipWith Vec2.mk abscissas ordinates).map motion.spot := by
  induction abscissas generalizing ordinates with
  | nil => rfl
  | cons x abscissas ih =>
      cases ordinates with
      | nil => rfl
      | cons y ordinates => simp only [List.zipWith_cons_cons, List.map_cons, ih]

/-- The path through moved points is the moved path. -/
theorem through_spot {abscissas ordinates : List ℝ} {spacing : ℝ} {path : ReferencePath ℝ}
    (built : through abscissas ordinates spacing = .ok path) (motion : RigidMotion) :
    ∃ moved, through (List.zipWith (fun x y => (motion.spot ⟨x, y⟩).x) abscissas ordinates)
        (List.zipWith (fun x y => (motion.spot ⟨x, y⟩).y) abscissas ordinates) spacing =
          .ok moved ∧
      path.MovesTo motion moved := by
  obtain ⟨paired, built⟩ := through_eq_ok_iff.mp built
  obtain ⟨same, moved⟩ := throughDistinct_spot motion built
  refine ⟨motion.path path, through_eq_ok_iff.mpr ⟨?_, ?_⟩,
    movesTo_path motion same (two_le_outline built)⟩
  · rw [List.length_zipWith, List.length_zipWith]
  · rw [zipWith_spot, distinct_spot, moved]

noncomputable def unitPath : ReferencePath ℝ :=
  sampled ⟨⟨0, 0, 1, 0, 0⟩, []⟩ ⟨⟨0, 0, 0, 0, 0⟩, []⟩ 1 2

theorem through_unitChord (start stop : ℝ) :
    Spline.through [⟨0, start⟩, ⟨1, stop⟩] = .ok ⟨⟨0, start, stop - start, 0, 0⟩, []⟩ := by
  rw [Spline.through_eq_ok_iff]
  refine ⟨by simp [Spline.usable, chordsOf, Chord.width], ⟨⟨0, start⟩, ⟨1, stop⟩⟩, [], rfl, ?_⟩
  simp only [Spline.slopesOver, startEquation, laterEquations, solveTridiagonal,
    Equation.eliminate, Spline.pieces, Cubic.ofSlopes, Chord.width, Chord.rise, Chord.slope,
    Exact.two_eq, Exact.three_eq, List.cons.injEq, Cubic.mk.injEq, true_and, and_true]
  refine ⟨?_, ?_, ?_⟩ <;> ring

theorem through_eq_unitPath : through [0, 1] [0, 0] 1 = .ok unitPath := by
  have unit : ((⟨1, 0⟩ : Vec2 ℝ).sub ⟨0, 0⟩).norm = 1 := by
    change Real.sqrt ((1 - 0) * (1 - 0) + (0 - 0) * (0 - 0)) = 1
    norm_num
  have apart : (leastStep : ℝ) < ((⟨1, 0⟩ : Vec2 ℝ).sub ⟨0, 0⟩).norm := by
    rw [unit, leastStep]
    norm_num
  have kept : distinct [(⟨0, 0⟩ : Vec2 ℝ), ⟨1, 0⟩] = [⟨0, 0⟩, ⟨1, 0⟩] := by
    rw [distinct, distinctAfter, if_pos apart, distinctAfter]
  have placed : places [(⟨0, 0⟩ : Vec2 ℝ), ⟨1, 0⟩] = [0, 1] := by
    simp [places, stepLengths, stepBetween, progressOf, runningTotals, unit]
  have abscissas := through_unitChord 0 1
  have ordinates := through_unitChord 0 0
  rw [sub_zero] at abscissas ordinates
  have samples : samplesAlong 1 1 = 2 := by
    simp [samplesAlong]
  have counted : sampleCount (1 : ℝ) 1 = .ok 2 := by
    rw [sampleCount_eq, samples]
  refine through_eq_ok_iff.mpr ⟨rfl, ?_⟩
  rw [List.zipWith_cons_cons, List.zipWith_cons_cons, List.zipWith_nil_left, kept,
    throughDistinct_eq_ok_iff, placed]
  exact ⟨le_refl 2, _, _, 2, abscissas, ordinates, counted, rfl⟩

theorem goes_unitPath (place : ℝ) : unitPath.Goes place := by
  intro still
  have ahead : unitPath.xs.derivative place = 0 := congrArg Vec2.x still
  simp [unitPath, sampled, Spline.derivative, Spline.pieceAt, Spline.pieceFrom, Cubic.derivative]
    at ahead

theorem unitPath_movesTo_turned : through [0, 1] [0, 0] 1 = .ok unitPath ∧
    ∃ moved, through [5, 5] [7, 8] 1 = .ok moved ∧
      unitPath.MovesTo ⟨Real.pi / 2, ⟨5, 7, 0⟩⟩ moved ∧ ∀ place, unitPath.Goes place := by
  have built := through_eq_unitPath
  obtain ⟨moved, found, moves⟩ := through_spot built ⟨Real.pi / 2, ⟨5, 7, 0⟩⟩
  refine ⟨built, moved, ?_, moves, goes_unitPath⟩
  convert found using 2
  · simp [RigidMotion.spot]
  · simp [RigidMotion.spot]
    norm_num

end ReferencePath

end ManeuverRanking
