import Mathlib.Analysis.SpecialFunctions.Complex.Arg
import ManeuverRanking.Path.Lattice
import ManeuverRanking.Proofs.Plan.Walk

/-!
Reference paths over the real numbers. A path fails for one of two causes: fewer than two points are
kept, or two successive kept points coincide. A point is dropped by its distance to the point before
it in the list and not to the last point that was kept, so kept points can coincide.
-/

namespace ManeuverRanking

section Spline

variable {α : Type} [Scalar α]

theorem length_solveTridiagonal (equation : Equation α) (later : List (Equation α)) :
    (solveTridiagonal equation later).2.length = later.length := by
  induction later generalizing equation with
  | nil => rfl
  | cons next rest ih => simp [solveTridiagonal, ih]

theorem laterEquations_ne_nil (chord : Chord α) (chords : List (Chord α)) :
    laterEquations chord chords ≠ [] := by
  cases chords <;> exact List.cons_ne_nil _ _

theorem completes_through {knots : List (Knot α)} (two : 2 ≤ knots.length)
    (usable : Spline.usable knots = true) : Completes (Spline.through knots) := by
  match knots, two with
  | first :: second :: rest, _ =>
      have solved := length_solveTridiagonal (startEquation ⟨first, second⟩)
        (laterEquations ⟨first, second⟩ (chordsOf (second :: rest)))
      have some := List.length_pos_iff.mpr
        (laterEquations_ne_nil ⟨first, second⟩ (chordsOf (second :: rest)))
      rw [← solved, List.length_pos_iff] at some
      obtain ⟨slope, slopes, listed⟩ := List.exists_cons_of_ne_nil some
      unfold Spline.through
      rw [if_pos usable]
      simp only [chordsOf, Spline.pieces, listed]
      exact completes_ok _

end Spline

namespace ReferencePath

section Built

variable {α : Type} [Scalar α]

def sampled (xs ys : Spline α) (lastPlace : α) (count : Nat) : ReferencePath α :=
  let dense := evenPlaces lastPlace count
  let outline := dense.map fun place => (⟨xs.value place, ys.value place⟩ : Vec2 α)
  ⟨xs, ys, lastPlace, outline,
    (List.zipWith Node.mk (progressOf (stepLengths stepBetween outline)) dense).toArray⟩

theorem throughDistinct_eq_ok_iff {points : List (Vec2 α)} {spacing : α} {path : ReferencePath α} :
    throughDistinct points spacing = .ok path ↔ 2 ≤ points.length ∧ ∃ xs ys count,
      Spline.through (List.zipWith Knot.mk (places points) (points.map Vec2.x)) = .ok xs ∧
      Spline.through (List.zipWith Knot.mk (places points) (points.map Vec2.y)) = .ok ys ∧
      sampleCount ((places points).getLast?.getD 0) spacing = .ok count ∧
      path = sampled xs ys ((places points).getLast?.getD 0) count := by
  unfold throughDistinct
  by_cases few : points.length < 2
  · rw [if_pos few]
    exact ⟨nofun, fun built => absurd few (Nat.not_lt.mpr built.1)⟩
  · rw [if_neg few]
    constructor
    · intro built
      obtain ⟨xs, abscissas, built⟩ := (bind_eq_ok_iff ..).mp built
      obtain ⟨ys, ordinates, built⟩ := (bind_eq_ok_iff ..).mp built
      obtain ⟨count, counted, built⟩ := (bind_eq_ok_iff ..).mp built
      exact ⟨Nat.not_lt.mp few, xs, ys, count, abscissas, ordinates, counted,
        (Except.ok.inj built).symm⟩
    · rintro ⟨-, xs, ys, count, abscissas, ordinates, counted, rfl⟩
      dsimp only
      rw [abscissas, ordinates, counted]
      rfl

end Built

noncomputable def chordLength (points : List (Vec2 ℝ)) : ℝ :=
  (places points).getLast?.getD 0

noncomputable def samplesAlong (length spacing : ℝ) : Nat :=
  (max (⌈length / spacing⌉ + 1) 2).toNat

inductive Impassable (points : List (Vec2 ℝ)) : Fault ℝ → Prop
  | tooFew (few : points.length < 2) : Impassable points .tooFewPathPoints
  | coincident (two : 2 ≤ points.length) (halts : ¬ points.IsChain (· ≠ ·)) :
      Impassable points .unusableKnots

theorem sampleCount_eq (length spacing : ℝ) :
    sampleCount length spacing = .ok (samplesAlong length spacing) := by
  rw [sampleCount, Exact.ceiling_eq]
  rfl

theorem two_le_samplesAlong (length spacing : ℝ) : 2 ≤ samplesAlong length spacing := by
  unfold samplesAlong
  omega

theorem length_places (points : List (Vec2 ℝ)) (some : points ≠ []) :
    (places points).length = points.length := by
  have positive := List.length_pos_iff.mpr some
  rw [places, progressOf, List.length_cons, length_runningTotals, length_stepLengths]
  omega

theorem widths_pos_iff (start : ℝ) (points : List (Vec2 ℝ)) {values : List ℝ}
    (full : values.length = points.length) :
    (∀ chord ∈ chordsOf (List.zipWith Knot.mk
      (start :: runningTotals start (stepLengths stepBetween points)) values), 0 < chord.width) ↔
      points.IsChain (· ≠ ·) := by
  induction points generalizing start values with
  | nil =>
      rw [List.length_eq_zero_iff.mp full]
      simp [chordsOf]
  | cons first rest ih =>
      cases rest with
      | nil =>
          obtain ⟨value, rfl⟩ := List.length_eq_one_iff.mp full
          simp [stepLengths, runningTotals, chordsOf]
      | cons second rest =>
          obtain ⟨value, values, rfl⟩ := List.exists_cons_of_length_eq_add_one full
          have full : values.length = (second :: rest).length := by
            simpa using full
          have later := ih (start + stepBetween first second) full
          obtain ⟨next, values, rfl⟩ := List.exists_cons_of_length_eq_add_one full
          have width : 0 < (Chord.mk ⟨start, value⟩
              ⟨start + stepBetween first second, next⟩).width ↔ first ≠ second := by
            rw [← Exact.norm_sub_pos_iff]
            simp [Chord.width, stepBetween]
          simp only [stepLengths, runningTotals, List.zipWith_cons_cons, chordsOf,
            List.forall_mem_cons, List.isChain_cons_cons] at later ⊢
          exact and_congr width later

theorem usable_iff {points : List (Vec2 ℝ)} {values : List ℝ}
    (full : values.length = points.length) :
    Spline.usable (List.zipWith Knot.mk (places points) values) = true ↔
      points.IsChain (· ≠ ·) := by
  rw [← widths_pos_iff 0 points full]
  simp [Spline.usable, places, progressOf]

theorem through_eq_of_halts {points : List (Vec2 ℝ)} (halts : ¬ points.IsChain (· ≠ ·))
    {values : List ℝ} (full : values.length = points.length) :
    Spline.through (List.zipWith Knot.mk (places points) values) = .error .unusableKnots := by
  unfold Spline.through
  rw [if_neg (fun usable => halts ((usable_iff full).mp usable))]

theorem completes_through_of_apart {points : List (Vec2 ℝ)} (two : 2 ≤ points.length)
    (apart : points.IsChain (· ≠ ·)) {values : List ℝ} (full : values.length = points.length) :
    Completes (Spline.through (List.zipWith Knot.mk (places points) values)) := by
  apply completes_through
  · have some : points ≠ [] := by
      rw [← List.length_pos_iff]
      omega
    rw [List.length_zipWith, length_places points some]
    omega
  · exact (usable_iff full).mpr apart

theorem throughDistinct_eq_error {points : List (Vec2 ℝ)} {spacing : ℝ} {fault : Fault ℝ}
    (impassable : Impassable points fault) :
    throughDistinct points spacing = .error fault := by
  unfold throughDistinct
  cases impassable with
  | tooFew few => rw [if_pos few]; rfl
  | coincident two halts =>
      rw [if_neg (Nat.not_lt.mpr two)]
      dsimp only
      rw [through_eq_of_halts halts (List.length_map _)]
      rfl

theorem two_le_evenPlaces (lastPlace : ℝ) {count : Nat} (two : 2 ≤ count) :
    2 ≤ (evenPlaces lastPlace count).length := by
  simp only [evenPlaces, List.length_append, List.length_map, List.length_range,
    List.length_singleton]
  omega

theorem yields_throughDistinct {points : List (Vec2 ℝ)}
    (passable : ∀ fault, ¬ Impassable points fault) (spacing : ℝ) :
    Yields (throughDistinct points spacing) fun path => 2 ≤ path.outline.length := by
  have two : 2 ≤ points.length := Nat.not_lt.mp fun few => passable _ (.tooFew few)
  have apart : points.IsChain (· ≠ ·) := by
    by_contra halts
    exact passable _ (.coincident two halts)
  unfold throughDistinct
  rw [if_neg (Nat.not_lt.mpr two)]
  apply (completes_through_of_apart two apart (List.length_map Vec2.x)).bind
  intro xs
  apply (completes_through_of_apart two apart (List.length_map Vec2.y)).bind
  intro ys
  rw [sampleCount_eq]
  apply Yields.ok
  rw [List.length_map]
  exact two_le_evenPlaces _ (two_le_samplesAlong _ _)

theorem two_le_outline {points : List (Vec2 ℝ)} {spacing : ℝ} {path : ReferencePath ℝ}
    (built : throughDistinct points spacing = .ok path) : 2 ≤ path.outline.length := by
  have passable : ∀ fault, ¬ Impassable points fault := by
    intro fault impassable
    cases (throughDistinct_eq_error impassable).symm.trans built
  obtain ⟨path', built', two⟩ := yields_throughDistinct passable spacing
  cases built.symm.trans built'
  exact two

theorem throughDistinct_eq_error_iff {points : List (Vec2 ℝ)} {spacing : ℝ} {fault : Fault ℝ} :
    throughDistinct points spacing = .error fault ↔ Impassable points fault := by
  constructor
  · intro failed
    by_contra other
    have passable : ∀ fault, ¬ Impassable points fault := by
      intro cause impassable
      have same := (throughDistinct_eq_error impassable).symm.trans failed
      rw [Except.error.injEq] at same
      exact other (same ▸ impassable)
    obtain ⟨path, done, -⟩ := yields_throughDistinct passable spacing
    cases done.symm.trans failed
  · exact throughDistinct_eq_error

theorem through_eq_ok_iff {abscissas ordinates : List ℝ} {spacing : ℝ} {path : ReferencePath ℝ} :
    through abscissas ordinates spacing = .ok path ↔
      abscissas.length = ordinates.length ∧
        throughDistinct (distinct (List.zipWith Vec2.mk abscissas ordinates)) spacing =
          .ok path := by
  unfold through
  by_cases paired : abscissas.length = ordinates.length
  · rw [if_neg (not_not_intro paired), and_iff_right paired]
    split
    · rename_i none
      rw [none]
      exact ⟨nofun, nofun⟩
    · rfl
  · rw [if_pos paired]
    exact ⟨nofun, fun built => absurd built.1 paired⟩

def kept {α : Type} [Scalar α] (points : List (PlanPoint α)) : List (Vec2 α) :=
  distinct (points.map fun point => point.pose.planarPosition)

theorem throughPlan_eq {points : List (PlanPoint ℝ)} (some : points ≠ []) (spacing : ℝ) :
    throughPlan points spacing = throughDistinct (kept points) spacing := by
  have paired : List.zipWith Vec2.mk (points.map fun point => point.pose.x)
      (points.map fun point => point.pose.y) =
        points.map fun point => point.pose.planarPosition := by
    rw [List.zipWith_map, List.zipWith_self]
    rfl
  unfold throughPlan through
  rw [if_neg (by simp), paired]
  cases points with
  | nil => exact absurd rfl some
  | cons first rest => rfl

theorem distinctAfter_eq_nil {before : Vec2 ℝ} {points : List (Vec2 ℝ)}
    (same : ∀ point ∈ points, point = before) : distinctAfter before points = [] := by
  induction points with
  | nil => rfl
  | cons point rest ih =>
      obtain ⟨rfl, later⟩ := List.forall_mem_cons.mp same
      have still : ¬ (leastStep : ℝ) < (point.sub point).norm := by
        have rest : ¬ 0 < (point.sub point).norm := by
          rw [Exact.norm_sub_pos_iff]
          exact not_not_intro rfl
        have positive : (0 : ℝ) < leastStep := by
          unfold leastStep
          norm_num
        linarith
      rw [distinctAfter, if_neg still]
      exact ih later

theorem impassable_of_coincide {points : List (PlanPoint ℝ)} {place : Vec2 ℝ}
    (coincide : ∀ point ∈ points, point.pose.planarPosition = place) :
    Impassable (kept points) .tooFewPathPoints := by
  apply Impassable.tooFew
  unfold kept
  cases points with
  | nil => simp [distinct]
  | cons first rest =>
      obtain ⟨rfl, later⟩ := List.forall_mem_cons.mp coincide
      rw [List.map_cons, distinct, distinctAfter_eq_nil]
      · simp
      · intro point member
        obtain ⟨source, inside, rfl⟩ := List.mem_map.mp member
        exact later source inside

noncomputable def point (path : ReferencePath ℝ) (place : ℝ) : Vec2 ℝ :=
  ⟨path.xs.value place, path.ys.value place⟩

noncomputable def tangent (path : ReferencePath ℝ) (place : ℝ) : Vec2 ℝ :=
  ⟨path.xs.derivative place, path.ys.derivative place⟩

noncomputable def bend (path : ReferencePath ℝ) (place : ℝ) : Vec2 ℝ :=
  ⟨path.xs.secondDerivative place, path.ys.secondDerivative place⟩

noncomputable def direction (path : ReferencePath ℝ) (place : ℝ) : Vec2 ℝ :=
  ⟨Real.cos (path.yaw place), Real.sin (path.yaw place)⟩

def Goes (path : ReferencePath ℝ) (place : ℝ) : Prop :=
  path.tangent place ≠ ⟨0, 0⟩

theorem cartesian_eq (path : ReferencePath ℝ) (place offset : ℝ) : path.cartesian place offset =
    ⟨(path.point place).x - offset * (path.direction place).y,
      (path.point place).y + offset * (path.direction place).x⟩ := by
  unfold cartesian
  dsimp only
  split
  · rename_i none
    rw [Exact.sameAs_iff.mp none, zero_mul, zero_mul, sub_zero, add_zero, point]
  · rfl

theorem offsetAt_eq (path : ReferencePath ℝ) (place : ℝ) (position : Vec2 ℝ) :
    path.offsetAt place position =
      let away := position.sub (path.cartesian place 0)
      signum (away.y * (path.direction place).x - away.x * (path.direction place).y) *
        away.norm := by
  simp only [mul_comm (Vec2.x _) (path.direction place).y,
    mul_comm (Vec2.y _) (path.direction place).x]
  rfl

theorem completes_frenet {path : ReferencePath ℝ} (two : 2 ≤ path.outline.length)
    (position : Vec2 ℝ) : Completes (path.frenet position) :=
  (completes_projectToPolyline two position).bind fun _ => completes_ok _

theorem completes_ofEgo {path : ReferencePath ℝ} (two : 2 ≤ path.outline.length)
    {odometry : Odometry ℝ} (moving : odometry.velocity.length = 3)
    (acceleration : AccelerationReport ℝ) :
    Completes (FrenetState.ofEgo path odometry acceleration) := by
  have speed : Completes odometry.speed := by
    match velocity : odometry.velocity, moving with
    | forward :: _, _ =>
        rw [Odometry.speed, velocity]
        exact completes_ok _
  apply (completes_frenet two odometry.pose.planarPosition).bind
  intro position
  exact speed.bind fun _ => completes_ok _

end ReferencePath

end ManeuverRanking
