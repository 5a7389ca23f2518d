import Mathlib.Analysis.SpecialFunctions.Complex.Arg
import ManeuverRanking.Proofs.Path.Reference

/-!
Natural splines depend linearly on their values. Two splines over the same places can be mixed: the
spline through mixed values is the mix of the splines.

The places decide the coefficients of the system for the slopes and which piece covers a place; both
are shared, and elimination then acts on the right hand sides alone.
-/

namespace ManeuverRanking

structure Mix where
  left : ℝ
  right : ℝ
  shift : ℝ

namespace Mix

variable (mix : Mix)

noncomputable def value (left right : ℝ) : ℝ :=
  mix.left * left + mix.right * right + mix.shift

noncomputable def change (left right : ℝ) : ℝ :=
  mix.left * left + mix.right * right

noncomputable def knot (left right : Knot ℝ) : Knot ℝ :=
  ⟨left.place, mix.value left.value right.value⟩

noncomputable def chord (left right : Chord ℝ) : Chord ℝ :=
  ⟨mix.knot left.start right.start, mix.knot left.stop right.stop⟩

noncomputable def equation (left right : Equation ℝ) : Equation ℝ :=
  { left with result := mix.change left.result right.result }

noncomputable def cubic (left right : Cubic ℝ) : Cubic ℝ :=
  ⟨left.start, mix.value left.constant right.constant, mix.change left.linear right.linear,
    mix.change left.quadratic right.quadratic, mix.change left.cubic right.cubic⟩

noncomputable def spline (left right : Spline ℝ) : Spline ℝ :=
  ⟨mix.cubic left.first right.first, List.zipWith mix.cubic left.rest right.rest⟩

end Mix

structure Knot.SamePlace (left right : Knot ℝ) : Prop where
  place : left.place = right.place

structure Chord.SamePlaces (left right : Chord ℝ) : Prop where
  start : left.start.SamePlace right.start
  stop : left.stop.SamePlace right.stop

structure Equation.SameCoefficients (left right : Equation ℝ) : Prop where
  before : left.before = right.before
  here : left.here = right.here
  after : left.after = right.after

structure Cubic.SameStart (left right : Cubic ℝ) : Prop where
  start : left.start = right.start

structure Spline.SamePlaces (left right : Spline ℝ) : Prop where
  first : left.first.SameStart right.first
  rest : List.Forall₂ Cubic.SameStart left.rest right.rest

namespace Chord

variable {left right : Chord ℝ}

theorem SamePlaces.width_eq (same : left.SamePlaces right) : left.width = right.width := by
  rw [width, width, same.start.place, same.stop.place]

theorem width_mix (mix : Mix) : (mix.chord left right).width = left.width :=
  rfl

theorem rise_mix (mix : Mix) : (mix.chord left right).rise = mix.change left.rise right.rise := by
  simp only [rise, Mix.chord, Mix.knot, Mix.value, Mix.change]
  ring

theorem slope_mix (mix : Mix) (same : left.SamePlaces right) :
    (mix.chord left right).slope = mix.change left.slope right.slope := by
  simp only [slope, rise_mix, width_mix, Mix.change, ← same.width_eq]
  ring

end Chord

section

variable (mix : Mix)

theorem chordsOf_samePlaces {lefts rights : List (Knot ℝ)}
    (same : List.Forall₂ Knot.SamePlace lefts rights) :
    List.Forall₂ Chord.SamePlaces (chordsOf lefts) (chordsOf rights) := by
  induction same with
  | nil => exact .nil
  | cons first later ih =>
      cases later with
      | nil => exact .nil
      | cons second later => exact .cons ⟨first, second⟩ ih

theorem chordsOf_mix {lefts rights : List (Knot ℝ)}
    (same : List.Forall₂ Knot.SamePlace lefts rights) :
    chordsOf (List.zipWith mix.knot lefts rights) =
      List.zipWith mix.chord (chordsOf lefts) (chordsOf rights) := by
  induction same with
  | nil => rfl
  | cons first later ih =>
      cases later with
      | nil => rfl
      | cons second later =>
          simp only [List.zipWith_cons_cons, chordsOf] at ih ⊢
          rw [ih]
          rfl

theorem startEquation_sameCoefficients {left right : Chord ℝ} (same : left.SamePlaces right) :
    (startEquation left).SameCoefficients (startEquation right) := by
  constructor <;> simp only [startEquation, same.width_eq]

theorem startEquation_mix (left right : Chord ℝ) :
    startEquation (mix.chord left right) =
      mix.equation (startEquation left) (startEquation right) := by
  simp only [startEquation, Mix.equation, Chord.width_mix, Chord.rise_mix, Mix.change,
    Exact.three_eq, Equation.mk.injEq, true_and]
  ring

theorem laterEquations_sameCoefficients {left right : Chord ℝ} {lefts rights : List (Chord ℝ)}
    (same : left.SamePlaces right) (later : List.Forall₂ Chord.SamePlaces lefts rights) :
    List.Forall₂ Equation.SameCoefficients (laterEquations left lefts)
      (laterEquations right rights) := by
  induction later generalizing left right with
  | nil =>
      refine .cons ?_ .nil
      constructor <;> simp only [same.width_eq]
  | cons next later ih =>
      refine .cons ?_ (ih next)
      constructor <;> simp only [same.width_eq, next.width_eq]

theorem laterEquations_mix {left right : Chord ℝ} {lefts rights : List (Chord ℝ)}
    (same : left.SamePlaces right) (later : List.Forall₂ Chord.SamePlaces lefts rights) :
    laterEquations (mix.chord left right) (List.zipWith mix.chord lefts rights) =
      List.zipWith mix.equation (laterEquations left lefts) (laterEquations right rights) := by
  induction later generalizing left right with
  | nil =>
      simp only [List.zipWith_nil_left, List.zipWith_cons_cons, laterEquations, Mix.equation,
        Chord.width_mix, Chord.rise_mix, Mix.change, Exact.three_eq, List.cons.injEq,
        Equation.mk.injEq, true_and, and_true]
      ring
  | cons next later ih =>
      simp only [List.zipWith_cons_cons, laterEquations, ih next, Mix.equation, Chord.width_mix,
        Chord.slope_mix mix same, Chord.slope_mix mix next, Mix.change, Exact.three_eq,
        List.cons.injEq, Equation.mk.injEq, true_and, and_true, ← same.width_eq, ← next.width_eq]
      ring

theorem eliminate_sameCoefficients {left right left' right' : Equation ℝ}
    (same : left.SameCoefficients right) (next : left'.SameCoefficients right') :
    (left.eliminate left').SameCoefficients (right.eliminate right') := by
  constructor <;>
    simp only [Equation.eliminate, same.here, same.after, next.before, next.here, next.after]

theorem eliminate_mix {left right left' right' : Equation ℝ}
    (same : left.SameCoefficients right) (next : left'.SameCoefficients right') :
    (mix.equation left right).eliminate (mix.equation left' right') =
      mix.equation (left.eliminate left') (right.eliminate right') := by
  simp only [Equation.eliminate, Mix.equation, Mix.change, ← same.here, ← next.before,
    Equation.mk.injEq, true_and]
  ring

theorem solveTridiagonal_mix {left right : Equation ℝ} {lefts rights : List (Equation ℝ)}
    (same : left.SameCoefficients right)
    (later : List.Forall₂ Equation.SameCoefficients lefts rights) :
    solveTridiagonal (mix.equation left right) (List.zipWith mix.equation lefts rights) =
      (mix.change (solveTridiagonal left lefts).1 (solveTridiagonal right rights).1,
        List.zipWith mix.change (solveTridiagonal left lefts).2
          (solveTridiagonal right rights).2) := by
  -- The first equation changes with each elimination, but stays aligned with its twin.
  induction later generalizing left right with
  | nil =>
      simp only [List.zipWith_nil_left, solveTridiagonal, Mix.equation, Mix.change, ← same.here,
        Prod.mk.injEq, and_true]
      ring
  | cons next later ih =>
      simp only [List.zipWith_cons_cons, solveTridiagonal, eliminate_mix mix same next,
        ih (eliminate_sameCoefficients same next), Prod.mk.injEq, and_true]
      simp only [Mix.equation, Mix.change, ← same.here, ← same.after]
      ring

theorem ofSlopes_mix {left right : Chord ℝ} (same : left.SamePlaces right)
    (first first' second second' : ℝ) :
    Cubic.ofSlopes (mix.chord left right) (mix.change first first') (mix.change second second') =
      mix.cubic (Cubic.ofSlopes left first second) (Cubic.ofSlopes right first' second') := by
  simp only [Cubic.ofSlopes, Chord.width_mix, Chord.slope_mix mix same, Mix.cubic, Mix.change,
    Exact.two_eq, ← same.width_eq, Cubic.mk.injEq, true_and]
  refine ⟨rfl, rfl, ?_, ?_⟩ <;> ring

end

namespace Spline

variable (mix : Mix)

noncomputable def slopesOver (chord : Chord ℝ) (chords : List (Chord ℝ)) : List ℝ :=
  let solution := solveTridiagonal (startEquation chord) (laterEquations chord chords)
  solution.1 :: solution.2

theorem slopesOver_mix {left right : Chord ℝ} {lefts rights : List (Chord ℝ)}
    (same : left.SamePlaces right) (later : List.Forall₂ Chord.SamePlaces lefts rights) :
    slopesOver (mix.chord left right) (List.zipWith mix.chord lefts rights) =
      List.zipWith mix.change (slopesOver left lefts) (slopesOver right rights) := by
  simp only [slopesOver, startEquation_mix, laterEquations_mix mix same later,
    solveTridiagonal_mix mix (startEquation_sameCoefficients same)
      (laterEquations_sameCoefficients same later), List.zipWith_cons_cons]

theorem length_slopesOver {left right : Chord ℝ} {lefts rights : List (Chord ℝ)}
    (same : left.SamePlaces right) (later : List.Forall₂ Chord.SamePlaces lefts rights) :
    (slopesOver left lefts).length = (slopesOver right rights).length := by
  simp only [slopesOver, List.length_cons, length_solveTridiagonal,
    (laterEquations_sameCoefficients same later).length_eq]

theorem pieces_sameStart {lefts rights : List (Chord ℝ)} {slopes slopes' : List ℝ}
    (same : List.Forall₂ Chord.SamePlaces lefts rights) (full : slopes.length = slopes'.length) :
    List.Forall₂ Cubic.SameStart (pieces lefts slopes) (pieces rights slopes') := by
  induction same generalizing slopes slopes' with
  | nil => exact .nil
  | cons chord later ih =>
      match slopes, slopes', full with
      | [], [], _ => exact .nil
      | [_], [_], _ => exact .nil
      | first :: second :: slopes, first' :: second' :: slopes', full =>
          exact .cons ⟨chord.start.place⟩ (ih (Nat.succ.inj full))

theorem pieces_mix {lefts rights : List (Chord ℝ)} {slopes slopes' : List ℝ}
    (same : List.Forall₂ Chord.SamePlaces lefts rights) (full : slopes.length = slopes'.length) :
    pieces (List.zipWith mix.chord lefts rights) (List.zipWith mix.change slopes slopes') =
      List.zipWith mix.cubic (pieces lefts slopes) (pieces rights slopes') := by
  induction same generalizing slopes slopes' with
  | nil => rfl
  | cons chord later ih =>
      match slopes, slopes', full with
      | [], [], _ => rfl
      | [_], [_], _ => rfl
      | first :: second :: slopes, first' :: second' :: slopes', full =>
          have rest := ih (Nat.succ.inj full)
          simp only [List.zipWith_cons_cons, pieces] at rest ⊢
          rw [rest, ofSlopes_mix mix chord]

theorem usable_mix {lefts rights : List (Knot ℝ)}
    (same : List.Forall₂ Knot.SamePlace lefts rights) :
    usable (List.zipWith mix.knot lefts rights) = usable lefts := by
  have chords := chordsOf_samePlaces same
  rw [Bool.eq_iff_iff]
  simp only [usable, Exact.isFinite_eq, Bool.and_self, Bool.and_eq_true, List.all_eq_true,
    decide_eq_true_eq, implies_true, true_and, chordsOf_mix mix same]
  generalize chordsOf lefts = lefts, chordsOf rights = rights at chords
  induction chords with
  | nil => exact Iff.rfl
  | cons chord later ih =>
      simp only [List.zipWith_cons_cons, List.forall_mem_cons, ih, Chord.width_mix]

theorem through_eq_ok_iff {knots : List (Knot ℝ)} {spline : Spline ℝ} :
    through knots = .ok spline ↔
      usable knots = true ∧ ∃ chord chords, chordsOf knots = chord :: chords ∧
        pieces (chord :: chords) (slopesOver chord chords) = spline.first :: spline.rest := by
  unfold through
  split
  · rename_i usable
    cases listed : chordsOf knots with
    | nil => simp
    | cons chord chords =>
        simp only [usable, true_and, List.cons.injEq, slopesOver]
        constructor
        · intro built
          refine ⟨chord, chords, ⟨rfl, rfl⟩, ?_⟩
          split at built
          · cases built
          · rename_i solved
            cases built
            exact solved
        · rintro ⟨_, _, ⟨rfl, rfl⟩, solved⟩
          rw [solved]
  · rename_i unusable
    simp [unusable]

theorem through_mix {lefts rights : List (Knot ℝ)} {left right : Spline ℝ}
    (same : List.Forall₂ Knot.SamePlace lefts rights) (built : through lefts = .ok left)
    (built' : through rights = .ok right) :
    left.SamePlaces right ∧
      through (List.zipWith mix.knot lefts rights) = .ok (mix.spline left right) := by
  obtain ⟨usable, chord, chords, listed, solved⟩ := through_eq_ok_iff.mp built
  obtain ⟨usable', chord', chords', listed', solved'⟩ := through_eq_ok_iff.mp built'
  have aligned := chordsOf_samePlaces same
  rw [listed, listed'] at aligned
  obtain ⟨first, later⟩ := List.forall₂_cons.mp aligned
  have full := length_slopesOver first later
  have starts := pieces_sameStart aligned full
  rw [solved, solved'] at starts
  obtain ⟨start, rest⟩ := List.forall₂_cons.mp starts
  refine ⟨⟨start, rest⟩, through_eq_ok_iff.mpr ⟨?_, mix.chord chord chord',
    List.zipWith mix.chord chords chords', ?_, ?_⟩⟩
  · rw [usable_mix mix same, usable]
  · rw [chordsOf_mix mix same, listed, listed', List.zipWith_cons_cons]
  · have pieces := pieces_mix mix aligned full
    rw [solved, solved'] at pieces
    rw [slopesOver_mix mix first later]
    exact pieces

theorem pieceFrom_mix (place : ℝ) {left right : Cubic ℝ} {lefts rights : List (Cubic ℝ)}
    (later : List.Forall₂ Cubic.SameStart lefts rights) :
    pieceFrom place (mix.cubic left right) (List.zipWith mix.cubic lefts rights) =
      mix.cubic (pieceFrom place left lefts) (pieceFrom place right rights) := by
  induction later generalizing left right with
  | nil => rfl
  | @cons next next' lefts rights same later ih =>
      have starts : (mix.cubic next next').start = next.start := rfl
      simp only [List.zipWith_cons_cons, pieceFrom, starts, ← same.start]
      split
      · exact ih
      · rfl

theorem pieceFrom_sameStart (place : ℝ) {left right : Cubic ℝ} {lefts rights : List (Cubic ℝ)}
    (same : left.SameStart right) (later : List.Forall₂ Cubic.SameStart lefts rights) :
    (pieceFrom place left lefts).SameStart (pieceFrom place right rights) := by
  induction later generalizing left right with
  | nil => exact same
  | cons next later ih =>
      simp only [pieceFrom, ← next.start]
      split
      · exact ih next
      · exact same

variable {left right : Spline ℝ}

theorem pieceAt_mix (same : left.SamePlaces right) (place : ℝ) :
    (mix.spline left right).pieceAt place =
      mix.cubic (left.pieceAt place) (right.pieceAt place) :=
  pieceFrom_mix mix place same.rest

theorem pieceAt_sameStart (same : left.SamePlaces right) (place : ℝ) :
    (left.pieceAt place).SameStart (right.pieceAt place) :=
  pieceFrom_sameStart place same.first same.rest

theorem value_mix (same : left.SamePlaces right) (place : ℝ) :
    (mix.spline left right).value place = mix.value (left.value place) (right.value place) := by
  simp only [value, pieceAt_mix mix same, Cubic.value, Mix.cubic, Mix.value, Mix.change,
    ← (pieceAt_sameStart same place).start]
  ring

theorem derivative_mix (same : left.SamePlaces right) (place : ℝ) :
    (mix.spline left right).derivative place =
      mix.change (left.derivative place) (right.derivative place) := by
  simp only [derivative, pieceAt_mix mix same, Cubic.derivative, Mix.cubic, Mix.change,
    Exact.two_eq, Exact.three_eq, ← (pieceAt_sameStart same place).start]
  ring

theorem secondDerivative_mix (same : left.SamePlaces right) (place : ℝ) :
    (mix.spline left right).secondDerivative place =
      mix.change (left.secondDerivative place) (right.secondDerivative place) := by
  simp only [secondDerivative, pieceAt_mix mix same, Cubic.secondDerivative, Mix.cubic, Mix.change,
    Exact.two_eq, Exact.six_eq, ← (pieceAt_sameStart same place).start]
  ring

end Spline

end ManeuverRanking
