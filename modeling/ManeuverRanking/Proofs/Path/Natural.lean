import Mathlib.Analysis.SpecialFunctions.Complex.Arg
import ManeuverRanking.Proofs.Path.Linearity

/-!
Natural splines are determined by their knots. In the system for the slopes every unknown outweighs
its neighbours, so elimination meets no vanishing pivot and finds the only solution. For knots on a
line that solution is the slope of the line at every knot, and the spline is the line itself.
-/

namespace ManeuverRanking

def Equation.Holds (equation : Equation ℝ) (before here after : ℝ) : Prop :=
  equation.before * before + equation.here * here + equation.after * after = equation.result

def Equation.Dominant (equation : Equation ℝ) : Prop :=
  |equation.before| + |equation.after| < equation.here

def Solves (before : ℝ) : List (Equation ℝ) → List ℝ → Prop
  | [], [] => True
  | equation :: equations, here :: later =>
      equation.Holds before here (later.headD 0) ∧ Solves here equations later
  | _, _ => False

namespace Equation

variable {equation next : Equation ℝ}

theorem eliminate_dominant (outweighs : |equation.after| < equation.here)
    (dominant : next.Dominant) : |(equation.eliminate next).after| < (equation.eliminate next).here := by
  have pivot : 0 < equation.here := (abs_nonneg _).trans_lt outweighs
  have taken : next.before / equation.here * equation.after ≤ |next.before| := by
    rw [div_mul_eq_mul_div, div_le_iff₀ pivot]
    calc next.before * equation.after ≤ |next.before * equation.after| := le_abs_self _
      _ = |next.before| * |equation.after| := abs_mul _ _
      _ ≤ |next.before| * equation.here :=
          mul_le_mul_of_nonneg_left outweighs.le (abs_nonneg _)
  unfold Dominant at dominant
  simp only [eliminate]
  linarith

theorem eliminate_holds {here second after : ℝ} (pivot : equation.here ≠ 0)
    (first : equation.here * here + equation.after * second = equation.result)
    (holds : next.Holds here second after) :
    (equation.eliminate next).here * second + (equation.eliminate next).after * after =
      (equation.eliminate next).result := by
  unfold Holds at holds
  simp only [eliminate]
  field_simp
  linear_combination equation.here * holds - next.before * first

end Equation

/-- Elimination finds the solution of a system whose unknowns outweigh their neighbours. -/
theorem solveTridiagonal_eq_of_solves {equation : Equation ℝ} {later : List (Equation ℝ)}
    {here : ℝ} {rest : List ℝ} (outweighs : |equation.after| < equation.here)
    (dominant : ∀ next ∈ later, next.Dominant)
    (first : equation.here * here + equation.after * rest.headD 0 = equation.result)
    (solves : Solves here later rest) : solveTridiagonal equation later = (here, rest) := by
  induction later generalizing equation here rest with
  | nil =>
      have pivot : equation.here ≠ 0 := ((abs_nonneg _).trans_lt outweighs).ne'
      cases rest with
      | cons second rest => exact solves.elim
      | nil =>
          rw [List.headD_nil, mul_zero, add_zero] at first
          rw [solveTridiagonal, ← first, mul_div_cancel_left₀ _ pivot]
  | cons next later ih =>
      have pivot : equation.here ≠ 0 := ((abs_nonneg _).trans_lt outweighs).ne'
      obtain ⟨heavy, dominant⟩ := List.forall_mem_cons.mp dominant
      cases rest with
      | nil => exact solves.elim
      | cons second rest =>
          obtain ⟨holds, solves⟩ := solves
          have solved := ih (Equation.eliminate_dominant outweighs heavy) dominant
            (Equation.eliminate_holds pivot first holds) solves
          rw [solveTridiagonal, solved, ← first]
          simp only [List.headD_cons, add_sub_cancel_right, mul_div_cancel_left₀ _ pivot]

structure Chord.OnLine (constant slope : ℝ) (chord : Chord ℝ) : Prop where
  start : chord.start.value = constant + slope * chord.start.place
  stop : chord.stop.value = constant + slope * chord.stop.place
  forward : 0 < chord.width

structure Cubic.OnLine (constant slope : ℝ) (piece : Cubic ℝ) : Prop where
  start : piece.constant = constant + slope * piece.start
  linear : piece.linear = slope
  quadratic : piece.quadratic = 0
  cubic : piece.cubic = 0

section Line

variable {constant slope : ℝ} {chord : Chord ℝ} {chords : List (Chord ℝ)}

theorem Chord.OnLine.rise_eq (on : chord.OnLine constant slope) :
    chord.rise = slope * chord.width := by
  rw [Chord.rise, on.start, on.stop, Chord.width]
  ring

theorem Chord.OnLine.slope_eq (on : chord.OnLine constant slope) : chord.slope = slope := by
  rw [Chord.slope, on.rise_eq, mul_div_cancel_right₀ _ on.forward.ne']

theorem laterEquations_dominant (forward : 0 < chord.width)
    (ahead : ∀ next ∈ chords, 0 < next.width) :
    ∀ equation ∈ laterEquations chord chords, equation.Dominant := by
  induction chords generalizing chord with
  | nil =>
      simp only [laterEquations, List.mem_singleton, forall_eq, Equation.Dominant, abs_zero,
        abs_of_pos forward, Exact.two_eq]
      linarith
  | cons next chords ih =>
      obtain ⟨forward', ahead⟩ := List.forall_mem_cons.mp ahead
      rw [laterEquations, List.forall_mem_cons]
      refine ⟨?_, ih forward' ahead⟩
      simp only [Equation.Dominant, abs_of_pos forward, abs_of_pos forward', Exact.two_eq]
      linarith

theorem solves_laterEquations (on : chord.OnLine constant slope)
    (all : ∀ next ∈ chords, next.OnLine constant slope) :
    Solves slope (laterEquations chord chords) (List.replicate (chords.length + 1) slope) := by
  induction chords generalizing chord with
  | nil =>
      refine ⟨?_, trivial⟩
      simp only [Equation.Holds, on.rise_eq, Exact.two_eq, Exact.three_eq]
      ring
  | cons next chords ih =>
      obtain ⟨on', all⟩ := List.forall_mem_cons.mp all
      rw [List.length_cons, List.replicate_succ]
      refine ⟨?_, ih on' all⟩
      simp only [Equation.Holds, on.slope_eq, on'.slope_eq, List.replicate_succ, List.headD_cons,
        Exact.two_eq, Exact.three_eq]
      ring

theorem Spline.slopesOver_of_onLine (on : chord.OnLine constant slope)
    (all : ∀ next ∈ chords, next.OnLine constant slope) :
    Spline.slopesOver chord chords = List.replicate (chords.length + 2) slope := by
  have outweighs : |(startEquation chord).after| < (startEquation chord).here := by
    have forward := on.forward
    simp only [startEquation, abs_of_pos forward, Exact.two_eq]
    linarith
  have first : (startEquation chord).here * slope +
      (startEquation chord).after * (List.replicate (chords.length + 1) slope).headD 0 =
        (startEquation chord).result := by
    simp only [startEquation, on.rise_eq, List.replicate_succ, List.headD_cons, Exact.two_eq,
      Exact.three_eq]
    ring
  have solved := solveTridiagonal_eq_of_solves outweighs
    (laterEquations_dominant on.forward fun next inside => (all next inside).forward) first
    (solves_laterEquations on all)
  rw [slopesOver, solved]
  rfl

theorem Chord.OnLine.ofSlopes (on : chord.OnLine constant slope) :
    (Cubic.ofSlopes chord slope slope).OnLine constant slope where
  start := on.start
  linear := rfl
  quadratic := by
    simp only [Cubic.ofSlopes, on.slope_eq, Exact.two_eq]
    ring
  cubic := by
    simp only [Cubic.ofSlopes, on.slope_eq, Exact.two_eq]
    ring

theorem Spline.pieces_onLine (all : ∀ chord ∈ chords, chord.OnLine constant slope) (count : Nat) :
    ∀ piece ∈ pieces chords (List.replicate count slope), piece.OnLine constant slope := by
  induction chords generalizing count with
  | nil => nofun
  | cons chord chords ih =>
      obtain ⟨on, all⟩ := List.forall_mem_cons.mp all
      match count with
      | 0 => nofun
      | 1 => nofun
      | count + 2 =>
          have later := ih all (count + 1)
          rw [List.replicate_succ, List.replicate_succ, pieces, List.forall_mem_cons]
          exact ⟨on.ofSlopes, later⟩

theorem chordsOf_onLine {knots : List (Knot ℝ)}
    (aligned : ∀ knot ∈ knots, knot.value = constant + slope * knot.place)
    (forward : ∀ chord ∈ chordsOf knots, 0 < chord.width) :
    ∀ chord ∈ chordsOf knots, chord.OnLine constant slope := by
  induction knots with
  | nil => nofun
  | cons first knots ih =>
      cases knots with
      | nil => nofun
      | cons second knots =>
          obtain ⟨start, aligned⟩ := List.forall_mem_cons.mp aligned
          rw [chordsOf, List.forall_mem_cons] at forward ⊢
          exact ⟨⟨start, aligned second List.mem_cons_self, forward.1⟩, ih aligned forward.2⟩

theorem Spline.pieceFrom_mem (place : ℝ) (piece : Cubic ℝ) (rest : List (Cubic ℝ)) :
    pieceFrom place piece rest ∈ piece :: rest := by
  induction rest generalizing piece with
  | nil => exact List.mem_cons_self
  | cons next rest ih =>
      rw [pieceFrom]
      split
      · exact List.mem_cons_of_mem _ (ih next)
      · exact List.mem_cons_self

/-- The spline through knots on a line is the line, at every place. -/
theorem Spline.through_of_aligned {knots : List (Knot ℝ)} {spline : Spline ℝ}
    (built : through knots = .ok spline)
    (aligned : ∀ knot ∈ knots, knot.value = constant + slope * knot.place) (place : ℝ) :
    spline.value place = constant + slope * place ∧ spline.derivative place = slope ∧
      spline.secondDerivative place = 0 := by
  obtain ⟨usable, chord, chords, listed, solved⟩ := through_eq_ok_iff.mp built
  simp only [Spline.usable, Bool.and_eq_true, List.all_eq_true, decide_eq_true_eq] at usable
  have on := chordsOf_onLine aligned usable.2
  rw [listed] at on
  obtain ⟨first, later⟩ := List.forall_mem_cons.mp on
  rw [slopesOver_of_onLine first later] at solved
  have member := pieceFrom_mem place spline.first spline.rest
  rw [← solved] at member
  obtain ⟨start, linear, quadratic, cubic⟩ := pieces_onLine on _ _ member
  refine ⟨?_, ?_, ?_⟩
  · rw [value, Cubic.value, pieceAt, start, linear, quadratic, cubic]
    ring
  · rw [derivative, Cubic.derivative, pieceAt, linear, quadratic, cubic]
    ring
  · rw [secondDerivative, Cubic.secondDerivative, pieceAt, quadratic, cubic]
    ring

end Line

end ManeuverRanking
