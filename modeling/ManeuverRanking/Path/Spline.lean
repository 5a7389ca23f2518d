import ManeuverRanking.Fault
import ManeuverRanking.Scalar.Order

/-!
Natural cubic splines: piecewise cubics through given knots with continuous second derivative that
vanishes at both ends. The slopes at the knots solve a tridiagonal system; outside the knots the
end pieces go on.
-/

namespace ManeuverRanking

variable {α : Type} [Scalar α]

structure Knot (α : Type) where
  place : α
  value : α

structure Chord (α : Type) where
  start : Knot α
  stop : Knot α

namespace Chord

def width (chord : Chord α) : α :=
  chord.stop.place - chord.start.place

def rise (chord : Chord α) : α :=
  chord.stop.value - chord.start.value

def slope (chord : Chord α) : α :=
  chord.rise / chord.width

end Chord

def chordsOf : List (Knot α) → List (Chord α)
  | first :: second :: rest => ⟨first, second⟩ :: chordsOf (second :: rest)
  | _ => []

structure Equation (α : Type) where
  before : α
  here : α
  after : α
  result : α

def Equation.eliminate (equation next : Equation α) : Equation α :=
  let factor := next.before / equation.here
  { next with
    here := next.here - factor * equation.after
    result := next.result - factor * equation.result }

def solveTridiagonal (equation : Equation α) : List (Equation α) → α × List α
  | [] => (equation.result / equation.here, [])
  | next :: rest =>
      let (second, later) := solveTridiagonal (equation.eliminate next) rest
      ((equation.result - equation.after * second) / equation.here, second :: later)

def startEquation (chord : Chord α) : Equation α :=
  ⟨0, 2.0 * chord.width, chord.width, 3.0 * chord.rise⟩

def laterEquations (chord : Chord α) : List (Chord α) → List (Equation α)
  -- The second derivative vanishes at the last knot, and both sides agree on it at an inner one.
  | [] => [⟨chord.width, 2.0 * chord.width, 0, 3.0 * chord.rise⟩]
  | next :: rest =>
      ⟨next.width, 2.0 * (chord.width + next.width), chord.width,
        3.0 * (next.width * chord.slope + chord.width * next.slope)⟩ :: laterEquations next rest

structure Cubic (α : Type) where
  start : α
  constant : α
  linear : α
  quadratic : α
  cubic : α

namespace Cubic

def ofSlopes (chord : Chord α) (first second : α) : Cubic α :=
  let bend := (first + second - 2.0 * chord.slope) / chord.width
  { start := chord.start.place
    constant := chord.start.value
    linear := first
    quadratic := (chord.slope - first) / chord.width - bend
    cubic := bend / chord.width }

def value (piece : Cubic α) (place : α) : α :=
  let way := place - piece.start
  piece.constant + piece.linear * way + piece.quadratic * (way * way)
    + piece.cubic * (way * way * way)

def derivative (piece : Cubic α) (place : α) : α :=
  let way := place - piece.start
  piece.linear + piece.quadratic * way * 2.0 + piece.cubic * (way * way) * 3.0

def secondDerivative (piece : Cubic α) (place : α) : α :=
  let way := place - piece.start
  piece.quadratic * 2.0 + piece.cubic * way * 6.0

end Cubic

structure Spline (α : Type) where
  first : Cubic α
  rest : List (Cubic α)

namespace Spline

def pieces : List (Chord α) → List α → List (Cubic α)
  | chord :: chords, first :: second :: slopes =>
      Cubic.ofSlopes chord first second :: pieces chords (second :: slopes)
  | _, _ => []

def usable (knots : List (Knot α)) : Bool :=
  (knots.all fun knot => isFinite knot.place && isFinite knot.value)
    && (chordsOf knots).all fun chord => decide (0 < chord.width)

def through (knots : List (Knot α)) : Except (Fault α) (Spline α) :=
  if usable knots then
    match chordsOf knots with
    | [] => .error .unusableKnots
    | chord :: chords =>
        let (slope, slopes) := solveTridiagonal (startEquation chord) (laterEquations chord chords)
        match pieces (chord :: chords) (slope :: slopes) with
        | [] => .error .unusableKnots
        | first :: rest => .ok ⟨first, rest⟩
  else .error .unusableKnots

def pieceFrom (place : α) (piece : Cubic α) : List (Cubic α) → Cubic α
  | [] => piece
  | next :: rest => if next.start ≤ place then pieceFrom place next rest else piece

/-- The piece that covers a place: at an inner knot the one to its right. -/
def pieceAt (spline : Spline α) (place : α) : Cubic α :=
  pieceFrom place spline.first spline.rest

def value (spline : Spline α) (place : α) : α :=
  (spline.pieceAt place).value place

def derivative (spline : Spline α) (place : α) : α :=
  (spline.pieceAt place).derivative place

def secondDerivative (spline : Spline α) (place : α) : α :=
  (spline.pieceAt place).secondDerivative place

end Spline

end ManeuverRanking
