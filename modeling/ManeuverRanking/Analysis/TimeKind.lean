import ManeuverRanking.Scalar

/-!
How a column holds times. Times that fit signed words, or all fit unsigned words, are held as they
are, and so is a column with times of any size. Where signed and unsigned words meet in one column,
all its times are replaced by the nearest numbers.
-/

namespace ManeuverRanking

inductive TimeKind where
  | nothing
  | signed
  | unsigned
  /-- Signed and unsigned words together, each replaced by the nearest number. -/
  | rounded
  | unbounded
  deriving DecidableEq, Repr

namespace TimeKind

def wordHalf : Int := 1 <<< 63

def ofTime (time : Int) : TimeKind :=
  if time < -wordHalf then unbounded
  else if time < wordHalf then signed
  else if time < 2 * wordHalf then unsigned
  else unbounded

def join : TimeKind → TimeKind → TimeKind
  | nothing, kind => kind
  | kind, nothing => kind
  | unbounded, _ => unbounded
  | _, unbounded => unbounded
  | signed, signed => signed
  | unsigned, unsigned => unsigned
  | _, _ => rounded

def joinAll (kinds : List TimeKind) : TimeKind :=
  kinds.foldl join nothing

def hold (α : Type) [Scalar α] (kind : TimeKind) (time : Int) : Int :=
  match kind with
  | rounded => (Scalar.floor? (ofInt time : α)).getD time
  | _ => time

end TimeKind

end ManeuverRanking
