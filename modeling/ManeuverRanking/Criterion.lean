/-!
The four criteria a candidate is judged by, and one value for each of them.
-/

namespace ManeuverRanking

inductive Criterion where
  | lateralComfort
  | longitudinalComfort
  | efficiency
  | safety
  deriving DecidableEq, Repr

namespace Criterion

def all : List Criterion :=
  [lateralComfort, longitudinalComfort, efficiency, safety]

def name : Criterion → String
  | lateralComfort => "lateral_comfortability"
  | longitudinalComfort => "longitudinal_comfortability"
  | efficiency => "efficiency"
  | safety => "safety"

end Criterion

structure PerCriterion (β : Type) where
  lateralComfort : β
  longitudinalComfort : β
  efficiency : β
  safety : β
  deriving Repr

namespace PerCriterion

variable {β γ δ : Type}

def get (values : PerCriterion β) : Criterion → β
  | .lateralComfort => values.lateralComfort
  | .longitudinalComfort => values.longitudinalComfort
  | .efficiency => values.efficiency
  | .safety => values.safety

def toList (values : PerCriterion β) : List β :=
  Criterion.all.map values.get

def zipWith (join : β → γ → δ) (left : PerCriterion β) (right : PerCriterion γ) :
    PerCriterion δ :=
  ⟨join left.lateralComfort right.lateralComfort,
    join left.longitudinalComfort right.longitudinalComfort,
    join left.efficiency right.efficiency,
    join left.safety right.safety⟩

end PerCriterion

end ManeuverRanking
