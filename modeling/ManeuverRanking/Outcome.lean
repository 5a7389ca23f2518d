/-!
Outcomes that may lack data for now: a value, or the reason why it has to wait.
-/

namespace ManeuverRanking

inductive Outcome (reason β : Type) where
  | ready (value : β)
  | notReady (cause : reason)

namespace Outcome

variable {reason β γ : Type}

def isReady : Outcome reason β → Bool
  | ready _ => true
  | notReady _ => false

def demand : Outcome reason β → Except reason β
  | ready value => .ok value
  | notReady cause => .error cause

def map (change : β → γ) : Outcome reason β → Outcome reason γ
  | ready value => ready (change value)
  | notReady cause => notReady cause

end Outcome

end ManeuverRanking
