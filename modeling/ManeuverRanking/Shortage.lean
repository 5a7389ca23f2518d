import ManeuverRanking.Stream

/-!
What is still missing before candidates can be ranked.
-/

namespace ManeuverRanking

inductive SeedGap where
  | missing (streams : List Stream) (clock : Int)
  | emptyPlan (stamp : Int)
  deriving DecidableEq, Repr

structure Wording (α : Type) where
  number : α → String
  clock : Int → String

def SeedGap.message (writeClock : Int → String) : SeedGap → String
  | missing streams clock =>
      "No " ++ ", ".intercalate (streams.map Stream.name) ++ " after timestamp "
        ++ writeClock clock
  | emptyPlan stamp => s!"Plan at {stamp} holds no points"

inductive Shortage where
  | window (clock : Int)
  | ranOut (stream : Stream) (step steps : Nat) (clock : Int)
  | seed (gap : SeedGap)
  deriving DecidableEq, Repr

def Shortage.message (writeClock : Int → String) : Shortage → String
  | window clock => "Snapshot not ready at " ++ writeClock clock
  | ranOut stream step steps clock =>
      stream.name ++ s!" buffer ran out at step {step} of {steps} after timestamp "
        ++ writeClock clock
  | seed gap => gap.message writeClock

end ManeuverRanking
