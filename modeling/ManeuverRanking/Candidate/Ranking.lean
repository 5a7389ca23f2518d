import ManeuverRanking.Candidate
import ManeuverRanking.Score
import ManeuverRanking.Sorting.Adaptive

/-!
Rankings by total score, best first, ties in the order of generation. Undefined totals have no place
in that order: where there are any, the ranking is what the adaptive sort makes of them.
-/

namespace ManeuverRanking

def sortDescending {α β : Type} [Arithmetic α] (key : β → α) (values : List β) : List β :=
  if values.any fun value => isUndefined (key value) then
    (Sorting.adaptiveSort (fun left right => decide (key left < key right)) values.reverse).reverse
  else values.mergeSort fun left right => !decide (key left < key right)

theorem sortDescending_perm {α β : Type} [Arithmetic α] (key : β → α) (values : List β) :
    (sortDescending key values).Perm values := by
  unfold sortDescending
  split
  · exact (List.reverse_perm _).trans ((Sorting.adaptiveSort_perm _ _).trans (List.reverse_perm _))
  · exact List.mergeSort_perm _ _

structure ScoredCandidate (α : Type) where
  candidate : Candidate α
  metrics : MetricSeries α
  scores : Scores α

def ScoredCandidate.total {α : Type} (scored : ScoredCandidate α) : α :=
  scored.scores.total

structure Ranking (α : Type) where
  clock : Int
  ranked : List (ScoredCandidate α)

namespace Ranking

variable {α : Type}

def ofScored [Arithmetic α] (clock : Int) (scored : List (ScoredCandidate α)) : Ranking α :=
  ⟨clock, sortDescending ScoredCandidate.total scored⟩

def best (ranking : Ranking α) : Except (Fault α) (ScoredCandidate α) :=
  match ranking.ranked with
  | [] => .error .emptyRanking
  | first :: _ => .ok first

def bestOf? (ranking : Ranking α) (origin : Origin) : Option (ScoredCandidate α) :=
  ranking.ranked.find? fun scored => scored.candidate.origin = origin

/-- The candidate at a rank; negative ranks count from the end. -/
def atRank (ranking : Ranking α) (rank : Int) : Except (Fault α) (ScoredCandidate α) :=
  let position := if rank < 0 then ranking.ranked.length + rank else rank
  if position < 0 then .error (.noSuchRank rank)
  else
    match ranking.ranked[position.toNat]? with
    | some scored => .ok scored
    | none => .error (.noSuchRank rank)

end Ranking

end ManeuverRanking
