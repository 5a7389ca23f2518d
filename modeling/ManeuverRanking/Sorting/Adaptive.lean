import ManeuverRanking.Sorting.Merge
import ManeuverRanking.Sorting.Run

/-!
The adaptive sort: a list falls into runs, and neighbouring runs are merged in an order that keeps
the merges balanced. It asks for nothing but a strict comparison. Where that is a linear order any
stable sort has the same result; where it is not, as among undefined numbers, the result is a
rearrangement of the entries all the same.
-/

namespace ManeuverRanking

namespace Sorting

def runLimit : Nat := 64

def leastRunFrom (length rounded : Nat) : Nat :=
  -- One is added if any half was rounded, however often.
  if runLimit ≤ length then leastRunFrom (length / 2) (max rounded (length % 2))
  else length + rounded
termination_by length
decreasing_by
  have : 0 < runLimit := by decide
  omega

def leastRun (length : Nat) : Nat :=
  leastRunFrom length 0

def differingDigit (whole : Nat) : Nat → Nat → Nat → Nat
  | 0, _, _ => 0
  | limit + 1, low, high =>
      if whole ≤ low then 1 + differingDigit whole limit (2 * (low - whole)) (2 * (high - whole))
      else if whole ≤ high then 1
      else 1 + differingDigit whole limit (2 * low) (2 * high)

structure WaitingRun (β : Type) where
  start : Nat
  values : List β
  /-- The weight of the border to the next run: the binary digit in which the middles of both runs
  differ as shares of the list. The heavier border is merged first. -/
  weight : Nat

structure MergeStack (β : Type) where
  waiting : List (WaitingRun β)
  threshold : Nat

namespace MergeStack

variable {β : Type}

def entries (stack : MergeStack β) : List β :=
  (stack.waiting.reverse.map WaitingRun.values).flatten

variable (before : β → β → Bool)

def mergeBehind (stack : MergeStack β) (first : List (WaitingRun β)) (right left : WaitingRun β)
    (rest : List (WaitingRun β)) : MergeStack β :=
  let merged := mergeRuns before stack.threshold left.values right.values
  ⟨first ++ { left with values := merged.values } :: rest, merged.threshold⟩

def mergeHeavier (weight : Nat) : Nat → MergeStack β → MergeStack β
  | 0, stack => stack
  | rounds + 1, stack =>
      match stack.waiting with
      | right :: left :: rest =>
          if weight < left.weight then
            mergeHeavier weight rounds (stack.mergeBehind before [] right left rest)
          else stack
      | _ => stack

def enqueue (stack : MergeStack β) (weight start : Nat) (values : List β) : MergeStack β :=
  match stack.waiting with
  | [] => { stack with waiting := [⟨start, values, 0⟩] }
  | last :: rest =>
      { stack with waiting := ⟨start, values, 0⟩ :: { last with weight := weight } :: rest }

def push (whole : Nat) (stack : MergeStack β) (values : List β) : MergeStack β :=
  match stack.waiting with
  | [] => stack.enqueue 0 0 values
  | last :: _ =>
      -- Twice the places of the middles of both runs.
      let low := 2 * last.start + last.values.length
      let high := low + last.values.length + values.length
      let weight := differingDigit whole whole low high
      (stack.mergeHeavier before weight stack.waiting.length).enqueue weight
        (last.start + last.values.length) values

/-- Merges all waiting runs from the end. A last run that is longer than the third last one
waits. -/
def mergeAll : Nat → MergeStack β → MergeStack β
  | 0, stack => stack
  | rounds + 1, stack =>
      match stack.waiting with
      | last :: right :: left :: rest =>
          if left.values.length < last.values.length then
            mergeAll rounds (stack.mergeBehind before [last] right left rest)
          else mergeAll rounds (stack.mergeBehind before [] last right (left :: rest))
      | right :: left :: rest => mergeAll rounds (stack.mergeBehind before [] right left rest)
      | _ => stack

theorem mergeBehind_entries_perm (stack : MergeStack β) (first : List (WaitingRun β))
    (right left : WaitingRun β) (rest : List (WaitingRun β)) :
    (stack.mergeBehind before first right left rest).entries.Perm
      (entries { stack with waiting := first ++ right :: left :: rest }) := by
  simp only [mergeBehind, entries, List.reverse_append, List.reverse_cons, List.map_append,
    List.flatten_append, List.map_cons, List.map_nil, List.flatten_cons, List.flatten_nil,
    List.append_nil, List.append_assoc]
  refine List.Perm.append_left _ ?_
  rw [← List.append_assoc left.values]
  exact (mergeRuns_perm ..).append_right _

theorem mergeHeavier_entries_perm (weight rounds : Nat) (stack : MergeStack β) :
    (stack.mergeHeavier before weight rounds).entries.Perm stack.entries := by
  induction rounds generalizing stack with
  | zero => exact .refl _
  | succ rounds ih =>
      rw [mergeHeavier]
      split
      · rename_i right left rest waiting
        split
        · refine (ih _).trans ((mergeBehind_entries_perm before stack [] right left rest).trans ?_)
          simp [entries, waiting]
        · exact .refl _
      · exact .refl _

theorem mergeAll_entries_perm (rounds : Nat) (stack : MergeStack β) :
    (stack.mergeAll before rounds).entries.Perm stack.entries := by
  induction rounds generalizing stack with
  | zero => exact .refl _
  | succ rounds ih =>
      rw [mergeAll]
      split
      · rename_i last right left rest waiting
        split
        · refine (ih _).trans
            ((mergeBehind_entries_perm before stack [last] right left rest).trans ?_)
          simp [entries, waiting]
        · refine (ih _).trans
            ((mergeBehind_entries_perm before stack [] last right (left :: rest)).trans ?_)
          simp [entries, waiting]
      · rename_i right left rest _ waiting
        refine (ih _).trans ((mergeBehind_entries_perm before stack [] right left rest).trans ?_)
        simp [entries, waiting]
      · exact .refl _

theorem enqueue_entries (stack : MergeStack β) (weight start : Nat) (values : List β) :
    (stack.enqueue weight start values).entries = stack.entries ++ values := by
  unfold enqueue
  split <;> simp [entries, *]

theorem push_entries_perm (whole : Nat) (stack : MergeStack β) (values : List β) :
    (stack.push before whole values).entries.Perm (stack.entries ++ values) := by
  unfold push
  split
  · rw [enqueue_entries]
  · dsimp only
    rw [enqueue_entries]
    exact (mergeHeavier_entries_perm ..).append_right values

theorem foldl_push_entries_perm (whole : Nat) (runs : List (List β)) (stack : MergeStack β) :
    (runs.foldl (push before whole) stack).entries.Perm (stack.entries ++ runs.flatten) := by
  induction runs generalizing stack with
  | nil => simp
  | cons run rest ih =>
      refine (ih _).trans ?_
      rw [List.flatten_cons, ← List.append_assoc]
      exact (push_entries_perm ..).append_right _

end MergeStack

variable {β : Type} (before : β → β → Bool)

def firstThreshold : Nat := 7

def adaptiveSort (values : List β) : List β :=
  let runs := runsOf before (leastRun values.length) values
  let stack := runs.foldl (MergeStack.push before values.length) ⟨[], firstThreshold⟩
  (stack.mergeAll before stack.waiting.length).entries

/-- Sorting keeps all entries, whatever the comparison. -/
theorem adaptiveSort_perm (values : List β) : (adaptiveSort before values).Perm values := by
  unfold adaptiveSort
  refine (MergeStack.mergeAll_entries_perm ..).trans
    ((MergeStack.foldl_push_entries_perm ..).trans ?_)
  simpa [MergeStack.entries] using flatten_runsOf_perm before _ values

end Sorting

end ManeuverRanking
