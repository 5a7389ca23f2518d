import Mathlib.Data.List.Chain
import ManeuverRanking.Proofs.Sorting.Merging
import ManeuverRanking.Sorting.Adaptive

/-!
The adaptive sort puts a list in order. The order is any strict one that the comparison agrees with
wherever it compares an entry with one before it in the list.
-/

namespace ManeuverRanking

namespace Sorting

variable {β : Type} {before : β → β → Bool} {precedes : β → β → Prop}

theorem InRuns.merge {front back : List (List β)} {left right merged : List β}
    (inRuns : InRuns before precedes (front ++ left :: right :: back))
    (sorted : merged.Pairwise precedes) (kept : merged.Perm (left ++ right)) :
    InRuns before precedes (front ++ merged :: back) := by
  obtain ⟨each, across⟩ := inRuns
  obtain ⟨ahead, middle, beyond⟩ := List.pairwise_append.mp across
  obtain ⟨fromLeft, rest⟩ := List.pairwise_cons.mp middle
  obtain ⟨fromRight, behind⟩ := List.pairwise_cons.mp rest
  have parts (entry : β) (inside : entry ∈ merged) : entry ∈ left ∨ entry ∈ right :=
    List.mem_append.mp (kept.mem_iff.mp inside)
  constructor
  · intro run listed
    rcases List.mem_append.mp listed with first | later
    · exact each run (List.mem_append_left _ first)
    · rcases List.mem_cons.mp later with rfl | last
      · exact sorted
      · exact each run (List.mem_append_right _ (by simp [last]))
  · refine List.pairwise_append.mpr ⟨ahead, List.pairwise_cons.mpr ⟨?_, behind⟩, ?_⟩
    · intro run listed earlier inside later inside'
      rcases parts earlier inside with inLeft | inRight
      · exact fromLeft run (List.mem_cons_of_mem _ listed) earlier inLeft later inside'
      · exact fromRight run listed earlier inRight later inside'
    · intro run listed other listed' earlier inside later inside'
      have beyond := beyond run listed
      rcases List.mem_cons.mp listed' with rfl | last
      · rcases parts later inside' with inLeft | inRight
        · exact beyond left (by simp) earlier inside later inLeft
        · exact beyond right (by simp) earlier inside later inRight
      · exact beyond other (by simp [last]) earlier inside later inside'

namespace MergeStack

variable {stack : MergeStack β} {later : List (List β)}

def runs (stack : MergeStack β) : List (List β) :=
  stack.waiting.reverse.map WaitingRun.values

theorem runs_enqueue (stack : MergeStack β) (weight start : Nat) (values : List β) :
    (stack.enqueue weight start values).runs = stack.runs ++ [values] := by
  unfold enqueue
  split <;> simp [runs, *]

section Merges

variable [IsStrictOrder β precedes]

theorem inRuns_mergeBehind (first : List (WaitingRun β)) {rest : List (WaitingRun β)}
    {right left : WaitingRun β} (waiting : stack.waiting = first ++ right :: left :: rest)
    (inRuns : InRuns before precedes (stack.runs ++ later)) :
    InRuns before precedes ((stack.mergeBehind before first right left rest).runs ++ later) := by
  simp only [runs, waiting, mergeBehind, List.reverse_append, List.reverse_cons, List.map_append,
    List.map_cons, List.append_assoc, List.cons_append, List.nil_append] at inRuns ⊢
  obtain ⟨-, middle, -⟩ := List.pairwise_append.mp inRuns.decided
  have merged := pairwise_mergeRuns (inRuns.sorted left.values (by simp))
    (inRuns.sorted right.values (by simp)) (List.rel_of_pairwise_cons middle List.mem_cons_self)
    stack.threshold
  exact inRuns.merge merged (mergeRuns_perm ..)

theorem inRuns_mergeHeavier (weight rounds : Nat)
    (inRuns : InRuns before precedes (stack.runs ++ later)) :
    InRuns before precedes ((stack.mergeHeavier before weight rounds).runs ++ later) := by
  induction rounds generalizing stack with
  | zero => exact inRuns
  | succ rounds ih =>
      rw [mergeHeavier]
      split
      · rename_i right left rest waiting
        split
        · exact ih (inRuns_mergeBehind [] waiting inRuns)
        · exact inRuns
      · exact inRuns

theorem inRuns_push (whole : Nat) {values : List β}
    (inRuns : InRuns before precedes (stack.runs ++ values :: later)) :
    InRuns before precedes ((stack.push before whole values).runs ++ later) := by
  unfold push
  split
  · rw [runs_enqueue, List.append_assoc]
    exact inRuns
  · dsimp only
    rw [runs_enqueue, List.append_assoc]
    exact inRuns_mergeHeavier _ _ inRuns

theorem inRuns_foldl_push (whole : Nat) {values : List (List β)}
    (inRuns : InRuns before precedes (stack.runs ++ values)) :
    InRuns before precedes (values.foldl (push before whole) stack).runs := by
  induction values generalizing stack with
  | nil => rwa [List.append_nil] at inRuns
  | cons run rest ih => exact ih (inRuns_push whole inRuns)

theorem inRuns_mergeAll (rounds : Nat) (inRuns : InRuns before precedes (stack.runs ++ later)) :
    InRuns before precedes ((stack.mergeAll before rounds).runs ++ later) := by
  induction rounds generalizing stack with
  | zero => exact inRuns
  | succ rounds ih =>
      rw [mergeAll]
      split
      · rename_i last right left rest waiting
        split
        · exact ih (inRuns_mergeBehind [last] waiting inRuns)
        · exact ih (inRuns_mergeBehind [] waiting inRuns)
      · rename_i right left rest _ waiting
        exact ih (inRuns_mergeBehind [] waiting inRuns)
      · exact inRuns

end Merges

theorem length_mergeBehind (before : β → β → Bool) (stack : MergeStack β)
    (first rest : List (WaitingRun β)) (right left : WaitingRun β) :
    (stack.mergeBehind before first right left rest).waiting.length =
      first.length + rest.length + 1 := by
  simp [mergeBehind, Nat.add_assoc]

theorem length_mergeAll (before : β → β → Bool) {rounds : Nat}
    (enough : stack.waiting.length ≤ rounds + 1) :
    (stack.mergeAll before rounds).waiting.length ≤ 1 := by
  induction rounds generalizing stack with
  | zero => exact enough
  | succ rounds ih =>
      rw [mergeAll]
      split
      · rename_i last right left rest waiting
        simp only [waiting, List.length_cons] at enough
        split <;> apply ih <;> rw [length_mergeBehind] <;> simp only [List.length] <;> omega
      · rename_i right left rest _ waiting
        simp only [waiting, List.length_cons] at enough
        apply ih
        rw [length_mergeBehind, List.length_nil]
        omega
      · rename_i few
        rcases waiting : stack.waiting with _ | ⟨right, _ | ⟨left, rest⟩⟩
        · exact Nat.zero_le 1
        · exact Nat.le_refl 1
        · exact (few right left rest waiting).elim

end MergeStack

/-- The sorted list is in the order that the comparison tells of the entries. -/
theorem pairwise_adaptiveSort [IsStrictOrder β precedes] {values : List β}
    (decided : values.Pairwise (Decides before precedes)) :
    (adaptiveSort before values).Pairwise precedes := by
  have start : InRuns before precedes
      (MergeStack.runs ⟨[], firstThreshold⟩ ++ runsOf before (leastRun values.length) values) :=
    inRuns_runsOf _ decided
  have pushed := MergeStack.inRuns_foldl_push values.length start
  unfold adaptiveSort
  dsimp only
  generalize List.foldl _ _ _ = stack at pushed ⊢
  rw [← List.append_nil stack.runs] at pushed
  have merged := MergeStack.inRuns_mergeAll stack.waiting.length pushed
  have few := MergeStack.length_mergeAll before (Nat.le_succ stack.waiting.length)
  rw [List.append_nil] at merged
  generalize stack.mergeAll before stack.waiting.length = final at merged few
  change final.runs.flatten.Pairwise precedes
  have alone : final.runs.length ≤ 1 := by
    simpa only [MergeStack.runs, List.length_map, List.length_reverse] using few
  match final.runs, merged, alone with
  | [], _, _ => exact .nil
  | [run], merged, _ =>
      rw [List.flatten_singleton]
      exact merged.sorted run List.mem_cons_self

section Climbing

def Climbs (before : β → β → Bool) (values : List β) : Prop :=
  values.IsChain fun first second => before second first = false

theorem ascendingRun_of_climbs {last : β} {values : List β}
    (climbs : Climbs before (last :: values)) :
    ascendingRun before last values = (values, []) := by
  induction values generalizing last with
  | nil => rfl
  | cons next rest ih =>
      obtain ⟨up, later⟩ := List.isChain_cons_cons.mp climbs
      simp only [ascendingRun, up, ih later, Bool.false_eq_true, if_false]

theorem firstRun_of_climbs {first : β} {rest : List β} (climbs : Climbs before (first :: rest)) :
    firstRun before first rest = (first :: rest, []) := by
  cases rest with
  | nil => rfl
  | cons second rest =>
      obtain ⟨up, later⟩ := List.isChain_cons_cons.mp climbs
      simp only [firstRun, up, ascendingRun_of_climbs later, Bool.false_eq_true, if_false]

theorem adaptiveSort_of_climbs {values : List β} (climbs : Climbs before values) :
    adaptiveSort before values = values := by
  cases values with
  | nil => exact (adaptiveSort_perm before []).eq_nil
  | cons first rest =>
      have run : runsOf before (leastRun (first :: rest).length) (first :: rest) =
          [first :: rest] := by
        simp only [runsOf, runOfLength, firstRun_of_climbs climbs, List.take_nil, List.foldl_nil,
          List.drop_nil]
      unfold adaptiveSort
      dsimp only
      rw [run]
      exact List.append_nil _

end Climbing

end Sorting

end ManeuverRanking
