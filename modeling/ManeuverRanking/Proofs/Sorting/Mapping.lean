import ManeuverRanking.Candidate.Ranking

/-!
Sorting looks at its entries only through the comparison. Entries that are replaced by others which
compare in the same way end up in the same places.
-/

namespace ManeuverRanking

namespace Sorting

variable {β γ : Type} (change : β → γ) {before : β → β → Bool} {before' : γ → γ → Bool}

theorem any_getElem?_map (values : List β) (test : γ → Bool) (position : Nat) :
    (values.map change)[position]?.any test = values[position]?.any (test ∘ change) := by
  rw [List.getElem?_map, Option.any_map]
  rfl

section Runs

variable (agree : ∀ first second, before' (change first) (change second) = before first second)
include agree

theorem descendingRun_map (last : β) (values : List β) :
    descendingRun before' (change last) (values.map change) =
      ((descendingRun before last values).1.map change,
        (descendingRun before last values).2.map change) := by
  induction values generalizing last with
  | nil => rfl
  | cons next rest ih =>
      rw [List.map_cons, descendingRun, descendingRun, agree]
      split
      · simp only [ih, List.map_cons]
      · rfl

theorem ascendingRun_map (last : β) (values : List β) :
    ascendingRun before' (change last) (values.map change) =
      ((ascendingRun before last values).1.map change,
        (ascendingRun before last values).2.map change) := by
  induction values generalizing last with
  | nil => rfl
  | cons next rest ih =>
      rw [List.map_cons, ascendingRun, ascendingRun, agree]
      split
      · rfl
      · simp only [ih, List.map_cons]

theorem firstRun_map (first : β) (rest : List β) :
    firstRun before' (change first) (rest.map change) =
      ((firstRun before first rest).1.map change, (firstRun before first rest).2.map change) := by
  cases rest with
  | nil => rfl
  | cons second rest =>
      rw [List.map_cons, firstRun, firstRun, agree]
      split
      · simp only [descendingRun_map change agree, List.map_reverse, List.map_cons]
      · simp only [ascendingRun_map change agree, List.map_cons]

theorem insertSorted_map (sorted : List β) (value : β) :
    insertSorted before' (sorted.map change) (change value) =
      (insertSorted before sorted value).map change := by
  have same : (fun present => !before' (change value) present) ∘ change =
      fun present => !before value present := by
    funext present
    simp only [Function.comp_apply, agree]
  simp only [insertSorted, any_getElem?_map, same, List.length_map, List.map_append, List.map_take,
    List.map_cons, List.map_drop]

theorem foldl_insertSorted_map (values sorted : List β) :
    (values.map change).foldl (insertSorted before') (sorted.map change) =
      (values.foldl (insertSorted before) sorted).map change := by
  induction values generalizing sorted with
  | nil => rfl
  | cons value rest ih =>
      rw [List.map_cons, List.foldl_cons, List.foldl_cons, insertSorted_map change agree, ih]

theorem runOfLength_map (least : Nat) (first : β) (rest : List β) :
    runOfLength before' least (change first) (rest.map change) =
      ((runOfLength before least first rest).1.map change,
        (runOfLength before least first rest).2.map change) := by
  simp only [runOfLength, firstRun_map change agree, List.length_map, ← List.map_take,
    ← List.map_drop, foldl_insertSorted_map change agree]

theorem runsOf_map (least : Nat) (values : List β) :
    runsOf before' least (values.map change) =
      (runsOf before least values).map (List.map change) := by
  fun_induction runsOf before least values with
  | case1 => simp [runsOf]
  | case2 first rest next ih =>
      rw [List.map_cons, runsOf, List.map_cons, ← ih]
      simp only [runOfLength_map change agree, next]

end Runs

namespace Merging

def map (merging : Merging β) : Merging γ :=
  ⟨merging.shorter.map change, merging.longer.map change, merging.taken.map change,
    merging.threshold, merging.pace⟩

theorem entries_map (merging : Merging β) :
    (merging.map change).entries = merging.entries.map change := by
  simp only [entries, map, List.map_append, List.map_reverse]

theorem isOver_map (merging : Merging β) : (merging.map change).isOver = merging.isOver := by
  simp only [isOver, map, List.isEmpty_map, List.length_map]

theorem take_map (merging : Merging β) (side : Side) (count : Nat) :
    (merging.map change).take side count = (merging.take side count).map change := by
  cases side <;>
    simp only [take, map, List.map_append, List.map_reverse, List.map_take, List.map_drop]

theorem quicken_map (merging : Merging β) :
    (merging.map change).quicken = merging.quicken.map change := by
  obtain ⟨shorter, longer, taken, threshold, pace⟩ := merging
  cases pace with
  | stretches => rfl
  | steps shorterWins longerWins =>
      by_cases often : threshold ≤ max shorterWins longerWins
      · simp only [quicken, map, often, if_true]
      · simp only [quicken, map, often, if_false]

variable (agree : ∀ first second, before' (change first) (change second) = before first second)
include agree

theorem longerWins_map (mergeEnd : MergeEnd) (long short : β) :
    longerWins before' mergeEnd (change long) (change short) =
      longerWins before mergeEnd long short := by
  cases mergeEnd <;> simp only [longerWins, agree]

theorem stretch_map (mergeEnd : MergeEnd) (merging : Merging β) (side : Side) :
    (merging.map change).stretch before' mergeEnd side = merging.stretch before mergeEnd side := by
  cases side with
  | shorter =>
      cases longer : merging.longer.head? with
      | none => simp [stretch, map, longer]
      | some long =>
          simp only [stretch, map, List.head?_map, longer, Option.map_some, List.length_map,
            any_getElem?_map, Function.comp_def, longerWins_map change agree]
  | longer =>
      cases shorter : merging.shorter.head? with
      | none => simp [stretch, map, shorter]
      | some short =>
          simp only [stretch, map, List.head?_map, shorter, Option.map_some, List.length_map,
            any_getElem?_map, Function.comp_def, longerWins_map change agree]

theorem takeFirst_map (mergeEnd : MergeEnd) (merging : Merging β) (shorterWins longerWins : Nat) :
    (merging.map change).takeFirst before' mergeEnd shorterWins longerWins =
      (merging.takeFirst before mergeEnd shorterWins longerWins).map change := by
  obtain ⟨shorter, longer, taken, threshold, pace⟩ := merging
  cases longer with
  | nil => rfl
  | cons long moreLong =>
      cases shorter with
      | nil => rfl
      | cons short moreShort =>
          simp only [takeFirst, map, List.map_cons, longerWins_map change agree]
          split
          · exact congrArg (fun next : Merging γ => { next with pace := .steps 0 (longerWins + 1) })
              (take_map change ⟨short :: moreShort, long :: moreLong, taken, threshold, pace⟩
                .longer 1)
          · exact congrArg (fun next : Merging γ => { next with pace := .steps (shorterWins + 1) 0 })
              (take_map change ⟨short :: moreShort, long :: moreLong, taken, threshold, pace⟩
                .shorter 1)

theorem takeStretch_map (mergeEnd : MergeEnd) (merging : Merging β) (side : Side) :
    (merging.map change).takeStretch before' mergeEnd side =
      (merging.takeStretch before mergeEnd side).map change := by
  simp only [takeStretch, stretch_map change agree, take_map, isOver_map]
  split <;> rfl

theorem takeStretches_map (mergeEnd : MergeEnd) (merging : Merging β) :
    (merging.map change).takeStretches before' mergeEnd =
      (merging.takeStretches before mergeEnd).map change := by
  let start : Merging β := { merging with threshold := max (merging.threshold - 1) 1 }
  have lowered : { merging.map change with threshold := max ((merging.map change).threshold - 1) 1 } =
      start.map change := rfl
  simp only [takeStretches, lowered, takeStretch_map change agree, isOver_map,
    stretch_map change agree]
  split
  · rfl
  · split
    · rfl
    · split <;> rfl

theorem advance_map (mergeEnd : MergeEnd) (merging : Merging β) :
    (merging.map change).advance before' mergeEnd =
      (merging.advance before mergeEnd).map change := by
  have same : (merging.map change).pace = merging.pace := rfl
  cases pace : merging.pace with
  | stretches =>
      simp only [advance, same, pace]
      exact takeStretches_map change agree mergeEnd merging
  | steps shorterWins longerWins =>
      simp only [advance, same, pace, takeFirst_map change agree, isOver_map, quicken_map]
      split <;> rfl

theorem finish_map (mergeEnd : MergeEnd) (rounds : Nat) (merging : Merging β) :
    (merging.map change).finish before' mergeEnd rounds =
      (merging.finish before mergeEnd rounds).map change := by
  induction rounds generalizing merging with
  | zero => rfl
  | succ rounds ih =>
      rw [finish, finish, isOver_map]
      split
      · rfl
      · rw [advance_map change agree, ih]

end Merging

def Merged.map (merged : Merged β) : Merged γ :=
  ⟨merged.values.map change, merged.threshold⟩

section Merges

variable (agree : ∀ first second, before' (change first) (change second) = before first second)
include agree

theorem mergeOverlap_map (threshold : Nat) (left right : List β) :
    mergeOverlap before' threshold (left.map change) (right.map change) =
      (mergeOverlap before threshold left right).map change := by
  have front : (⟨left.map change, right.map change, [], threshold, .steps 0 0⟩ : Merging γ) =
      Merging.map change ⟨left, right, [], threshold, .steps 0 0⟩ := rfl
  have back : (⟨(right.map change).reverse, (left.map change).reverse, [], threshold,
      .steps 0 0⟩ : Merging γ) =
      Merging.map change ⟨right.reverse, left.reverse, [], threshold, .steps 0 0⟩ := by
    simp only [Merging.map, List.map_reverse, List.map_nil]
  simp only [mergeOverlap, List.length_map, front, back, Merging.take_map,
    Merging.finish_map change agree, Merging.entries_map]
  split
  · rfl
  · simp only [Merged.map, List.map_reverse]
    rfl

theorem settledBefore_map (left right : List β) :
    settledBefore before' (left.map change) (right.map change) =
      settledBefore before left right := by
  cases first : right.head? with
  | none => simp [settledBefore, first]
  | some value =>
      simp only [settledBefore, List.head?_map, first, Option.map_some, List.length_map,
        any_getElem?_map, Function.comp_def, agree]

theorem settledBehind_map (left right : List β) :
    settledBehind before' (left.map change) (right.map change) =
      settledBehind before left right := by
  cases last : left.getLast? with
  | none => simp [settledBehind, last]
  | some value =>
      simp only [settledBehind, List.getLast?_map, last, Option.map_some, List.length_map,
        ← List.map_reverse, any_getElem?_map, Function.comp_def, agree]

theorem mergeRuns_map (threshold : Nat) (left right : List β) :
    mergeRuns before' threshold (left.map change) (right.map change) =
      (mergeRuns before threshold left right).map change := by
  simp only [mergeRuns, settledBefore_map change agree, ← List.map_drop, ← List.map_take,
    List.isEmpty_map, settledBehind_map change agree, List.length_map]
  split
  · simp only [Merged.map, List.map_append]
  · split
    · simp only [Merged.map, List.map_append]
    · simp only [mergeOverlap_map change agree, Merged.map, List.map_append]

end Merges

def WaitingRun.map (run : WaitingRun β) : WaitingRun γ :=
  ⟨run.start, run.values.map change, run.weight⟩

namespace MergeStack

def map (stack : MergeStack β) : MergeStack γ :=
  ⟨stack.waiting.map (WaitingRun.map change), stack.threshold⟩

theorem entries_map (stack : MergeStack β) :
    (stack.map change).entries = stack.entries.map change := by
  simp only [entries, map, ← List.map_reverse, List.map_map, List.map_flatten]
  rfl

theorem enqueue_map (stack : MergeStack β) (weight start : Nat) (values : List β) :
    (stack.map change).enqueue weight start (values.map change) =
      (stack.enqueue weight start values).map change := by
  obtain ⟨waiting, threshold⟩ := stack
  cases waiting <;> rfl

variable (agree : ∀ first second, before' (change first) (change second) = before first second)
include agree

theorem mergeBehind_map (stack : MergeStack β) (first : List (WaitingRun β))
    (right left : WaitingRun β) (rest : List (WaitingRun β)) :
    (stack.map change).mergeBehind before' (first.map (WaitingRun.map change)) (right.map change)
      (left.map change) (rest.map (WaitingRun.map change)) =
      (stack.mergeBehind before first right left rest).map change := by
  have merged := mergeRuns_map change agree stack.threshold left.values right.values
  simp only [mergeBehind, map, WaitingRun.map, merged, Merged.map, List.map_append, List.map_cons]

theorem mergeHeavier_map (weight rounds : Nat) (stack : MergeStack β) :
    (stack.map change).mergeHeavier before' weight rounds =
      (stack.mergeHeavier before weight rounds).map change := by
  induction rounds generalizing stack with
  | zero => rfl
  | succ rounds ih =>
      obtain ⟨waiting, threshold⟩ := stack
      match waiting with
      | [] => rfl
      | [run] => rfl
      | right :: left :: rest =>
          have merged := mergeBehind_map change agree ⟨right :: left :: rest, threshold⟩ []
            right left rest
          have weighs : (left.map change).weight = left.weight := rfl
          rw [mergeHeavier, mergeHeavier]
          simp only [map, List.map_cons, weighs]
          split
          · exact (congrArg (mergeHeavier before' weight rounds) merged).trans (ih _)
          · rfl

theorem push_map (whole : Nat) (stack : MergeStack β) (values : List β) :
    (stack.map change).push before' whole (values.map change) =
      (stack.push before whole values).map change := by
  obtain ⟨waiting, threshold⟩ := stack
  cases waiting with
  | nil => rfl
  | cons last rest =>
      have heavier := fun weight rounds =>
        mergeHeavier_map change agree weight rounds ⟨last :: rest, threshold⟩
      simp only [map, List.map_cons] at heavier
      simp only [push, map, List.map_cons, WaitingRun.map, List.length_map, List.length_cons]
      simp only [WaitingRun.map] at heavier
      rw [heavier]
      exact enqueue_map change _ _ _ values

theorem foldl_push_map (whole : Nat) (runs : List (List β)) (stack : MergeStack β) :
    (runs.map (List.map change)).foldl (push before' whole) (stack.map change) =
      (runs.foldl (push before whole) stack).map change := by
  induction runs generalizing stack with
  | nil => rfl
  | cons run rest ih =>
      rw [List.map_cons, List.foldl_cons, List.foldl_cons, push_map change agree, ih]

theorem mergeAll_map (rounds : Nat) (stack : MergeStack β) :
    (stack.map change).mergeAll before' rounds = (stack.mergeAll before rounds).map change := by
  induction rounds generalizing stack with
  | zero => rfl
  | succ rounds ih =>
      obtain ⟨waiting, threshold⟩ := stack
      match waiting with
      | [] => rfl
      | [run] => rfl
      | [right, left] =>
          have merged := mergeBehind_map change agree ⟨[right, left], threshold⟩ [] right left []
          exact (congrArg (mergeAll before' rounds) merged).trans (ih _)
      | last :: right :: left :: rest =>
          have lengths : ∀ run : WaitingRun β,
              (run.map change).values.length = run.values.length :=
            fun run => List.length_map _
          let stack : MergeStack β := ⟨last :: right :: left :: rest, threshold⟩
          have behind := mergeBehind_map change agree stack [last] right left rest
          have ahead := mergeBehind_map change agree stack [] last right (left :: rest)
          rw [mergeAll, mergeAll]
          simp only [map, List.map_cons, lengths]
          split
          · exact (congrArg (mergeAll before' rounds) behind).trans (ih _)
          · exact (congrArg (mergeAll before' rounds) ahead).trans (ih _)

end MergeStack

theorem adaptiveSort_map
    (agree : ∀ first second, before' (change first) (change second) = before first second)
    (values : List β) :
    adaptiveSort before' (values.map change) = (adaptiveSort before values).map change := by
  have start : (⟨[], firstThreshold⟩ : MergeStack γ) =
      MergeStack.map change ⟨[], firstThreshold⟩ := rfl
  have waiting : ∀ stack : MergeStack β,
      (stack.map change).waiting.length = stack.waiting.length :=
    fun stack => List.length_map _
  simp only [adaptiveSort, List.length_map, runsOf_map change agree, start,
    MergeStack.foldl_push_map change agree, waiting, MergeStack.mergeAll_map change agree,
    MergeStack.entries_map]

end Sorting

theorem sortDescending_map {α β γ : Type} [Arithmetic α] (change : β → γ) (key : γ → α)
    (values : List β) :
    sortDescending key (values.map change) =
      (sortDescending (key ∘ change) values).map change := by
  have sorted : Sorting.adaptiveSort (fun left right => decide (key left < key right))
      (values.reverse.map change) = (Sorting.adaptiveSort (fun left right =>
        decide ((key ∘ change) left < (key ∘ change) right)) values.reverse).map change :=
    Sorting.adaptiveSort_map change (fun _ _ => rfl) values.reverse
  have merged : (values.mergeSort fun left right =>
      !decide ((key ∘ change) left < (key ∘ change) right)).map change =
      (values.map change).mergeSort fun left right => !decide (key left < key right) :=
    List.map_mergeSort fun _ _ _ _ => rfl
  have undefined : ((values.map change).any fun value => isUndefined (key value)) =
      values.any fun value => isUndefined ((key ∘ change) value) := List.any_map
  unfold sortDescending
  rw [undefined, ← List.map_reverse]
  split
  · rw [sorted, List.map_reverse]
  · rw [merged]

end ManeuverRanking
