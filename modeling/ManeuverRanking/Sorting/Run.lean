import ManeuverRanking.Bisection

/-!
Runs of a list: stretches that are in order already. A short run is made longer by insertion. A
list falls into runs of a least length, and no entry is lost on the way.
-/

namespace ManeuverRanking

namespace Sorting

variable {β : Type} (before : β → β → Bool)

def descendingRun (last : β) : List β → List β × List β
  | [] => ([], [])
  | next :: rest =>
      if before next last then
        let (run, later) := descendingRun next rest
        (next :: run, later)
      else ([], next :: rest)

def ascendingRun (last : β) : List β → List β × List β
  | [] => ([], [])
  | next :: rest =>
      if before next last then ([], next :: rest)
      else
        let (run, later) := ascendingRun next rest
        (next :: run, later)

def firstRun (first : β) : List β → List β × List β
  | [] => ([first], [])
  | second :: rest =>
      if before second first then
        let (run, later) := descendingRun before second rest
        ((first :: second :: run).reverse, later)
      else
        let (run, later) := ascendingRun before second rest
        (first :: second :: run, later)

def insertSorted (sorted : List β) (value : β) : List β :=
  let point := partitionPoint
    (fun position => sorted[position]?.any fun present => !before value present) 0 sorted.length
  sorted.take point ++ value :: sorted.drop point

def runOfLength (least : Nat) (first : β) (rest : List β) : List β × List β :=
  let (run, later) := firstRun before first rest
  let missing := least - run.length
  ((later.take missing).foldl (insertSorted before) run, later.drop missing)

theorem descendingRun_append (last : β) (values : List β) :
    (descendingRun before last values).1 ++ (descendingRun before last values).2 = values := by
  induction values generalizing last with
  | nil => rfl
  | cons next rest ih =>
      rw [descendingRun]
      split
      · simp [ih next]
      · rfl

theorem ascendingRun_append (last : β) (values : List β) :
    (ascendingRun before last values).1 ++ (ascendingRun before last values).2 = values := by
  induction values generalizing last with
  | nil => rfl
  | cons next rest ih =>
      rw [ascendingRun]
      split
      · rfl
      · simp [ih next]

theorem firstRun_perm (first : β) (rest : List β) :
    ((firstRun before first rest).1 ++ (firstRun before first rest).2).Perm (first :: rest) := by
  cases rest with
  | nil => exact .refl _
  | cons second rest =>
      rw [firstRun]
      split
      · have whole := descendingRun_append before second rest
        exact ((List.reverse_perm _).append_right _).trans (by simp [whole])
      · have whole := ascendingRun_append before second rest
        simp [whole]

theorem insertSorted_perm (sorted : List β) (value : β) :
    (insertSorted before sorted value).Perm (value :: sorted) := by
  unfold insertSorted
  exact List.perm_middle.trans (by simp)

theorem foldl_insertSorted_perm (values sorted : List β) :
    (values.foldl (insertSorted before) sorted).Perm (sorted ++ values) := by
  induction values generalizing sorted with
  | nil => simp
  | cons value rest ih =>
      exact (ih _).trans
        (((insertSorted_perm before sorted value).append_right rest).trans List.perm_middle.symm)

theorem runOfLength_perm (least : Nat) (first : β) (rest : List β) :
    ((runOfLength before least first rest).1 ++ (runOfLength before least first rest).2).Perm
      (first :: rest) := by
  unfold runOfLength
  refine ((foldl_insertSorted_perm before _ _).append_right _).trans ?_
  rw [List.append_assoc, List.take_append_drop]
  exact firstRun_perm before first rest

theorem firstRun_length_pos (first : β) (rest : List β) :
    0 < (firstRun before first rest).1.length := by
  cases rest with
  | nil => exact Nat.one_pos
  | cons second rest =>
      rw [firstRun]
      split <;> simp

theorem runOfLength_shortens (least : Nat) (first : β) (rest : List β) :
    (runOfLength before least first rest).2.length < rest.length + 1 := by
  have whole := (firstRun_perm before first rest).length_eq
  have some := firstRun_length_pos before first rest
  simp only [List.length_append, List.length_cons] at whole
  simp only [runOfLength, List.length_drop]
  omega

def runsOf (least : Nat) : List β → List (List β)
  | [] => []
  | first :: rest =>
      let next := runOfLength before least first rest
      next.1 :: runsOf least next.2
termination_by values => values.length
decreasing_by exact runOfLength_shortens before least first rest

theorem flatten_runsOf_perm (least : Nat) (values : List β) :
    (runsOf before least values).flatten.Perm values := by
  fun_induction runsOf before least values with
  | case1 => exact .refl _
  | case2 first rest next ih =>
      exact (ih.append_left next.1).trans (runOfLength_perm before least first rest)

end Sorting

end ManeuverRanking
