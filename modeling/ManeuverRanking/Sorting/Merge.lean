import ManeuverRanking.Bisection

/-!
Merging of two runs in order. Entries are taken one by one until one run wins often in a row; then
whole stretches are taken, their lengths found by doubling strides. How often a run must win is a
threshold that adapts to the entries and is handed on from merge to merge. No entry is lost.
-/

namespace ManeuverRanking

namespace Sorting

inductive MergeEnd where
  | front
  | back
  deriving DecidableEq, Repr

/-- One of two runs: the shorter one, whose last entry comes behind all of the other, and the longer
one, whose first entry comes before all of the other. -/
inductive Side where
  | shorter
  | longer
  deriving DecidableEq, Repr

def Side.other : Side → Side
  | .shorter => .longer
  | .longer => .shorter

def MergeEnd.firstSide : MergeEnd → Side
  | .front => .shorter
  | .back => .longer

def stride (test : Nat → Bool) (size last next : Nat) : Nat × Nat :=
  -- The last position known to pass, and the first one known to fail or the end.
  if next < size then
    if test next then stride test size next (2 * next + 1) else (last, next)
  else (last, size)
termination_by size - next

/-- The number of positions from zero on that pass a test, provided that none passes behind one that
fails. Entries merged from the back are halved in the direction of the front. -/
def gallop (mergeEnd : MergeEnd) (test : Nat → Bool) (size : Nat) : Nat :=
  if test 0 then
    let (last, next) := stride test size 0 1
    match mergeEnd with
    | .front => partitionPoint test (last + 1) next
    | .back => next - partitionPoint (fun rest => !test (next - 1 - rest)) 0 (next - (last + 1))
  else 0

inductive Pace where
  | steps (shorterWins longerWins : Nat)
  | stretches

structure Merging (β : Type) where
  shorter : List β
  longer : List β
  taken : List β
  threshold : Nat
  pace : Pace

namespace Merging

variable {β : Type}

def entries (merging : Merging β) : List β :=
  merging.taken.reverse ++ (merging.longer ++ merging.shorter)

def isOver (merging : Merging β) : Bool :=
  merging.longer.isEmpty || decide (merging.shorter.length ≤ 1)

def take (merging : Merging β) (side : Side) (count : Nat) : Merging β :=
  -- The latest entries taken stand first.
  match side with
  | .shorter =>
      { merging with
        shorter := merging.shorter.drop count
        taken := (merging.shorter.take count).reverse ++ merging.taken }
  | .longer =>
      { merging with
        longer := merging.longer.drop count
        taken := (merging.longer.take count).reverse ++ merging.taken }

variable (before : β → β → Bool) (mergeEnd : MergeEnd)

def longerWins (long short : β) : Bool :=
  -- Of entries in no order the one of the left run goes first.
  match mergeEnd with
  | .front => before long short
  | .back => before short long

def stretch (merging : Merging β) (side : Side) : Nat :=
  match side, merging.longer.head?, merging.shorter.head? with
  | .longer, _, some short =>
      gallop mergeEnd
        (fun position =>
          merging.longer[position]?.any fun long => longerWins before mergeEnd long short)
        merging.longer.length
  | .shorter, some long, _ =>
      gallop mergeEnd
        (fun position =>
          merging.shorter[position]?.any fun short => !longerWins before mergeEnd long short)
        merging.shorter.length
  | _, _, _ => 0

def takeFirst (merging : Merging β) (shorterWins longerWins : Nat) : Merging β :=
  match merging.longer, merging.shorter with
  | long :: _, short :: _ =>
      if Merging.longerWins before mergeEnd long short then
        { merging.take .longer 1 with pace := .steps 0 (longerWins + 1) }
      else { merging.take .shorter 1 with pace := .steps (shorterWins + 1) 0 }
  | _, _ => merging

def quicken (merging : Merging β) : Merging β :=
  match merging.pace with
  | .steps shorterWins longerWins =>
      if merging.threshold ≤ max shorterWins longerWins then
        { merging with threshold := merging.threshold + 1, pace := .stretches }
      else merging
  | .stretches => merging

def takeStretch (merging : Merging β) (side : Side) : Merging β :=
  let next := merging.take side (merging.stretch before mergeEnd side)
  if next.isOver then next else next.take side.other 1

def leastStretch : Nat := 7

/-- Takes a stretch of each side. Going on in stretches lowers the threshold, leaving off raises
it. -/
def takeStretches (merging : Merging β) : Merging β :=
  let start := { merging with threshold := max (merging.threshold - 1) 1 }
  let side := mergeEnd.firstSide
  let first := start.takeStretch before mergeEnd side
  if first.isOver then first
  else
    let second := first.takeStretch before mergeEnd side.other
    if second.isOver then second
    else if leastStretch ≤ start.stretch before mergeEnd side
        ∨ leastStretch ≤ first.stretch before mergeEnd side.other then second
    else { second with threshold := second.threshold + 1, pace := .steps 0 0 }

def advance (merging : Merging β) : Merging β :=
  match merging.pace with
  | .steps shorterWins longerWins =>
      let next := merging.takeFirst before mergeEnd shorterWins longerWins
      if next.isOver then next else next.quicken
  | .stretches => merging.takeStretches before mergeEnd

def finish : Nat → Merging β → Merging β
  | 0, merging => merging
  | rounds + 1, merging =>
      if merging.isOver then merging else finish rounds (merging.advance before mergeEnd)

theorem take_entries_perm (merging : Merging β) (side : Side) (count : Nat) :
    (merging.take side count).entries.Perm merging.entries := by
  cases side with
  | shorter =>
      simp only [entries, take, List.reverse_append, List.reverse_reverse, List.append_assoc]
      refine List.Perm.append_left _ ?_
      rw [← List.append_assoc]
      refine (List.perm_append_comm.append_right _).trans ?_
      rw [List.append_assoc, List.take_append_drop]
  | longer =>
      simp only [entries, take, List.reverse_append, List.reverse_reverse, List.append_assoc]
      rw [← List.append_assoc (merging.longer.take count), List.take_append_drop]

theorem takeFirst_entries_perm (merging : Merging β) (shorterWins longerWins : Nat) :
    (merging.takeFirst before mergeEnd shorterWins longerWins).entries.Perm merging.entries := by
  unfold takeFirst
  split
  · split
    · exact take_entries_perm merging .longer 1
    · exact take_entries_perm merging .shorter 1
  · exact .refl _

theorem quicken_entries (merging : Merging β) : merging.quicken.entries = merging.entries := by
  unfold quicken
  split
  · split <;> rfl
  · rfl

theorem takeStretch_entries_perm (merging : Merging β) (side : Side) :
    (merging.takeStretch before mergeEnd side).entries.Perm merging.entries := by
  unfold takeStretch
  dsimp only
  split
  · exact take_entries_perm ..
  · exact (take_entries_perm ..).trans (take_entries_perm ..)

theorem takeStretches_entries_perm (merging : Merging β) :
    (merging.takeStretches before mergeEnd).entries.Perm merging.entries := by
  have first := takeStretch_entries_perm before mergeEnd
    { merging with threshold := max (merging.threshold - 1) 1 } mergeEnd.firstSide
  unfold takeStretches
  dsimp only
  split
  · exact first
  · have second := (takeStretch_entries_perm before mergeEnd _ mergeEnd.firstSide.other).trans first
    split
    · exact second
    · split
      · exact second
      · exact second

theorem advance_entries_perm (merging : Merging β) :
    (merging.advance before mergeEnd).entries.Perm merging.entries := by
  unfold advance
  split
  · dsimp only
    split
    · exact takeFirst_entries_perm ..
    · rw [quicken_entries]
      exact takeFirst_entries_perm ..
  · exact takeStretches_entries_perm ..

theorem finish_entries_perm (rounds : Nat) (merging : Merging β) :
    (merging.finish before mergeEnd rounds).entries.Perm merging.entries := by
  induction rounds generalizing merging with
  | zero => exact .refl _
  | succ rounds ih =>
      rw [finish]
      split
      · exact .refl _
      · exact (ih _).trans (advance_entries_perm before mergeEnd merging)

end Merging

structure Merged (β : Type) where
  values : List β
  threshold : Nat

variable {β : Type} (before : β → β → Bool)

def mergeOverlap (threshold : Nat) (left right : List β) : Merged β :=
  let rounds := left.length + right.length
  if left.length ≤ right.length then
    let start : Merging β := ⟨left, right, [], threshold, .steps 0 0⟩
    let stop := (start.take .longer 1).finish before .front rounds
    ⟨stop.entries, stop.threshold⟩
  else
    let start : Merging β := ⟨right.reverse, left.reverse, [], threshold, .steps 0 0⟩
    let stop := (start.take .longer 1).finish before .back rounds
    ⟨stop.entries.reverse, stop.threshold⟩

def settledBefore (left right : List β) : Nat :=
  match right.head? with
  | some first =>
      gallop .front (fun position => left[position]?.any fun value => !before first value)
        left.length
  | none => left.length

def settledBehind (left right : List β) : Nat :=
  match left.getLast? with
  | some last =>
      let fromEnd := right.reverse
      gallop .back (fun position => fromEnd[position]?.any fun value => !before value last)
        right.length
  | none => right.length

def mergeRuns (threshold : Nat) (left right : List β) : Merged β :=
  let settled := settledBefore before left right
  let middle := left.drop settled
  if middle.isEmpty then ⟨left.take settled ++ right, threshold⟩
  else
    let count := right.length - settledBehind before middle right
    if count = 0 then ⟨left ++ right, threshold⟩
    else
      let merged := mergeOverlap before threshold middle (right.take count)
      ⟨left.take settled ++ (merged.values ++ right.drop count), merged.threshold⟩

theorem mergeOverlap_perm (threshold : Nat) (left right : List β) :
    (mergeOverlap before threshold left right).values.Perm (left ++ right) := by
  unfold mergeOverlap
  split
  · refine (Merging.finish_entries_perm ..).trans ((Merging.take_entries_perm ..).trans ?_)
    simpa [Merging.entries] using List.perm_append_comm
  · refine (List.reverse_perm _).trans
      ((Merging.finish_entries_perm ..).trans ((Merging.take_entries_perm ..).trans ?_))
    simpa [Merging.entries] using (List.reverse_perm left).append (List.reverse_perm right)

theorem mergeRuns_perm (threshold : Nat) (left right : List β) :
    (mergeRuns before threshold left right).values.Perm (left ++ right) := by
  unfold mergeRuns
  dsimp only
  split
  · rename_i settled
    have whole := List.take_append_drop (settledBefore before left right) left
    rw [List.isEmpty_iff.1 settled, List.append_nil] at whole
    rw [whole]
  · split
    · exact .refl _
    · refine List.Perm.trans (.append_left _ ((mergeOverlap_perm ..).append_right _)) ?_
      rw [List.append_assoc, List.take_append_drop, ← List.append_assoc, List.take_append_drop]

end Sorting

end ManeuverRanking
