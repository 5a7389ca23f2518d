import ManeuverRanking.Sorting.Merge

/-!
The searches of the adaptive sort, by halving and by doubling strides. Where a test passes up to some
entry of a list and nowhere behind it, both find how many entries pass.
-/

namespace ManeuverRanking

namespace Sorting

section Positions

variable {test : Nat → Bool} {size : Nat}

def Splits (test : Nat → Bool) (point : Nat) : Prop :=
  (∀ position, position < point → test position = true) ∧
    ∀ position, point ≤ position → test position = false

theorem stride_between (test : Nat → Bool) {size last next : Nat} (ahead : last < next)
    (inside : last < size) (passes : test last = true) :
    let reach := stride test size last next
    reach.1 < reach.2 ∧ reach.2 ≤ size ∧ test reach.1 = true ∧
      (reach.2 < size → test reach.2 = false) := by
  fun_induction stride test size last next with
  | case1 last next below passes' ih => exact ih (by omega) below passes'
  | case2 last next below fails =>
      exact ⟨ahead, Nat.le_of_lt below, passes, fun _ => Bool.eq_false_iff.mpr fails⟩
  | case3 last next beyond =>
      exact ⟨inside, Nat.le_refl size, passes, fun short => absurd short (Nat.lt_irrefl size)⟩

variable (downward : ∀ first second, first ≤ second → test second = true → test first = true)

include downward

theorem upward_of_downward (first second : Nat) (ordered : first ≤ second)
    (fails : test first = false) : test second = false := by
  cases passes : test second with
  | false => rfl
  | true => exact absurd (downward first second ordered passes) (Bool.eq_false_iff.mp fails)

section Between

variable {last next : Nat} (ahead : last < next)
  (reached : ∀ position, position < last + 1 → test position = true)
  (missed : ∀ position, next ≤ position → test position = false)

include ahead reached missed

theorem splits_halving_front : Splits test (partitionPoint test (last + 1) next) := by
  obtain ⟨-, -, before, behind⟩ :=
    partitionPoint_splits test downward (last + 1) next ahead reached missed
  exact ⟨before, behind⟩

theorem splits_halving_back : Splits test
    (next - partitionPoint (fun rest => !test (next - 1 - rest)) 0 (next - (last + 1))) := by
  obtain ⟨-, short, before, behind⟩ := partitionPoint_splits
    (fun rest => !test (next - 1 - rest))
    (fun first second ordered => by
      simp only [Bool.not_eq_true']
      exact upward_of_downward downward _ _ (by omega))
    0 (next - (last + 1)) (Nat.zero_le _) (fun position below => absurd below (Nat.not_lt_zero _))
    (fun position beyond => by
      simp only [Bool.not_eq_false']
      exact reached _ (by omega))
  simp only [Bool.not_eq_true', Bool.not_eq_false'] at before behind
  have turned (position : Nat) (near : position < next) :
      next - 1 - (next - 1 - position) = position := by
    omega
  constructor
  · intro position below
    have near : position < next := by omega
    have passes := behind (next - 1 - position) (by omega)
    rwa [turned position near] at passes
  · intro position beyond
    rcases Nat.lt_or_ge position next with near | far
    · have fails := before (next - 1 - position) (by omega)
      rwa [turned position near] at fails
    · exact missed position far

end Between

variable (ends : ∀ position, size ≤ position → test position = false)

include ends

theorem splits_partitionPoint : Splits test (partitionPoint test 0 size) := by
  obtain ⟨-, -, before, behind⟩ := partitionPoint_splits test downward 0 size (Nat.zero_le size)
    (fun position below => absurd below (Nat.not_lt_zero _)) ends
  exact ⟨before, behind⟩

theorem splits_gallop (mergeEnd : MergeEnd) : Splits test (gallop mergeEnd test size) := by
  unfold gallop
  split
  · rename_i start
    have inside : 0 < size := by
      refine Nat.pos_of_ne_zero fun none => ?_
      exact Bool.false_ne_true ((ends 0 (Nat.le_of_eq none)).symm.trans start)
    obtain ⟨ahead, within, passes, fails⟩ := stride_between test Nat.zero_lt_one inside start
    have reached (position : Nat) (below : position < (stride test size 0 1).1 + 1) :
        test position = true :=
      downward position _ (Nat.le_of_lt_succ below) passes
    have missed (position : Nat) (beyond : (stride test size 0 1).2 ≤ position) :
        test position = false := by
      rcases Nat.lt_or_eq_of_le within with short | whole
      · exact upward_of_downward downward _ position beyond (fails short)
      · exact ends position (whole ▸ beyond)
    cases mergeEnd with
    | front => exact splits_halving_front downward ahead reached missed
    | back => exact splits_halving_back downward ahead reached missed
  · rename_i fails
    exact ⟨fun position below => absurd below (Nat.not_lt_zero _), fun position _ =>
      upward_of_downward downward 0 position (Nat.zero_le _) (Bool.eq_false_iff.mpr fails)⟩

end Positions

section Lists

variable {β : Type} {test : β → Bool} {values : List β}

structure Parts (test : β → Bool) (values : List β) (count : Nat) : Prop where
  passes : ∀ value ∈ values.take count, test value = true
  fails : ∀ value ∈ values.drop count, test value = false

theorem Splits.parts {count : Nat}
    (splits : Splits (fun position => values[position]?.any test) count) :
    Parts test values count := by
  constructor
  · intro value inside
    obtain ⟨position, bound, rfl⟩ := List.mem_iff_getElem.mp inside
    have below : position < count ∧ position < values.length := by
      rwa [List.length_take, Nat.lt_min] at bound
    have passes : values[position]?.any test = true := splits.1 position below.1
    rwa [List.getElem?_eq_getElem below.2, Option.any_some, ← List.getElem_take] at passes
  · intro value inside
    obtain ⟨position, bound, rfl⟩ := List.mem_iff_getElem.mp inside
    have beyond : count + position < values.length := by
      rw [List.length_drop] at bound
      omega
    have fails : values[count + position]?.any test = false :=
      splits.2 (count + position) (Nat.le_add_right ..)
    rwa [List.getElem?_eq_getElem beyond, Option.any_some, ← List.getElem_drop] at fails

variable (downward : values.Pairwise fun first second => test second = true → test first = true)

include downward

theorem downward_getElem? (first second : Nat) (ordered : first ≤ second)
    (passes : values[second]?.any test = true) : values[first]?.any test = true := by
  obtain ⟨value, found, passes⟩ := (Option.any_eq_true ..).mp passes
  obtain ⟨bound, rfl⟩ := List.getElem?_eq_some_iff.mp found
  rcases Nat.lt_or_eq_of_le ordered with earlier | rfl
  · have inside := Nat.lt_trans earlier bound
    rw [List.getElem?_eq_getElem inside, Option.any_some]
    exact List.pairwise_iff_getElem.mp downward first second inside bound earlier passes
  · rwa [found, Option.any_some]

theorem parts_partitionPoint :
    Parts test values
      (partitionPoint (fun position => values[position]?.any test) 0 values.length) :=
  (splits_partitionPoint (downward_getElem? downward) fun position beyond => by
    rw [List.getElem?_eq_none beyond, Option.any_none]).parts

theorem parts_gallop (mergeEnd : MergeEnd) :
    Parts test values
      (gallop mergeEnd (fun position => values[position]?.any test) values.length) :=
  (splits_gallop (downward_getElem? downward) (fun position beyond => by
    rw [List.getElem?_eq_none beyond, Option.any_none]) mergeEnd).parts

end Lists

end Sorting

end ManeuverRanking
