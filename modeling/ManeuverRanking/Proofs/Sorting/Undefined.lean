import Mathlib.Data.List.Nodup
import ManeuverRanking.Proofs.Sorting.Mapping
import ManeuverRanking.Proofs.Sorting.Ordered
import ManeuverRanking.Proofs.Sorting.Stable

/-!
The descending order where some keys are undefined. A value with an undefined key compares like the
largest one with what comes behind it and like the smallest one with what comes before it. So such
values stay where they are at the start and at the end, but one in the middle keeps what is on its two
sides apart.
-/

namespace ManeuverRanking

namespace Sorting

/-- A value with its place in a ranking: levels first, then places, and the earlier turn in a tie. -/
structure Placed (β : Type) where
  value : β
  level : Nat
  place : Int
  turn : Nat

variable {β : Type}

def Placed.Below (lower higher : Placed β) : Prop :=
  lower.level < higher.level ∨ lower.level = higher.level ∧
    (lower.place < higher.place ∨ lower.place = higher.place ∧ higher.turn < lower.turn)

instance : IsStrictOrder (Placed β) Placed.Below where
  irrefl entry := by
    unfold Placed.Below
    omega
  trans first second third := by
    unfold Placed.Below
    omega

/-- The adaptive sort finds the one ranking that the comparison of earlier and later values tells. -/
theorem reverse_adaptiveSort_eq {before : β → β → Bool} {placed ranked : List (Placed β)}
    (told : placed.Pairwise fun earlier later =>
      if before earlier.value later.value then earlier.Below later else later.Below earlier)
    (kept : ranked.Perm placed)
    (descending : ranked.Pairwise fun higher lower => lower.Below higher) :
    (adaptiveSort before (placed.map Placed.value).reverse).reverse = ranked.map Placed.value := by
  let before' (first second : Placed β) : Bool := before first.value second.value
  have sorted : (adaptiveSort before' placed.reverse).Pairwise Placed.Below :=
    pairwise_adaptiveSort (List.pairwise_reverse.mpr told)
  have perm : (adaptiveSort before' placed.reverse).Perm ranked.reverse :=
    (adaptiveSort_perm before' _).trans
      ((List.reverse_perm _).trans (kept.symm.trans (List.reverse_perm _).symm))
  have same : adaptiveSort before' placed.reverse = ranked.reverse :=
    perm.eq_of_pairwise (fun _ _ _ _ below above => absurd above (asymm_of Placed.Below below))
      sorted (List.pairwise_reverse.mpr descending)
  rw [← List.map_reverse, adaptiveSort_map Placed.value (fun _ _ => rfl), same, List.map_reverse,
    List.reverse_reverse]

def levelOf (level : Nat) (place : β → Int) (values : List β) : List (Placed β) :=
  values.zipIdx.map fun entry => ⟨entry.1, level, place entry.1, entry.2⟩

section Level

variable {level : Nat} {place : β → Int} {values : List β}

theorem map_value_levelOf : (levelOf level place values).map Placed.value = values := by
  rw [levelOf, List.map_map]
  exact List.zipIdx_map_fst 0 values

theorem of_mem_levelOf {entry : Placed β} (inside : entry ∈ levelOf level place values) :
    entry.level = level ∧ entry.place = place entry.value ∧ entry.value ∈ values := by
  obtain ⟨⟨value, turn⟩, member, rfl⟩ := List.mem_map.mp inside
  exact ⟨rfl, rfl, List.fst_mem_of_mem_zipIdx member⟩

theorem pairwise_turn_levelOf : (levelOf level place values).Pairwise fun earlier later =>
    earlier.turn < later.turn := by
  have turns : (values.zipIdx.map Prod.snd).Pairwise (· < ·) := by
    rw [List.zipIdx_map_snd]
    exact List.pairwise_lt_range'
  exact List.pairwise_map.mpr (List.pairwise_map.mp turns)

theorem pairwise_below_levelOf :
    (levelOf level (fun _ => 0) values).Pairwise fun higher lower => lower.Below higher := by
  refine pairwise_turn_levelOf.imp_of_mem fun inside inside' before => ?_
  obtain ⟨level, place, -⟩ := of_mem_levelOf inside
  obtain ⟨level', place', -⟩ := of_mem_levelOf inside'
  exact .inr ⟨level'.trans level.symm, .inr ⟨place'.trans place.symm, before⟩⟩

end Level

end Sorting

open Sorting

section Key

variable {β : Type} (key : β → Float) {front middle back : List β}

theorem not_lt_of_undefined {left right : β}
    (undefined : isUndefined (key left) = true ∨ isUndefined (key right) = true) :
    ¬ key left < key right := by
  intro less
  obtain ⟨defined, defined'⟩ := Binary64.defined_of_lt less
  rw [← Binary64.isUndefined_eq_false_iff] at defined defined'
  rcases undefined with left | right
  · exact Bool.false_ne_true (defined.symm.trans left)
  · exact Bool.false_ne_true (defined'.symm.trans right)

def Tells (earlier later : Placed β) : Prop :=
  if decide (key earlier.value < key later.value) then earlier.Below later else later.Below earlier

variable {key}

theorem tells_of_undefined {earlier later : Placed β}
    (undefined : isUndefined (key earlier.value) = true ∨ isUndefined (key later.value) = true)
    (below : later.Below earlier) : Tells key earlier later := by
  rw [Tells, decide_eq_false (not_lt_of_undefined key undefined)]
  exact below

theorem pairwise_tells_of_undefined {level : Nat} {values : List β}
    (undefined : ∀ value ∈ values, isUndefined (key value) = true) :
    (levelOf level (fun _ => 0) values).Pairwise (Tells key) := by
  refine pairwise_below_levelOf.imp_of_mem fun inside _ below => ?_
  exact tells_of_undefined (.inl (undefined _ (of_mem_levelOf inside).2.2)) below

theorem pairwise_tells_of_defined {level : Nat} {values : List β}
    (defined : ∀ value ∈ values, isUndefined (key value) = false) :
    (levelOf level (fun value => Binary64.place (key value)) values).Pairwise (Tells key) := by
  refine pairwise_turn_levelOf.imp_of_mem fun {earlier later} inside inside' before => ?_
  obtain ⟨level, place, member⟩ := of_mem_levelOf inside
  obtain ⟨level', place', member'⟩ := of_mem_levelOf inside'
  have less := Binary64.lt_iff_place_lt
    ((Binary64.isUndefined_eq_false_iff _).mp (defined _ member))
    ((Binary64.isUndefined_eq_false_iff _).mp (defined _ member'))
  rw [← place, ← place'] at less
  unfold Tells Placed.Below
  split
  · rename_i lower
    have lower := less.mp (of_decide_eq_true lower)
    omega
  · rename_i higher
    have higher := mt less.mpr fun lower => higher (decide_eq_true lower)
    omega

def byPlace (key : β → Float) : β → β → Bool :=
  descends fun value => Binary64.place (key value)

theorem sortDescending_eq_byPlace {values : List β}
    (defined : ∀ value ∈ values, isUndefined (key value) = false) :
    sortDescending key values = values.mergeSort (byPlace key) := by
  apply sortDescending_eq_mergeSort _ defined
  intro left inside right inside'
  exact Binary64.lt_iff_place_lt ((Binary64.isUndefined_eq_false_iff _).mp (defined left inside))
    ((Binary64.isUndefined_eq_false_iff _).mp (defined right inside'))

def bestFirst (key : β → Float) (level : Nat) (values : List β) : List (Placed β) :=
  (values.zipIdx.mergeSort (List.zipIdxLE (byPlace key))).map fun entry =>
    ⟨entry.1, level, Binary64.place (key entry.1), entry.2⟩

theorem map_value_bestFirst (level : Nat) {values : List β}
    (defined : ∀ value ∈ values, isUndefined (key value) = false) :
    (bestFirst key level values).map Placed.value = sortDescending key values := by
  rw [bestFirst, List.map_map, sortDescending_eq_byPlace defined]
  exact List.mergeSort_zipIdx

theorem bestFirst_perm (level : Nat) (values : List β) :
    (bestFirst key level values).Perm
      (levelOf level (fun value => Binary64.place (key value)) values) :=
  (List.mergeSort_perm _ _).map _

theorem pairwise_bestFirst (level : Nat) (values : List β) :
    (bestFirst key level values).Pairwise fun higher lower => lower.Below higher := by
  have sorted : (values.zipIdx.mergeSort (List.zipIdxLE (byPlace key))).Pairwise
      fun higher lower => List.zipIdxLE (byPlace key) higher lower = true :=
    List.pairwise_mergeSort (List.zipIdxLE_trans (descends_trans _))
      (List.zipIdxLE_total (descends_total _)) values.zipIdx
  have turns : ((values.zipIdx.mergeSort (List.zipIdxLE (byPlace key))).map Prod.snd).Nodup := by
    refine ((List.mergeSort_perm _ _).map Prod.snd).nodup_iff.mpr ?_
    rw [List.zipIdx_map_snd]
    exact List.nodup_range'
  refine List.pairwise_map.mpr ((sorted.and (List.pairwise_map.mp turns)).imp ?_)
  rintro ⟨value, turn⟩ ⟨value', turn'⟩ ⟨ordered, apart⟩
  simp only [List.zipIdxLE, byPlace, descends, decide_eq_true_eq] at ordered
  refine .inr ⟨rfl, ?_⟩
  dsimp only at apart ⊢
  split at ordered
  · split at ordered
    · have turned := of_decide_eq_true ordered
      omega
    · omega
  · cases ordered

theorem pairwise_ranked (front middle back : List β) :
    (levelOf 2 (fun _ => 0) front ++ (bestFirst key 1 middle ++
      levelOf 0 (fun _ => 0) back)).Pairwise fun higher lower => lower.Below higher := by
  have between {entry : Placed β} (inside : entry ∈ bestFirst key 1 middle) : entry.level = 1 :=
    (of_mem_levelOf ((bestFirst_perm 1 middle).mem_iff.mp inside)).1
  refine List.pairwise_append.mpr ⟨pairwise_below_levelOf, List.pairwise_append.mpr
    ⟨pairwise_bestFirst 1 middle, pairwise_below_levelOf, ?_⟩, ?_⟩
  · intro higher inside lower inside'
    have level := between inside
    have level' := (of_mem_levelOf inside').1
    exact .inl (by omega)
  · intro higher inside lower inside'
    have level := (of_mem_levelOf inside).1
    rcases List.mem_append.mp inside' with middle | back
    · have level' := between middle
      exact .inl (by omega)
    · have level' := (of_mem_levelOf back).1
      exact .inl (by omega)

section Surrounded

variable (atFront : ∀ value ∈ front, isUndefined (key value) = true)
  (defined : ∀ value ∈ middle, isUndefined (key value) = false)
  (atBack : ∀ value ∈ back, isUndefined (key value) = true)

include atFront defined atBack

theorem pairwise_tells_surrounded :
    (levelOf 2 (fun _ => 0) front ++ (levelOf 1 (fun value => Binary64.place (key value)) middle ++
      levelOf 0 (fun _ => 0) back)).Pairwise (Tells key) := by
  refine List.pairwise_append.mpr ⟨pairwise_tells_of_undefined atFront, List.pairwise_append.mpr
    ⟨pairwise_tells_of_defined defined, pairwise_tells_of_undefined atBack, ?_⟩, ?_⟩
  · intro earlier inside later inside'
    obtain ⟨level, -, -⟩ := of_mem_levelOf inside
    obtain ⟨level', -, member⟩ := of_mem_levelOf inside'
    exact tells_of_undefined (.inr (atBack _ member)) (.inl (by omega))
  · intro earlier inside later inside'
    obtain ⟨level, -, member⟩ := of_mem_levelOf inside
    have lower : later.level < 2 := by
      rcases List.mem_append.mp inside' with middle | back
      · have level' := (of_mem_levelOf middle).1
        omega
      · have level' := (of_mem_levelOf back).1
        omega
    exact tells_of_undefined (.inl (atFront _ member)) (.inl (by omega))

/-- Values with undefined keys at the start and at the end stay there, and those between them are
ranked as if they were alone. -/
theorem sortDescending_surrounded : sortDescending key (front ++ (middle ++ back)) =
    front ++ (sortDescending key middle ++ back) := by
  by_cases some : (front ++ (middle ++ back)).any fun value => isUndefined (key value)
  · have values : (levelOf 2 (fun _ => 0) front ++
        (levelOf 1 (fun value => Binary64.place (key value)) middle ++
          levelOf 0 (fun _ => 0) back)).map Placed.value = front ++ (middle ++ back) := by
      simp only [List.map_append, map_value_levelOf]
    rw [sortDescending, if_pos some, ← values, reverse_adaptiveSort_eq
      (pairwise_tells_surrounded atFront defined atBack)
      ((bestFirst_perm 1 middle).append_right _ |>.append_left _)
      (pairwise_ranked front middle back)]
    simp only [List.map_append, map_value_levelOf, map_value_bestFirst 1 defined]
  · have none : ∀ value ∈ front ++ (middle ++ back), ¬ isUndefined (key value) = true :=
      fun value inside undefined => some (List.any_eq_true.mpr ⟨value, inside, undefined⟩)
    have noFront : front = [] := List.eq_nil_iff_forall_not_mem.mpr fun value inside =>
      none value (by simp [inside]) (atFront value inside)
    have noBack : back = [] := List.eq_nil_iff_forall_not_mem.mpr fun value inside =>
      none value (by simp [inside]) (atBack value inside)
    simp only [noFront, noBack, List.append_nil, List.nil_append]

end Surrounded

theorem sortDescending_of_falls {values : List β}
    (some : (values.any fun value => isUndefined (key value)) = true)
    (falls : values.IsChain fun earlier later => ¬ key earlier < key later) :
    sortDescending key values = values := by
  have climbs : Climbs (fun left right => decide (key left < key right)) values.reverse := by
    rw [Climbs, List.isChain_reverse]
    exact falls.imp fun _ _ => decide_eq_false
  rw [sortDescending, if_pos some, adaptiveSort_of_climbs climbs, List.reverse_reverse]

end Key

end ManeuverRanking
