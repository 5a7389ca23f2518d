import ManeuverRanking.Candidate.Ranking
import ManeuverRanking.Proofs.Scalar.Comparison

/-!
The descending order where every key is defined. It is the stable order by the places of the keys,
so nothing changes among some of the values when the others are left out.
-/

namespace ManeuverRanking

theorem eq_of_append_eq {β : Type} (test : β → Bool) {front back front' back' : List β}
    (same : front ++ back = front' ++ back') (fails : ∀ value ∈ front, test value = false)
    (passes : ∀ value ∈ back, test value = true) (fails' : ∀ value ∈ front', test value = false)
    (passes' : ∀ value ∈ back', test value = true) : front = front' ∧ back = back' := by
  have passing {front back : List β} (fails : ∀ value ∈ front, test value = false)
      (passes : ∀ value ∈ back, test value = true) : (front ++ back).filter test = back := by
    have none : front.filter test = [] := List.filter_eq_nil_iff.mpr (by simpa using fails)
    rw [List.filter_append, none, List.filter_eq_self.mpr passes, List.nil_append]
  have behind : back = back' := by
    rw [← passing fails passes, same, passing fails' passes']
  subst behind
  exact ⟨List.append_cancel_right same, rfl⟩

theorem mergeSort_filter {β : Type} (atMost : β → β → Bool)
    (transitive : ∀ first second third, atMost first second = true → atMost second third = true →
      atMost first third = true)
    (total : ∀ first second, (atMost first second || atMost second first) = true)
    (keep : β → Bool) (values : List β) :
    (values.mergeSort atMost).filter keep = (values.filter keep).mergeSort atMost := by
  -- A first value comes right before all values that it is at most.
  have placed (value : β) (rest : List β) : ∃ front back,
      (value :: rest).mergeSort atMost = front ++ value :: back ∧
      rest.mergeSort atMost = front ++ back ∧
      (∀ other ∈ front, atMost value other = false) ∧ ∀ other ∈ back, atMost value other = true := by
    obtain ⟨front, back, sorted, others, later⟩ :=
      List.mergeSort_cons transitive total value rest
    have ordered := List.pairwise_mergeSort transitive total (value :: rest)
    rw [sorted, List.pairwise_append, List.pairwise_cons] at ordered
    exact ⟨front, back, sorted, others, by simpa using later, ordered.2.1.1⟩
  induction values with
  | nil => simp
  | cons value rest ih =>
      obtain ⟨front, back, sorted, others, fails, passes⟩ := placed value rest
      rw [others, List.filter_append] at ih
      rw [sorted, List.filter_append]
      cases kept : keep value with
      | false => simpa [kept] using ih
      | true =>
          obtain ⟨front', back', sorted', others', fails', passes'⟩ :=
            placed value (rest.filter keep)
          rw [others'] at ih
          obtain ⟨sameFront, sameBack⟩ := eq_of_append_eq (atMost value) ih
            (fun other inside => fails other (List.mem_filter.mp inside).1)
            (fun other inside => passes other (List.mem_filter.mp inside).1) fails' passes'
          rw [List.filter_cons_of_pos kept, List.filter_cons_of_pos kept, sorted', sameFront,
            sameBack]

section Rank

variable {β Place : Type} [LinearOrder Place] (rank : β → Place)

def descends (better worse : β) : Bool :=
  decide (rank worse ≤ rank better)

theorem descends_trans (first second third : β) (before : descends rank first second = true)
    (after : descends rank second third = true) : descends rank first third = true := by
  simp only [descends, decide_eq_true_eq] at *
  exact after.trans before

theorem descends_total (first second : β) :
    (descends rank first second || descends rank second first) = true := by
  simp only [descends, Bool.or_eq_true, decide_eq_true_eq]
  exact le_total ..

variable {α : Type} [Arithmetic α] {key : β → α} {values : List β}

theorem sortDescending_eq_mergeSort (defined : ∀ value ∈ values, isUndefined (key value) = false)
    (compares : ∀ left ∈ values, ∀ right ∈ values,
      key left < key right ↔ rank left < rank right) :
    sortDescending key values = values.mergeSort (descends rank) := by
  have clean : ¬ (values.any fun value => isUndefined (key value)) = true := by
    simp only [List.any_eq_true, not_exists, not_and, Bool.not_eq_true]
    exact defined
  have same : (values.mergeSort fun left right => !decide (key left < key right)).map id =
      (values.map id).mergeSort (descends rank) := by
    apply List.map_mergeSort
    intro left inside right inside'
    rw [descends, ← decide_not, decide_eq_decide, id, id, compares left inside right inside', not_lt]
  rw [List.map_id, List.map_id] at same
  rw [sortDescending, if_neg clean, same]

end Rank

section Key

variable {α β : Type} [Arithmetic α] [Comparable α] (key : β → α)

theorem exists_rank : ∃ (Place : Type) (_ : LinearOrder Place) (rank : β → Place),
    ∀ values : List β, (∀ value ∈ values, isUndefined (key value) = false) →
      sortDescending key values = values.mergeSort (descends rank) ∧
      ∀ left ∈ values, ∀ right ∈ values, key left ≤ key right ↔ rank left ≤ rank right := by
  obtain ⟨Place, order, place, compares⟩ := Comparable.exists_place (α := α)
  refine ⟨Place, order, fun value => place (key value), fun values defined => ⟨?_, ?_⟩⟩
  · apply sortDescending_eq_mergeSort _ defined
    intro left inside right inside'
    exact (compares _ _ (defined left inside) (defined right inside')).1
  · intro left inside right inside'
    exact (compares _ _ (defined left inside) (defined right inside')).2

variable {values : List β}

theorem sortDescending_pairwise (defined : ∀ value ∈ values, isUndefined (key value) = false) :
    (sortDescending key values).Pairwise fun better worse => key worse ≤ key better := by
  obtain ⟨Place, order, rank, ranked⟩ := exists_rank key
  obtain ⟨sorted, compares⟩ := ranked values defined
  have ordered := List.pairwise_mergeSort (descends_trans rank) (descends_total rank) values
  rw [← sorted] at ordered
  have same := sortDescending_perm key values
  apply ordered.imp_of_mem
  intro better worse inside inside' descends
  exact (compares worse (same.mem_iff.mp inside') better (same.mem_iff.mp inside)).mpr
    (of_decide_eq_true descends)

theorem sortDescending_filter (keep : β → Bool)
    (defined : ∀ value ∈ values, isUndefined (key value) = false) :
    (sortDescending key values).filter keep = sortDescending key (values.filter keep) := by
  obtain ⟨Place, order, rank, ranked⟩ := exists_rank key
  rw [(ranked values defined).1, (ranked (values.filter keep) fun value member =>
    defined value (List.mem_filter.mp member).1).1]
  exact mergeSort_filter _ (descends_trans rank) (descends_total rank) keep values

end Key

end ManeuverRanking
