import ManeuverRanking.Window

/-!
A window as the list of its records. Stamps and records stay in step and in order; under that
invariant both halvings are linear scans, and every operation has one equation on the list.
-/

namespace ManeuverRanking

theorem splitAt_filter {β : Type} (values : List β) (test : β → Bool) (count : Nat)
    (before : ∀ position, position < count → values[position]?.any test = true)
    (behind : ∀ position, count ≤ position → values[position]?.any test = false) :
    values.take count = values.filter test ∧
      values.drop count = values.filter fun value => !test value := by
  have passes : ∀ value ∈ values.take count, test value = true := by
    intro value member
    obtain ⟨position, bound, found⟩ := List.mem_take_iff_getElem.mp member
    have passed := before position (by omega)
    rw [List.getElem?_eq_getElem (by omega), found] at passed
    exact passed
  have fails : ∀ value ∈ values.drop count, test value = false := by
    intro value member
    obtain ⟨position, bound, found⟩ := List.mem_drop_iff_getElem.mp member
    have failed := behind (position + count) (by omega)
    rw [List.getElem?_eq_getElem (by omega)] at failed
    simpa [Nat.add_comm, found] using failed
  have whole := List.take_append_drop count values
  constructor
  · conv => rhs; rw [← whole]
    rw [List.filter_append, List.filter_eq_self.mpr passes, List.filter_eq_nil_iff.mpr]
    · simp
    · intro value member
      simp [fails value member]
  · conv => rhs; rw [← whole]
    rw [List.filter_append, List.filter_eq_nil_iff.mpr, List.filter_eq_self.mpr]
    · simp
    · intro value member
      simp [fails value member]
    · intro value member
      simp [passes value member]

theorem toList_extract_from {β : Type} (values : Array β) (count : Nat) :
    (values.extract count).toList = values.toList.drop count := by
  rw [Array.toList_extract, List.extract_eq_take_drop, List.take_of_length_le]
  simp

namespace Window

variable {α β : Type}

/-- Stamps and records agree position by position and are in order, and every stamp is read off its
record. -/
structure InOrder (window : Window α β) : Prop where
  inStep : window.stamps.toList = window.toList.map Stamped.stamp
  sorted : window.toList.Pairwise fun first second => first.stamp ≤ second.stamp
  keyed : ∀ record ∈ window.toList, window.key record.value = .ok record.stamp

theorem empty_inOrder (key : β → Except (Fault α) Int) (span : Nat) :
    (Window.empty key span).InOrder :=
  ⟨rfl, List.Pairwise.nil, fun _ member => absurd member List.not_mem_nil⟩

theorem older_downward (now first second : Int) (ordered : first ≤ second)
    (older : decide (second < now) = true) : decide (first < now) = true := by
  simp only [decide_eq_true_eq] at older ⊢
  omega

def push (window : Window α β) (record : Stamped β) : Window α β :=
  { window with
    stamps := window.stamps.push record.stamp
    records := window.records.push record }

@[simp] theorem toList_push (window : Window α β) (record : Stamped β) :
    (window.push record).toList = window.toList ++ [record] := by
  simp [push, toList]

theorem InOrder.eq_of_toList {left right : Window α β} (leftOrder : left.InOrder)
    (rightOrder : right.InOrder) (key : left.key = right.key) (span : left.span = right.span)
    (records : left.toList = right.toList) : left = right := by
  have stamps : left.stamps = right.stamps := by
    apply Array.toList_inj.mp
    rw [leftOrder.inStep, rightOrder.inStep, records]
  have same : left.records = right.records := Array.toList_inj.mp records
  cases left
  cases right
  simp_all

namespace InOrder

variable {window : Window α β}

theorem stamps_size (inOrder : window.InOrder) : window.stamps.size = window.records.size := by
  have lengths := congrArg List.length inOrder.inStep
  simpa [toList] using lengths

theorem getElem?_stamps (inOrder : window.InOrder) (position : Nat) :
    window.stamps[position]? = window.toList[position]?.map Stamped.stamp := by
  rw [← Array.getElem?_toList, inOrder.inStep, List.getElem?_map]

theorem back?_stamps (inOrder : window.InOrder) :
    window.stamps.back? = window.toList.getLast?.map Stamped.stamp := by
  rw [← Array.getLast?_toList, inOrder.inStep, List.getLast?_map]

theorem countEarly_splits (inOrder : window.InOrder) (early : Int → Bool)
    (downward : ∀ first second, first ≤ second → early second = true → early first = true) :
    window.countEarly early ≤ window.toList.length ∧
      window.toList.take (window.countEarly early) =
        window.toList.filter (fun record => early record.stamp) ∧
      window.toList.drop (window.countEarly early) =
        window.toList.filter fun record => !early record.stamp := by
  let test : Nat → Bool := fun position => window.stamps[position]?.any early
  have tested (position : Nat) :
      test position = window.toList[position]?.any fun record => early record.stamp := by
    simp only [test, inOrder.getElem?_stamps]
    cases window.toList[position]? <;> rfl
  -- Stamps ascend, so a position passes wherever a later one does.
  have closed : ∀ first second, first ≤ second → test second = true → test first = true := by
    intro first second ordered passed
    rw [tested] at passed ⊢
    by_cases same : first = second
    · subst second
      exact passed
    · by_cases bound : second < window.toList.length
      · rw [List.getElem?_eq_getElem bound] at passed
        rw [List.getElem?_eq_getElem (by omega)]
        have sorted := List.pairwise_iff_getElem.mp inOrder.sorted first second (by omega) bound
          (by omega)
        exact downward _ _ sorted passed
      · rw [List.getElem?_eq_none (by omega)] at passed
        simp at passed
  have outside : ∀ position, window.stamps.size ≤ position → test position = false := by
    intro position bound
    simp [test, Array.getElem?_eq_none bound]
  obtain ⟨-, upper, before, behind⟩ := partitionPoint_splits test closed 0 window.stamps.size
    (Nat.zero_le _) (fun position bound => absurd bound (Nat.not_lt_zero _)) outside
  refine ⟨?_, splitAt_filter _ _ _ ?_ ?_⟩
  · rw [toList, Array.length_toList, ← inOrder.stamps_size]
    exact upper
  · intro position bound
    rw [← tested]
    exact before position bound
  · intro position bound
    rw [← tested]
    exact behind position bound

theorem countEarly_eq (inOrder : window.InOrder) (early : Int → Bool)
    (downward : ∀ first second, first ≤ second → early second = true → early first = true) :
    window.countEarly early = window.toList.countP fun record => early record.stamp := by
  obtain ⟨bound, passed, -⟩ := inOrder.countEarly_splits early downward
  rw [List.countP_eq_length_filter, ← passed, List.length_take, Nat.min_eq_left bound]

theorem evictWhere_toList (inOrder : window.InOrder) (early : Int → Bool)
    (downward : ∀ first second, first ≤ second → early second = true → early first = true) :
    (window.evictWhere early).1.toList =
      window.toList.filter fun record => !early record.stamp := by
  obtain ⟨-, -, failed⟩ := inOrder.countEarly_splits early downward
  rw [← failed]
  exact toList_extract_from _ _

theorem evictWhere_inOrder (inOrder : window.InOrder) (early : Int → Bool)
    (downward : ∀ first second, first ≤ second → early second = true → early first = true) :
    (window.evictWhere early).1.InOrder := by
  have left := inOrder.evictWhere_toList early downward
  constructor
  · have inStep := inOrder.inStep
    simp only [toList] at inStep
    simp only [evictWhere, toList, toList_extract_from, inStep, List.map_drop]
  · rw [left]
    exact inOrder.sorted.filter _
  · intro record member
    rw [left] at member
    exact inOrder.keyed record (List.mem_filter.mp member).1

theorem firstFrom_eq_find? (inOrder : window.InOrder) (early : Int → Bool)
    (downward : ∀ first second, first ≤ second → early second = true → early first = true) :
    window.firstFrom early = window.toList.find? fun record => !early record.stamp := by
  obtain ⟨-, -, failed⟩ := inOrder.countEarly_splits early downward
  rw [← List.head?_filter, ← failed, List.head?_drop]
  simp [firstFrom, toList]

theorem evict_count (inOrder : window.InOrder) (now : Int) :
    (window.evict now).2 = window.toList.countP fun record => decide (record.stamp < now) :=
  inOrder.countEarly_eq _ (older_downward now)

theorem evict_toList (inOrder : window.InOrder) (now : Int) :
    (window.evict now).1.toList =
      window.toList.filter fun record => decide (now ≤ record.stamp) := by
  rw [evict, inOrder.evictWhere_toList _ (older_downward now)]
  apply List.filter_congr
  intro record _
  by_cases older : record.stamp < now
  · simp [older]
  · simp [older, Int.not_lt.mp older]

theorem evict_inOrder (inOrder : window.InOrder) (now : Int) : (window.evict now).1.InOrder :=
  inOrder.evictWhere_inOrder _ (older_downward now)

theorem queryAfter_eq_find? (inOrder : window.InOrder) (time : Int) :
    window.queryAfter time =
      window.toList.find? fun record => decide (time < record.stamp) := by
  rw [queryAfter, inOrder.firstFrom_eq_find?]
  · simp only [Bool.not_not]
  · intro first second ordered older
    simp only [Bool.not_eq_true', decide_eq_false_iff_not, Int.not_lt] at older ⊢
    omega

theorem mayFollow_eq (inOrder : window.InOrder) (stamp : Int) :
    window.mayFollow stamp =
      match window.toList.getLast? with
      | some newest =>
          if stamp < newest.stamp then .error (.outOfOrder stamp newest.stamp) else .ok ()
      | none => .ok () := by
  rw [mayFollow, inOrder.back?_stamps]
  cases window.toList.getLast? <;> rfl

theorem append_eq_error_iff (inOrder : window.InOrder) (value : β) (fault : Fault α) :
    window.append value = .error fault ↔ window.key value = .error fault ∨
      ∃ stamp newest, window.key value = .ok stamp ∧ window.toList.getLast? = some newest ∧
        stamp < newest.stamp ∧ fault = .outOfOrder stamp newest.stamp := by
  cases read : window.key value with
  | error cause => simp [append, read, bind, Except.bind]
  | ok stamp =>
      cases last : window.toList.getLast? with
      | none => simp [append, read, inOrder.mayFollow_eq, last, bind, Except.bind, pure, Except.pure]
      | some newest =>
          by_cases older : stamp < newest.stamp
          · simp [append, read, inOrder.mayFollow_eq, last, older, bind, Except.bind, eq_comm]
          · simp [append, read, inOrder.mayFollow_eq, last, older, bind, Except.bind, pure,
              Except.pure]

theorem append_eq_ok_iff (inOrder : window.InOrder) (value : β) (next : Window α β)
    (record : Stamped β) :
    window.append value = .ok (next, record) ↔ window.key value = .ok record.stamp ∧
      record.value = value ∧ (∀ newest ∈ window.toList.getLast?, newest.stamp ≤ record.stamp) ∧
      next = window.push record := by
  cases read : window.key value with
  | error cause => simp [append, read, bind, Except.bind]
  | ok stamp =>
      have appended : window.append value =
          (window.mayFollow stamp).map fun _ => (window.push ⟨stamp, value⟩, ⟨stamp, value⟩) := by
        simp only [append, read, bind, Except.bind, pure, Except.pure]
        cases window.mayFollow stamp <;> rfl
      rw [appended, inOrder.mayFollow_eq]
      constructor
      · intro found
        cases last : window.toList.getLast? with
        | none =>
            simp only [last, Except.map, Except.ok.injEq, Prod.mk.injEq] at found
            obtain ⟨rfl, rfl⟩ := found
            simp
        | some newest =>
            simp only [last] at found
            split at found
            · simp [Except.map] at found
            · rename_i follows
              simp only [Except.map, Except.ok.injEq, Prod.mk.injEq] at found
              obtain ⟨rfl, rfl⟩ := found
              simpa using Int.not_lt.mp follows
      · rintro ⟨same, rfl, follows, rfl⟩
        simp only [Except.ok.injEq] at same
        subst stamp
        cases last : window.toList.getLast? with
        | none => rfl
        | some newest =>
            have ordered := follows newest (by simp [last])
            simp [Int.not_lt.mpr ordered, Except.map]

theorem push_inOrder (inOrder : window.InOrder) (record : Stamped β)
    (keyed : window.key record.value = .ok record.stamp)
    (follows : ∀ newest ∈ window.toList.getLast?, newest.stamp ≤ record.stamp) :
    (window.push record).InOrder := by
  constructor
  · simp [push, toList, inOrder.inStep]
  · rw [toList_push, List.pairwise_append]
    refine ⟨inOrder.sorted, List.pairwise_singleton _ _, ?_⟩
    intro earlier member last same
    rw [List.mem_singleton] at same
    subst last
    obtain ⟨front, newest, split⟩ := List.eq_nil_or_concat window.toList |>.resolve_left
      (List.ne_nil_of_mem member)
    have bound := follows newest (by simp [split])
    have sorted := inOrder.sorted
    rw [split, List.concat_eq_append, List.pairwise_append] at sorted
    rw [split, List.concat_eq_append, List.mem_append, List.mem_singleton] at member
    rcases member with inFront | isNewest
    · have ordered := sorted.2.2 earlier inFront newest (List.mem_singleton_self _)
      omega
    · subst earlier
      exact bound
  · intro later member
    rw [toList_push, List.mem_append, List.mem_singleton] at member
    rcases member with old | new
    · exact inOrder.keyed later old
    · subst later
      exact keyed

theorem isReady_iff (inOrder : window.InOrder) :
    window.isReady = true ↔ ∃ oldest newest, window.toList.head? = some oldest ∧
      window.toList.getLast? = some newest ∧
      (window.span : Int) < newest.stamp - oldest.stamp := by
  rw [isReady, inOrder.back?_stamps, inOrder.getElem?_stamps, List.head?_eq_getElem?]
  cases window.toList[0]? <;> cases window.toList.getLast? <;> simp

end InOrder

end Window

end ManeuverRanking
