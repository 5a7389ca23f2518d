import ManeuverRanking.Proofs.Window.View

/-!
Histories of a window. A window is called any number of times, failing calls included; what it holds
in the end are the records that were accepted and that no later eviction found too old, and every
further call is answered by a scan of that list.
-/

namespace ManeuverRanking

namespace Window

variable {α β : Type}

inductive Call (β : Type) where
  | append (value : β)
  | evict (now : Int)
  | front
  | queryAfter (time : Int)
  | isReady
  | snapshotAll

inductive Answer (α β : Type) where
  | record (found : Except (Fault α) (Stamped β))
  | count (evicted : Nat)
  | lookup (found : Option (Stamped β))
  | flag (ready : Bool)
  | records (all : List (Stamped β))

def call (window : Window α β) : Call β → Window α β × Answer α β
  | .append value =>
      match window.append value with
      | .ok (next, record) => (next, .record (.ok record))
      | .error fault => (window, .record (.error fault))
  | .evict now => ((window.evict now).1, .count (window.evict now).2)
  | .front => (window, .record window.front)
  | .queryAfter time => (window, .lookup (window.queryAfter time))
  | .isReady => (window, .flag window.isReady)
  | .snapshotAll => (window, .records window.toList)

@[reducible] def History (α β : Type) : Type :=
  List (Call β × Answer α β)

def callAll (window : Window α β) : List (Call β) → Window α β × History α β
  | [] => (window, [])
  | first :: rest =>
      let (next, answer) := window.call first
      let (last, later) := next.callAll rest
      (last, (first, answer) :: later)

def Call.spares : Call β → Stamped β → Bool
  | .evict now, record => decide (now ≤ record.stamp)
  | _, _ => true

def Call.accepted : Call β → Answer α β → List (Stamped β)
  | .append _, .record (.ok placed) => [placed]
  | _, _ => []

/-- The accepted records in the order of their appends, without those that some later eviction found
too old. -/
def survivors : History α β → List (Stamped β)
  | [] => []
  | (asked, answer) :: later =>
      ((asked.accepted answer).filter fun record => later.all fun entry => entry.1.spares record)
        ++ survivors later

theorem callAll_calls (window : Window α β) (calls : List (Call β)) :
    (window.callAll calls).2.map Prod.fst = calls := by
  induction calls generalizing window with
  | nil => rfl
  | cons first rest ih => simp [callAll, ih]

theorem append_key_span {window next : Window α β} {value : β} {record : Stamped β}
    (appended : window.append value = .ok (next, record)) :
    next.key = window.key ∧ next.span = window.span := by
  unfold append at appended
  cases read : window.key value with
  | error fault => simp [read, bind, Except.bind] at appended
  | ok stamp =>
      cases follows : window.mayFollow stamp with
      | error fault => simp [read, follows, bind, Except.bind] at appended
      | ok _ =>
          simp only [read, follows, bind, Except.bind, pure, Except.pure, Except.ok.injEq,
            Prod.mk.injEq] at appended
          rw [← appended.1]
          exact ⟨rfl, rfl⟩

theorem call_key_span (window : Window α β) (asked : Call β) :
    (window.call asked).1.key = window.key ∧ (window.call asked).1.span = window.span := by
  cases asked with
  | append value =>
      simp only [call]
      split
      · rename_i appended
        exact append_key_span appended
      · exact ⟨rfl, rfl⟩
  | _ => exact ⟨rfl, rfl⟩

theorem callAll_key_span (window : Window α β) (calls : List (Call β)) :
    (window.callAll calls).1.key = window.key ∧ (window.callAll calls).1.span = window.span := by
  induction calls generalizing window with
  | nil => exact ⟨rfl, rfl⟩
  | cons first rest ih =>
      obtain ⟨key, span⟩ := ih (window.call first).1
      obtain ⟨firstKey, firstSpan⟩ := window.call_key_span first
      exact ⟨key.trans firstKey, span.trans firstSpan⟩

namespace InOrder

variable {window : Window α β}

theorem call_inOrder (inOrder : window.InOrder) (asked : Call β) :
    (window.call asked).1.InOrder := by
  cases asked with
  | append value =>
      simp only [call]
      split
      · rename_i next record appended
        obtain ⟨keyed, rfl, follows, rfl⟩ := (inOrder.append_eq_ok_iff ..).mp appended
        exact inOrder.push_inOrder record keyed follows
      · exact inOrder
  | evict now => exact inOrder.evict_inOrder now
  | _ => exact inOrder

theorem call_toList (inOrder : window.InOrder) (asked : Call β) :
    (window.call asked).1.toList =
      window.toList.filter asked.spares ++ asked.accepted (window.call asked).2 := by
  have whole (spared : ∀ record, asked.spares record = true) :
      window.toList.filter asked.spares = window.toList :=
    List.filter_eq_self.mpr fun record _ => spared record
  cases asked with
  | append value =>
      rw [whole fun _ => rfl]
      simp only [call]
      split
      · rename_i next record appended
        obtain ⟨-, rfl, -, rfl⟩ := (inOrder.append_eq_ok_iff ..).mp appended
        simp [Call.accepted]
      · simp [Call.accepted]
  | evict now =>
      simp only [call, Call.accepted, List.append_nil]
      exact inOrder.evict_toList now
  | _ =>
      rw [whole fun _ => rfl]
      simp [call, Call.accepted]

theorem callAll_toList (inOrder : window.InOrder) (calls : List (Call β)) :
    (window.callAll calls).1.InOrder ∧
      (window.callAll calls).1.toList =
        (window.toList.filter fun record => calls.all fun asked => asked.spares record) ++
          survivors (window.callAll calls).2 := by
  induction calls generalizing window with
  | nil =>
      have whole := List.filter_eq_self.mpr fun record (_ : record ∈ window.toList) => rfl
      refine ⟨inOrder, ?_⟩
      simp only [callAll, survivors, List.all_nil, List.append_nil]
      exact whole.symm
  | cons first rest ih =>
      obtain ⟨last, records⟩ := ih (inOrder.call_inOrder first)
      refine ⟨last, ?_⟩
      let history := ((window.call first).1.callAll rest).2
      have later (record : Stamped β) : (rest.all fun asked => asked.spares record) =
          history.all fun entry => entry.1.spares record := by
        rw [← callAll_calls (window.call first).1 rest, List.all_map]
        rfl
      have spared : (fun record => (first :: rest).all fun asked => asked.spares record) =
          fun record => (rest.all fun asked => asked.spares record) && first.spares record := by
        funext record
        rw [List.all_cons, Bool.and_comm]
      rw [spared, ← List.filter_filter]
      simp only [callAll, records, inOrder.call_toList first, survivors, List.filter_append,
        List.append_assoc, later, history]

end InOrder

structure ActsAs (window : Window α β) (content : List (Stamped β)) : Prop where
  lengths : window.stamps.size = window.records.size
  positions : ∀ position : Nat,
    window.stamps[position]? = window.records[position]?.map Stamped.stamp
  keyed : ∀ record ∈ content, window.key record.value = .ok record.stamp
  sorted : content.Pairwise fun first second => first.stamp ≤ second.stamp
  snapshotAll : window.toList = content
  append_fails : ∀ value fault, window.append value = .error fault ↔
    window.key value = .error fault ∨
      ∃ stamp newest, window.key value = .ok stamp ∧ content.getLast? = some newest ∧
        stamp < newest.stamp ∧ fault = .outOfOrder stamp newest.stamp
  append_unchanged : ∀ value fault, window.append value = .error fault →
    window.call (.append value) = (window, .record (.error fault))
  append_adds : ∀ value next record, window.append value = .ok (next, record) →
    window.key value = .ok record.stamp ∧ record.value = value ∧ next.toList = content ++ [record]
  evict_counts : ∀ now,
    (window.evict now).2 = content.countP fun record => decide (record.stamp < now)
  evict_keeps : ∀ now,
    (window.evict now).1.toList = content.filter fun record => decide (now ≤ record.stamp)
  queryAfter : ∀ time,
    window.queryAfter time = content.find? fun record => decide (time < record.stamp)
  front_fails : window.front = .error .emptyWindow ↔ content = []
  front_finds : ∀ record, window.front = .ok record ↔ content.head? = some record
  isReady : window.isReady = true ↔ ∃ oldest newest, content.head? = some oldest ∧
    content.getLast? = some newest ∧ (window.span : Int) < newest.stamp - oldest.stamp

theorem front_eq (window : Window α β) : window.front =
    match window.toList.head? with
    | some record => .ok record
    | none => .error .emptyWindow := by
  have first : window.toList.head? = window.records[0]? := by
    rw [toList, List.head?_eq_getElem?, Array.getElem?_toList]
  unfold front
  cases found : window.records[0]? with
  | none => simp only [first, found]
  | some record => simp only [first, found]

theorem InOrder.actsAs {window : Window α β} (inOrder : window.InOrder) :
    window.ActsAs window.toList where
  lengths := inOrder.stamps_size
  positions := by
    intro position
    rw [inOrder.getElem?_stamps, toList, Array.getElem?_toList]
  keyed := inOrder.keyed
  sorted := inOrder.sorted
  snapshotAll := rfl
  append_fails := inOrder.append_eq_error_iff
  append_unchanged := by
    intro value fault failed
    simp [call, failed]
  append_adds := by
    intro value next record appended
    obtain ⟨keyed, same, -, rfl⟩ := (inOrder.append_eq_ok_iff ..).mp appended
    exact ⟨keyed, same, window.toList_push record⟩
  evict_counts := inOrder.evict_count
  evict_keeps := inOrder.evict_toList
  queryAfter := inOrder.queryAfter_eq_find?
  front_fails := by
    rw [front_eq]
    cases window.toList <;> simp
  front_finds := by
    intro record
    rw [front_eq]
    cases window.toList <;> simp
  isReady := inOrder.isReady_iff

/-- Behind any history, a window acts as the list of the records that survived. -/
theorem callAll_actsAs_survivors (key : β → Except (Fault α) Int) (span : Nat)
    (calls : List (Call β)) :
    let played := (Window.empty key span).callAll calls
    Window.create key span = .ok (Window.empty key span) ∧ played.1.key = key ∧
      played.1.span = span ∧ played.1.ActsAs (survivors played.2) := by
  obtain ⟨inOrder, records⟩ := (empty_inOrder key span).callAll_toList calls
  obtain ⟨sameKey, sameSpan⟩ := (Window.empty key span).callAll_key_span calls
  refine ⟨?_, sameKey, sameSpan, ?_⟩
  · rw [create, if_neg (by omega), Int.toNat_natCast]
  · have survived : survivors ((Window.empty key span).callAll calls).2 =
        ((Window.empty key span).callAll calls).1.toList := by
      rw [records]
      rfl
    rw [survived]
    exact inOrder.actsAs

end Window

end ManeuverRanking
