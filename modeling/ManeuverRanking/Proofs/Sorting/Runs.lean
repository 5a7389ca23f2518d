import Mathlib.Order.RelClasses
import ManeuverRanking.Proofs.Sorting.Searching
import ManeuverRanking.Sorting.Run

/-!
Runs in order. Whatever the adaptive sort compares, the first entry of the comparison was behind the
second one in the list. So the comparison need not be an order: it is enough that there is a strict
order that it agrees with on pairs of this kind. Then all runs are in that order.
-/

namespace ManeuverRanking

namespace Sorting

variable {β : Type} (before : β → β → Bool) (precedes : β → β → Prop)

def Decides (earlier later : β) : Prop :=
  if before later earlier then precedes later earlier else precedes earlier later

structure InRuns (runs : List (List β)) : Prop where
  sorted : ∀ run ∈ runs, run.Pairwise precedes
  decided : runs.Pairwise fun first second =>
    ∀ earlier ∈ first, ∀ later ∈ second, Decides before precedes earlier later

variable {before precedes}

theorem firstRun_eq (first : β) (rest : List β) :
    firstRun before first rest = ((first :: (descendingRun before first rest).1).reverse,
        (descendingRun before first rest).2) ∨
      firstRun before first rest =
        (first :: (ascendingRun before first rest).1, (ascendingRun before first rest).2) := by
  cases rest with
  | nil => exact .inl rfl
  | cons second rest =>
      by_cases descends : before second first = true
      · left
        simp only [firstRun, descendingRun, descends, if_true]
      · right
        simp only [firstRun, ascendingRun, descends, if_false, Bool.false_eq_true]

theorem exists_of_firstRun (before : β → β → Bool) (first : β) (rest : List β) :
    ∃ part, (firstRun before first rest).1.Perm part ∧
      part ++ (firstRun before first rest).2 = first :: rest := by
  rcases firstRun_eq first rest with same | same <;> rw [same]
  · exact ⟨_, List.reverse_perm _, congrArg (first :: ·) (descendingRun_append before first rest)⟩
  · exact ⟨_, .refl _, congrArg (first :: ·) (ascendingRun_append before first rest)⟩

theorem exists_of_runOfLength (before : β → β → Bool) (least : Nat) (first : β)
    (rest : List β) :
    ∃ part, (runOfLength before least first rest).1.Perm part ∧
      part ++ (runOfLength before least first rest).2 = first :: rest := by
  obtain ⟨part, kept, whole⟩ := exists_of_firstRun before first rest
  refine ⟨_, (foldl_insertSorted_perm before _ _).trans (kept.append_right _), ?_⟩
  rw [← whole, List.append_assoc]
  exact congrArg (part ++ ·) (List.take_append_drop ..)

section Decided

variable [IsStrictOrder β precedes] {earlier later : β}

structure Around (precedes : β → β → Prop) (entries : List β) (value : β) (count : Nat) : Prop where
  ahead : ∀ entry ∈ entries.take count, precedes entry value
  behind : ∀ entry ∈ entries.drop count, precedes value entry

section Around

variable {entries : List β} {value : β} {test : β → Bool}
  (ordered : entries.Pairwise precedes)
  (told : ∀ entry ∈ entries, if test entry then precedes entry value else precedes value entry)

include ordered told

theorem pairwise_test :
    entries.Pairwise fun first second => test second = true → test first = true := by
  refine ordered.imp_of_mem fun {first second} inside inside' ahead passes => ?_
  have below := told second inside'
  rw [if_pos passes] at below
  by_contra fails
  have above := told first inside
  rw [if_neg fails] at above
  exact asymm_of precedes (trans_of precedes ahead below) above

omit ordered [IsStrictOrder β precedes] in
theorem Parts.around {count : Nat} (parts : Parts test entries count) :
    Around precedes entries value count := by
  constructor
  · intro entry inside
    have told := told entry (List.mem_of_mem_take inside)
    rwa [if_pos (parts.passes entry inside)] at told
  · intro entry inside
    have told := told entry (List.mem_of_mem_drop inside)
    rwa [if_neg (Bool.eq_false_iff.mp (parts.fails entry inside))] at told

theorem around_partitionPoint : Around precedes entries value
    (partitionPoint (fun position => entries[position]?.any test) 0 entries.length) :=
  (parts_partitionPoint (pairwise_test ordered told)).around told

theorem around_gallop (mergeEnd : MergeEnd) : Around precedes entries value
    (gallop mergeEnd (fun position => entries[position]?.any test) entries.length) :=
  (parts_gallop (pairwise_test ordered told) mergeEnd).around told

end Around

theorem precedes_of_head? {entries : List β} (ordered : entries.Pairwise precedes) {value : β}
    (first : ∀ head ∈ entries.head?, precedes value head) :
    ∀ entry ∈ entries, precedes value entry := by
  cases entries with
  | nil => nofun
  | cons head rest =>
      have below := first head rfl
      refine List.forall_mem_cons.mpr ⟨below, fun other inside => ?_⟩
      exact trans_of precedes below (List.rel_of_pairwise_cons ordered inside)

theorem precedes_of_getLast? {entries : List β} (ordered : entries.Pairwise precedes) {value : β}
    (last : ∀ tail ∈ entries.getLast?, precedes tail value) :
    ∀ entry ∈ entries, precedes entry value := by
  intro entry inside
  have turned : entries.reverse.Pairwise (Function.swap precedes) :=
    List.pairwise_reverse.mpr ordered
  exact precedes_of_head? turned (by rwa [List.head?_reverse]) entry (List.mem_reverse.mpr inside)

omit [IsStrictOrder β precedes] in
theorem Decides.turned (decides : Decides before precedes earlier later) :
    if !before later earlier then precedes earlier later else precedes later earlier := by
  unfold Decides at decides
  cases told : before later earlier <;> simpa [told] using decides

theorem Decides.before_iff (decides : Decides before precedes earlier later) :
    before later earlier = true ↔ precedes later earlier := by
  unfold Decides at decides
  split at decides
  · exact iff_of_true ‹_› decides
  · exact iff_of_false ‹_› (asymm_of precedes decides)

theorem Decides.not_before_iff (decides : Decides before precedes earlier later) :
    before later earlier = false ↔ precedes earlier later := by
  unfold Decides at decides
  split at decides
  · rename_i told
    exact iff_of_false (by rw [told]; exact Bool.noConfusion) (asymm_of precedes decides)
  · exact iff_of_true (Bool.eq_false_iff.mpr ‹_›) decides

theorem pairwise_descendingRun {last : β} {values : List β}
    (decided : (last :: values).Pairwise (Decides before precedes)) :
    (last :: (descendingRun before last values).1).Pairwise fun first second =>
      precedes second first := by
  induction values generalizing last with
  | nil => exact List.pairwise_singleton _ _
  | cons next rest ih =>
      obtain ⟨ahead, later⟩ := List.pairwise_cons.mp decided
      rw [descendingRun]
      split
      · rename_i descends
        have falls := (ahead next List.mem_cons_self).before_iff.mp descends
        have run := ih later
        refine List.pairwise_cons.mpr ⟨fun entry inside => ?_, run⟩
        rcases List.mem_cons.mp inside with rfl | behind
        · exact falls
        · exact trans_of precedes (List.rel_of_pairwise_cons run behind) falls
      · exact List.pairwise_singleton _ _

theorem pairwise_ascendingRun {last : β} {values : List β}
    (decided : (last :: values).Pairwise (Decides before precedes)) :
    (last :: (ascendingRun before last values).1).Pairwise precedes := by
  induction values generalizing last with
  | nil => exact List.pairwise_singleton _ _
  | cons next rest ih =>
      obtain ⟨ahead, later⟩ := List.pairwise_cons.mp decided
      rw [ascendingRun]
      split
      · exact List.pairwise_singleton _ _
      · rename_i rises
        have climbs := (ahead next List.mem_cons_self).not_before_iff.mp
          (Bool.eq_false_iff.mpr rises)
        have run := ih later
        refine List.pairwise_cons.mpr ⟨fun entry inside => ?_, run⟩
        rcases List.mem_cons.mp inside with rfl | behind
        · exact climbs
        · exact trans_of precedes climbs (List.rel_of_pairwise_cons run behind)

theorem pairwise_firstRun {first : β} {rest : List β}
    (decided : (first :: rest).Pairwise (Decides before precedes)) :
    (firstRun before first rest).1.Pairwise precedes := by
  rcases firstRun_eq first rest with same | same <;> rw [same]
  · exact List.pairwise_reverse.mpr (pairwise_descendingRun decided)
  · exact pairwise_ascendingRun decided

theorem pairwise_insertSorted {sorted : List β} {value : β} (ordered : sorted.Pairwise precedes)
    (decided : ∀ present ∈ sorted, Decides before precedes present value) :
    (insertSorted before sorted value).Pairwise precedes := by
  have around := around_partitionPoint ordered fun present inside => (decided present inside).turned
  unfold insertSorted
  dsimp only
  generalize partitionPoint _ 0 sorted.length = point at around ⊢
  rw [← List.take_append_drop point sorted, List.pairwise_append] at ordered
  obtain ⟨front, back, across⟩ := ordered
  refine List.pairwise_append.mpr ⟨front, List.pairwise_cons.mpr ⟨around.behind, back⟩, ?_⟩
  intro first inside second inside'
  rcases List.mem_cons.mp inside' with rfl | later
  · exact around.ahead first inside
  · exact across first inside second later

theorem pairwise_foldl_insertSorted {values sorted : List β} (ordered : sorted.Pairwise precedes)
    (decided : ∀ present ∈ sorted, ∀ value ∈ values, Decides before precedes present value)
    (decided' : values.Pairwise (Decides before precedes)) :
    (values.foldl (insertSorted before) sorted).Pairwise precedes := by
  induction values generalizing sorted with
  | nil => exact ordered
  | cons value rest ih =>
      obtain ⟨ahead, later⟩ := List.pairwise_cons.mp decided'
      refine ih (pairwise_insertSorted ordered fun present inside =>
        decided present inside value List.mem_cons_self) (fun present inside other behind => ?_) later
      rcases List.mem_cons.mp ((insertSorted_perm before sorted value).mem_iff.mp inside) with
        rfl | before'
      · exact ahead other behind
      · exact decided present before' other (List.mem_cons_of_mem _ behind)

theorem pairwise_runOfLength {first : β} {rest : List β} (least : Nat)
    (decided : (first :: rest).Pairwise (Decides before precedes)) :
    (runOfLength before least first rest).1.Pairwise precedes := by
  obtain ⟨part, kept, whole⟩ := exists_of_firstRun before first rest
  have decided' := decided
  rw [← whole, List.pairwise_append] at decided'
  obtain ⟨-, later, across⟩ := decided'
  exact pairwise_foldl_insertSorted (pairwise_firstRun decided)
    (fun present inside value behind =>
      across present (kept.mem_iff.mp inside) value (List.mem_of_mem_take behind))
    (later.sublist (List.take_sublist _ _))

theorem inRuns_runsOf (least : Nat) {values : List β}
    (decided : values.Pairwise (Decides before precedes)) :
    InRuns before precedes (runsOf before least values) := by
  fun_induction runsOf before least values with
  | case1 => exact ⟨fun _ inside => absurd inside List.not_mem_nil, .nil⟩
  | case2 first rest next ih =>
      obtain ⟨part, kept, whole⟩ := exists_of_runOfLength before least first rest
      have split := decided
      rw [← whole, List.pairwise_append] at split
      obtain ⟨-, later, across⟩ := split
      obtain ⟨sorted, behind⟩ := ih later
      refine ⟨List.forall_mem_cons.mpr ⟨pairwise_runOfLength least decided, sorted⟩,
        List.pairwise_cons.mpr ⟨fun run listed entry inside other inside' => ?_, behind⟩⟩
      have kept' := flatten_runsOf_perm before least next.2
      exact across entry (kept.mem_iff.mp inside) other
        (kept'.mem_iff.mp (List.mem_flatten_of_mem listed inside'))

end Decided

end Sorting

end ManeuverRanking
