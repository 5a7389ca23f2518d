import Mathlib.Data.List.Chain
import ManeuverRanking.Proofs.Scalar.Identity
import ManeuverRanking.Proofs.Sorting.Undefined

/-!
What candidates without a defined total do to a ranking. At the start and at the end of the order of
generation they do nothing to it. Between two candidates with totals, one of them is enough to keep
the two apart: they are ranked as they were generated, the worse one first if it came first.
-/

namespace ManeuverRanking

theorem exists_trailing {β : Type} (test : β → Bool) {values : List β}
    (pattern : ¬ [false, true].Sublist (values.map test)) : ∃ passing trailing,
      values = passing ++ trailing ∧ (∀ value ∈ passing, test value = true) ∧
        ∀ value ∈ trailing, test value = false := by
  induction values with
  | nil => exact ⟨[], [], rfl, nofun, nofun⟩
  | cons value rest ih =>
      rw [List.map_cons] at pattern
      cases tested : test value with
      | true =>
          obtain ⟨passing, trailing, rfl, passes, fails⟩ := ih fun found => pattern (.cons _ found)
          exact ⟨value :: passing, trailing, rfl, List.forall_mem_cons.mpr ⟨tested, passes⟩, fails⟩
      | false =>
          refine ⟨[], value :: rest, rfl, nofun, List.forall_mem_cons.mpr ⟨tested, ?_⟩⟩
          intro later inside
          by_contra passes
          have passing : true ∈ rest.map test :=
            List.mem_map.mpr ⟨later, inside, Bool.eq_true_of_not_eq_false passes⟩
          rw [tested] at pattern
          exact pattern (.cons_cons _ (List.singleton_sublist.mpr passing))

theorem exists_surrounded {β : Type} (test : β → Bool) {values : List β}
    (pattern : ¬ [true, false, true].Sublist (values.map test)) : ∃ leading passing trailing,
      values = leading ++ (passing ++ trailing) ∧ (∀ value ∈ leading, test value = false) ∧
        (∀ value ∈ passing, test value = true) ∧ ∀ value ∈ trailing, test value = false := by
  induction values with
  | nil => exact ⟨[], [], [], rfl, nofun, nofun, nofun⟩
  | cons value rest ih =>
      cases tested : test value with
      | false =>
          obtain ⟨leading, passing, trailing, rfl, fails, parts⟩ :=
            ih fun found => pattern (.cons _ found)
          exact ⟨value :: leading, passing, trailing, rfl,
            List.forall_mem_cons.mpr ⟨tested, fails⟩, parts⟩
      | true =>
          have behind : ¬ [false, true].Sublist ((value :: rest).map test) := by
            rw [List.map_cons, tested] at pattern ⊢
            rintro (_ | _ | found)
            exact pattern (.cons_cons _ ‹_›)
          obtain ⟨passing, trailing, parts⟩ := exists_trailing test behind
          exact ⟨[], passing, trailing, parts.1, nofun, parts.2⟩

def ScoredCandidate.isDefined (scored : ScoredCandidate Float) : Bool :=
  !isUndefined scored.total

theorem ScoredCandidate.isDefined_eq_true_iff {scored : ScoredCandidate Float} :
    scored.isDefined = true ↔ isUndefined scored.total = false := by
  simp [isDefined]

theorem ScoredCandidate.isDefined_eq_false_iff {scored : ScoredCandidate Float} :
    scored.isDefined = false ↔ isUndefined scored.total = true := by
  simp [isDefined]

/-- The candidates with totals are ranked as if there were no others. -/
structure Ranking.KeepsOrder (ranking : Ranking Float) (scored : List (ScoredCandidate Float)) :
    Prop where
  descending : (ranking.ranked.filter ScoredCandidate.isDefined).Pairwise fun better worse =>
    worse.total ≤ better.total
  ties : ∀ total : Float, (ranking.ranked.filter fun candidate => sameAs candidate.total total) =
    scored.filter fun candidate => sameAs candidate.total total
  best : ∀ chosen, ranking.best = .ok chosen → chosen.isDefined = true →
    ∀ other ∈ scored, other.isDefined = true → ¬ chosen.total < other.total
  bestOf : ∀ origin chosen, ranking.bestOf? origin = some chosen → chosen.isDefined = true →
    ∀ other ∈ scored, other.candidate.origin = origin → other.isDefined = true →
      ¬ chosen.total < other.total

section Sorted

variable {scored : List (ScoredCandidate Float)}

/-- Where the undefined totals are at the ends, the others are sorted as if they were alone. -/
theorem filter_sortDescending_of_pattern
    (pattern : ¬ [true, false, true].Sublist (scored.map ScoredCandidate.isDefined)) :
    (sortDescending ScoredCandidate.total scored).filter ScoredCandidate.isDefined =
      sortDescending ScoredCandidate.total (scored.filter ScoredCandidate.isDefined) := by
  obtain ⟨leading, passing, trailing, rfl, atFront, defined, atBack⟩ :=
    exists_surrounded ScoredCandidate.isDefined pattern
  have none {part : List (ScoredCandidate Float)}
      (undefined : ∀ candidate ∈ part, candidate.isDefined = false) :
      part.filter ScoredCandidate.isDefined = [] :=
    List.filter_eq_nil_iff.mpr fun candidate inside => by simp [undefined candidate inside]
  have all : passing.filter ScoredCandidate.isDefined = passing := List.filter_eq_self.mpr defined
  have kept : (sortDescending ScoredCandidate.total passing).filter ScoredCandidate.isDefined =
      sortDescending ScoredCandidate.total passing :=
    List.filter_eq_self.mpr fun candidate inside =>
      defined candidate ((sortDescending_perm _ _).mem_iff.mp inside)
  rw [sortDescending_surrounded
    (fun candidate inside => ScoredCandidate.isDefined_eq_false_iff.mp (atFront candidate inside))
    (fun candidate inside => ScoredCandidate.isDefined_eq_true_iff.mp (defined candidate inside))
    (fun candidate inside => ScoredCandidate.isDefined_eq_false_iff.mp (atBack candidate inside))]
  simp only [List.filter_append, none atFront, none atBack, all, kept, List.nil_append,
    List.append_nil]

theorem sortDescending_of_same {β : Type} {key : β → Float} {values : List β} {total : Float}
    (same : ∀ value ∈ values, sameAs (key value) total = true) :
    sortDescending key values = values := by
  have placed (value : β) (inside : value ∈ values) := Binary64.place_of_sameAs (same value inside)
  rw [sortDescending_eq_byPlace fun value inside =>
    (Binary64.isUndefined_eq_false_iff _).mpr (placed value inside).1]
  refine List.mergeSort_of_pairwise (List.pairwise_of_forall_mem_list ?_)
  intro value inside other inside'
  rw [byPlace, descends, (placed value inside).2.2, (placed other inside').2.2]
  exact decide_eq_true (Int.le_refl _)

theorem not_lt_of_behind {front behind : List (ScoredCandidate Float)}
    {chosen other : ScoredCandidate Float}
    (descending : ((front ++ chosen :: behind).filter ScoredCandidate.isDefined).Pairwise
      fun better worse => worse.total ≤ better.total)
    (defined : chosen.isDefined = true) (inside : other ∈ chosen :: behind)
    (defined' : other.isDefined = true) : ¬ chosen.total < other.total := by
  rcases List.mem_cons.mp inside with rfl | later
  · exact Binary64.not_lt_self _
  · rw [List.filter_append, List.filter_cons_of_pos defined] at descending
    have first := (List.pairwise_cons.mp (List.pairwise_append.mp descending).2.1).1
    exact Binary64.not_lt_of_atMost (first other (List.mem_filter.mpr ⟨later, defined'⟩))

end Sorted

namespace Ranking

variable {scored : List (ScoredCandidate Float)} (clock : Int)

theorem keepsOrder_ofScored
    (pattern : ¬ [true, false, true].Sublist (scored.map ScoredCandidate.isDefined)) :
    (ofScored clock scored).KeepsOrder scored := by
  have kept := sortDescending_perm ScoredCandidate.total scored
  have alone := filter_sortDescending_of_pattern pattern
  have defined : ∀ candidate ∈ scored.filter ScoredCandidate.isDefined,
      isUndefined candidate.total = false :=
    fun candidate inside => ScoredCandidate.isDefined_eq_true_iff.mp (List.mem_filter.mp inside).2
  have descending : ((sortDescending ScoredCandidate.total scored).filter
      ScoredCandidate.isDefined).Pairwise fun better worse => worse.total ≤ better.total := by
    rw [alone]
    exact sortDescending_pairwise ScoredCandidate.total defined
  constructor
  · exact descending
  · intro total
    -- No undefined total is the same as another one, so leaving these out first changes nothing.
    have ranked (values : List (ScoredCandidate Float)) :
        (values.filter fun candidate => sameAs candidate.total total) =
          (values.filter ScoredCandidate.isDefined).filter
            fun candidate => sameAs candidate.total total := by
      rw [List.filter_filter]
      refine List.filter_congr fun candidate _ => ?_
      cases same : sameAs candidate.total total with
      | false => rfl
      | true =>
          have defined : isUndefined candidate.total = false :=
            (Binary64.isUndefined_eq_false_iff _).mpr (Binary64.place_of_sameAs same).1
          exact (ScoredCandidate.isDefined_eq_true_iff.mpr defined).symm
    show (sortDescending _ _).filter _ = _
    rw [ranked, alone, sortDescending_filter ScoredCandidate.total _ defined,
      sortDescending_of_same fun candidate inside => (List.mem_filter.mp inside).2, ← ranked]
  · intro chosen first known other inside known'
    unfold Ranking.best at first
    split at first
    · cases first
    · rename_i top behind sorted
      cases first
      rw [ofScored] at sorted
      dsimp only at sorted
      rw [sorted] at descending kept
      exact @not_lt_of_behind [] _ _ _ descending known (kept.mem_iff.mpr inside) known'
  · intro origin chosen found known other inside origin' known'
    obtain ⟨-, front, behind, sorted, passed⟩ := List.find?_eq_some_iff_append.mp found
    rw [ofScored] at sorted
    dsimp only at sorted
    rw [sorted] at descending kept
    refine not_lt_of_behind descending known ?_ known'
    rcases List.mem_append.mp (kept.mem_iff.mpr inside) with before | notBefore
    · have otherOrigin := passed other before
      simp [origin'] at otherOrigin
    · exact notBefore

def rated (total : Float) : ScoredCandidate Float where
  candidate := ⟨.sampled, .planned [], [], 0⟩
  metrics := ⟨[], [], [], [], rfl, rfl, rfl⟩
  scores := { Scores.undefined with total }

theorem isUndefined_zero_div_zero : isUndefined (0 / 0 : Float) = true := by
  decide

def ratedAlike (total : Float) (defined : List Bool) : List (ScoredCandidate Float) :=
  defined.map fun defined => rated (if defined then total else 0 / 0)

theorem isDefined_ratedAlike {total : Float} (known : (rated total).isDefined = true)
    (defined : List Bool) : (ratedAlike total defined).map ScoredCandidate.isDefined = defined := by
  have each (defined : Bool) : (rated (if defined then total else 0 / 0)).isDefined = defined := by
    cases defined with
    | false => exact ScoredCandidate.isDefined_eq_false_iff.mpr isUndefined_zero_div_zero
    | true => exact known
  rw [ratedAlike, List.map_map]
  exact List.map_id'' each defined

theorem pairwise_ratedAlike (total : Float) (defined : List Bool) :
    (ratedAlike total defined).Pairwise fun earlier later => ¬ earlier.total < later.total := by
  refine List.pairwise_map.mpr (List.pairwise_of_forall_mem_list fun first _ second _ => ?_)
  cases first with
  | false => exact not_lt_of_undefined id (.inl isUndefined_zero_div_zero)
  | true =>
      cases second with
      | false => exact not_lt_of_undefined id (.inr isUndefined_zero_div_zero)
      | true => exact Binary64.not_lt_self total

def interrupted (before after : List Bool) : List (ScoredCandidate Float) :=
  ratedAlike 1 before ++ rated (0 / 0) :: ratedAlike 2 after

theorem ranked_interrupted (before after : List Bool) :
    (ofScored clock (interrupted before after)).ranked = interrupted before after := by
  have gap := isUndefined_zero_div_zero
  refine sortDescending_of_falls (List.any_eq_true.mpr ⟨rated (0 / 0), ?_, gap⟩) ?_
  · exact List.mem_append_right _ List.mem_cons_self
  · have apart (other : Float) : ¬ other < 0 / 0 ∧ ¬ 0 / 0 < other :=
      ⟨not_lt_of_undefined id (.inr gap), not_lt_of_undefined id (.inl gap)⟩
    refine List.isChain_append.mpr ⟨(pairwise_ratedAlike 1 before).isChain, List.isChain_cons.mpr
      ⟨fun better _ => (apart better.total).2, (pairwise_ratedAlike 2 after).isChain⟩, ?_⟩
    intro worse _ next first
    cases first
    exact (apart worse.total).1

theorem not_keepsOrder_interrupted {before after : List Bool} (worse : true ∈ before)
    (better : true ∈ after) :
    ¬ (ofScored clock (interrupted before after)).KeepsOrder (interrupted before after) := by
  intro keeps
  have first : rated 1 ∈ ratedAlike 1 before := List.mem_map.mpr ⟨true, worse, rfl⟩
  have last : rated 2 ∈ ratedAlike 2 after := List.mem_map.mpr ⟨true, better, rfl⟩
  have inOrder : [rated 1, rated 2].Sublist (interrupted before after) :=
    (List.singleton_sublist.mpr first).append
      (List.singleton_sublist.mpr (List.mem_cons_of_mem _ last))
  have known : [rated 1, rated 2].filter ScoredCandidate.isDefined = [rated 1, rated 2] :=
    List.filter_eq_self.mpr (List.forall_mem_cons.mpr
      ⟨by decide, List.forall_mem_singleton.mpr (by decide)⟩)
  have kept := inOrder.filter ScoredCandidate.isDefined
  have descending := keeps.descending
  rw [known, ← ranked_interrupted clock] at kept
  have atMost := List.rel_of_pairwise_cons (descending.sublist kept) (List.mem_singleton_self _)
  exact absurd atMost (by decide)

theorem exists_disturbed {defined : List Bool} (pattern : [true, false, true].Sublist defined) :
    ∃ scored : List (ScoredCandidate Float), scored.map ScoredCandidate.isDefined = defined ∧
      ¬ (ofScored clock scored).KeepsOrder scored := by
  obtain ⟨start, rest, rfl, worse, behind⟩ := List.cons_sublist_iff.mp pattern
  obtain ⟨between, last, rfl, gap, better⟩ := List.cons_sublist_iff.mp behind
  obtain ⟨front, back, rfl⟩ := List.append_of_mem gap
  refine ⟨interrupted (start ++ front) (back ++ last), ?_, not_keepsOrder_interrupted clock
    (List.mem_append_left _ worse)
    (List.mem_append_right _ (List.singleton_sublist.mp better))⟩
  have undefined : (rated (0 / 0)).isDefined = false := by decide
  have known : (rated 1).isDefined = true ∧ (rated 2).isDefined = true := by decide
  rw [interrupted, List.map_append, List.map_cons, isDefined_ratedAlike known.1,
    isDefined_ratedAlike known.2, undefined]
  simp only [List.append_assoc, List.cons_append]

/-- Exactly where no undefined total is between defined ones, the others keep their order whatever
they are. -/
theorem ofScored_keepsOrder_iff (defined : List Bool) :
    (∀ clock scored, scored.map ScoredCandidate.isDefined = defined →
      (ofScored clock scored).KeepsOrder scored) ↔ ¬ [true, false, true].Sublist defined := by
  constructor
  · intro keeps pattern
    obtain ⟨scored, same, disturbed⟩ := exists_disturbed 0 pattern
    exact disturbed (keeps 0 scored same)
  · rintro pattern clock scored rfl
    exact keepsOrder_ofScored clock pattern

theorem surrounded_keepsOrder :
    (ofScored 0 [rated (0 / 0), rated 1, rated 2, rated (0 / 0)]).KeepsOrder
      [rated (0 / 0), rated 1, rated 2, rated (0 / 0)] :=
  (ofScored_keepsOrder_iff [false, true, true, false]).mpr (by decide) 0 _ (by decide)

/-- One in the middle has the worse candidate stay the best, of all and of its origin. -/
theorem interrupted_best_is_worse :
    ((ofScored 0 [rated 1, rated (0 / 0), rated 2]).best = .ok (rated 1) ∧
      (ofScored 0 [rated 1, rated (0 / 0), rated 2]).bestOf? .sampled = some (rated 1) ∧
        (rated 1).total < (rated 2).total) ∧
      ¬ (ofScored 0 [rated 1, rated (0 / 0), rated 2]).KeepsOrder
        [rated 1, rated (0 / 0), rated 2] := by
  have ranked : (ofScored 0 [rated 1, rated (0 / 0), rated 2]).ranked =
      [rated 1, rated (0 / 0), rated 2] := ranked_interrupted 0 [true] [true]
  refine ⟨⟨?_, ?_, by decide⟩, @not_keepsOrder_interrupted 0 [true] [true] List.mem_cons_self
    List.mem_cons_self⟩
  · rw [Ranking.best, ranked]
  · rw [bestOf?, ranked]
    rfl

end Ranking

end ManeuverRanking
