import Mathlib.Analysis.SpecialFunctions.Complex.Arg
import ManeuverRanking.Proofs.Path.Reference

/-!
The points a path keeps, over the real numbers. A point is compared with the one before it in the
list, so a way of small steps is left out however far it leads. If it leads off a kept point and the
next longer step leads back onto that point, two successive knots lie at one place; everywhere else
the places of the knots increase.
-/

namespace ManeuverRanking

theorem runningTotals_increasing_iff (start : ℝ) (distances : List ℝ) :
    (start :: runningTotals start distances).IsChain (· < ·) ↔
      ∀ distance ∈ distances, 0 < distance := by
  induction distances generalizing start with
  | nil => simp [runningTotals]
  | cons distance rest ih =>
      rw [runningTotals, List.isChain_cons_cons, ih, List.forall_mem_cons, lt_add_iff_pos_right]

namespace ReferencePath

def Strides (before point : Vec2 ℝ) : Prop :=
  leastStep < (point.sub before).norm

theorem norm_sub_comm (start stop : Vec2 ℝ) : (stop.sub start).norm = (start.sub stop).norm := by
  simp only [Vec2.norm, Vec2.dot, Vec2.sub]
  congr 1
  ring

theorem leastStep_pos : (0 : ℝ) < leastStep := by
  unfold leastStep
  norm_num

theorem not_strides_self (point : Vec2 ℝ) : ¬ Strides point point := by
  have still : ¬ 0 < (point.sub point).norm := by
    rw [Exact.norm_sub_pos_iff]
    exact not_not_intro rfl
  unfold Strides
  linarith [leastStep_pos]

theorem strides_comm (start stop : Vec2 ℝ) : Strides start stop ↔ Strides stop start := by
  rw [Strides, norm_sub_comm, Strides]

section Filter

variable {before point : Vec2 ℝ} {points kept later : List (Vec2 ℝ)}

theorem distinctAfter_append (before : Vec2 ℝ) (points later : List (Vec2 ℝ)) :
    distinctAfter before (points ++ later) =
      distinctAfter before points ++ distinctAfter (points.getLastD before) later := by
  induction points generalizing before with
  | nil => rfl
  | cons point rest ih =>
      rw [List.cons_append, distinctAfter, ih, distinctAfter, List.getLastD_cons]
      split <;> rfl

theorem distinctAfter_cons_of_strides (long : Strides before point) :
    distinctAfter before (point :: later) = point :: distinctAfter point later :=
  if_pos long

theorem distinctAfter_eq_nil_iff (before : Vec2 ℝ) (points : List (Vec2 ℝ)) :
    distinctAfter before points = [] ↔
      (before :: points).IsChain fun start stop => ¬ Strides start stop := by
  induction points generalizing before with
  | nil => simp [distinctAfter]
  | cons point rest ih =>
      rw [List.isChain_cons_cons, ← ih]
      by_cases long : Strides before point
      · simp [distinctAfter_cons_of_strides long, long]
      · simp [show distinctAfter before (point :: rest) = distinctAfter point rest from if_neg long,
          long]

theorem exists_of_distinctAfter_eq (listed : distinctAfter before points = kept ++ point :: later) :
    ∃ earlier rest, points = earlier ++ point :: rest ∧ distinctAfter before earlier = kept ∧
      Strides (earlier.getLastD before) point ∧ distinctAfter point rest = later := by
  induction points generalizing before kept with
  | nil => simp [distinctAfter] at listed
  | cons next points ih =>
      by_cases long : Strides before next
      · rw [distinctAfter_cons_of_strides long] at listed
        cases kept with
        | nil =>
            obtain ⟨rfl, rest⟩ := List.cons.inj listed
            exact ⟨[], points, rfl, rfl, long, rest⟩
        | cons first kept =>
            obtain ⟨rfl, after⟩ := List.cons.inj listed
            obtain ⟨earlier, rest, rfl, same, stride, behind⟩ := ih after
            refine ⟨next :: earlier, rest, rfl, ?_, ?_, behind⟩
            · rw [distinctAfter_cons_of_strides long, same]
            · rwa [List.getLastD_cons]
      · have passed (points : List (Vec2 ℝ)) :
            distinctAfter before (next :: points) = distinctAfter next points := if_neg long
        rw [passed] at listed
        obtain ⟨earlier, rest, rfl, same, stride, behind⟩ := ih listed
        refine ⟨next :: earlier, rest, rfl, ?_, ?_, behind⟩
        · rw [passed, same]
        · rwa [List.getLastD_cons]

theorem exists_of_distinctAfter_eq_cons (listed : distinctAfter before points = point :: later) :
    ∃ dropped rest, points = dropped ++ point :: rest ∧
      ((before :: dropped).IsChain fun start stop => ¬ Strides start stop) ∧
      Strides (dropped.getLastD before) point := by
  have behind : distinctAfter before points = [] ++ point :: later := listed
  obtain ⟨dropped, rest, told, none, stride, -⟩ := exists_of_distinctAfter_eq behind
  exact ⟨dropped, rest, told, (distinctAfter_eq_nil_iff _ _).mp none, stride⟩

end Filter

/-- Small steps lead off a point that is kept, and the next stride leads back onto it. -/
def Returns (points : List (Vec2 ℝ)) : Prop :=
  ∃ earlier place dropped later, points = earlier ++ place :: (dropped ++ place :: later) ∧
    (∀ before ∈ earlier.getLast?, Strides before place) ∧
    ((place :: dropped).IsChain fun start stop => ¬ Strides start stop) ∧
    Strides (dropped.getLastD place) place

section Knots

variable {points : List (Vec2 ℝ)}

/-- Successive kept points coincide exactly where the points return. -/
theorem isChain_ne_distinct_iff (points : List (Vec2 ℝ)) :
    (distinct points).IsChain (· ≠ ·) ↔ ¬ Returns points := by
  rw [List.isChain_iff_forall_rel_of_append_cons_cons]
  constructor
  · rintro apart ⟨earlier, place, dropped, later, rfl, kept, small, back⟩
    have none := (distinctAfter_eq_nil_iff place dropped).mpr small
    have twice : distinctAfter place (dropped ++ place :: later) =
        place :: distinctAfter place later := by
      rw [distinctAfter_append, none, List.nil_append, distinctAfter_cons_of_strides back]
    -- The first point is kept without a stride of its own, so the return may start at it.
    cases earlier with
    | nil =>
        have listed : distinct (place :: (dropped ++ place :: later)) =
            [] ++ place :: place :: distinctAfter place later := by
          rw [distinct, twice, List.nil_append]
        exact apart listed rfl
    | cons first earlier =>
        have stride : Strides (earlier.getLastD first) place := by
          apply kept
          rw [List.getLast?_cons, List.getLastD_eq_getLast?]
          rfl
        have listed : distinct (first :: earlier ++ place :: (dropped ++ place :: later)) =
            (first :: distinctAfter first earlier) ++
              place :: place :: distinctAfter place later := by
          rw [List.cons_append, distinct, distinctAfter_append,
            distinctAfter_cons_of_strides stride, twice, List.cons_append]
        exact apart listed rfl
  · intro goes place next front back listed same
    subst same
    apply goes
    cases points with
    | nil => simp [distinct] at listed
    | cons first rest =>
        -- Nothing was kept between two kept neighbours, so only small steps lie there.
        cases front with
        | nil =>
            obtain ⟨rfl, after⟩ := List.cons.inj listed
            obtain ⟨dropped, later, rfl, small, stride⟩ := exists_of_distinctAfter_eq_cons after
            exact ⟨[], first, dropped, later, rfl, by simp, small, stride⟩
        | cons head front =>
            obtain ⟨rfl, behind⟩ := List.cons.inj listed
            obtain ⟨earlier, rest, rfl, -, kept, after⟩ := exists_of_distinctAfter_eq behind
            obtain ⟨dropped, later, rfl, small, stride⟩ := exists_of_distinctAfter_eq_cons after
            refine ⟨first :: earlier, place, dropped, later, rfl, ?_, small, stride⟩
            intro before last
            rw [List.getLast?_cons, ← List.getLastD_eq_getLast?] at last
            cases last
            exact kept

theorem Returns.exists_small (returns : Returns points) : ∃ front start middle stop back,
    points = front ++ start :: middle :: stop :: back ∧
      ¬ Strides start middle ∧ ¬ Strides middle stop := by
  obtain ⟨earlier, place, dropped, later, rfl, -, small, back⟩ := returns
  match dropped with
  | [] => exact absurd back (not_strides_self place)
  | [only] =>
      obtain ⟨first, -⟩ := List.isChain_cons_cons.mp small
      exact absurd ((strides_comm only place).mp back) first
  | middle :: stop :: dropped =>
      obtain ⟨first, small⟩ := List.isChain_cons_cons.mp small
      exact ⟨earlier, place, middle, stop, dropped ++ place :: later, rfl, first,
        (List.isChain_cons_cons.mp small).1⟩

theorem stepLengths_pos_iff (points : List (Vec2 ℝ)) :
    (∀ length ∈ stepLengths stepBetween points, 0 < length) ↔ points.IsChain (· ≠ ·) := by
  induction points with
  | nil => simp [stepLengths]
  | cons first rest ih =>
      cases rest with
      | nil => simp [stepLengths]
      | cons second rest =>
          rw [stepLengths, List.forall_mem_cons, ih, List.isChain_cons_cons]
          exact and_congr_left fun _ => Exact.norm_sub_pos_iff first second

theorem places_increasing_iff (points : List (Vec2 ℝ)) :
    (places points).Pairwise (· < ·) ↔ points.IsChain (· ≠ ·) := by
  rw [← List.isChain_iff_pairwise, places, progressOf, runningTotals_increasing_iff,
    stepLengths_pos_iff]

theorem length_distinct_lt_two_iff (points : List (Vec2 ℝ)) :
    (distinct points).length < 2 ↔
      points.IsChain fun start stop => ¬ Strides start stop := by
  cases points with
  | nil => simp [distinct]
  | cons first rest =>
      rw [← distinctAfter_eq_nil_iff, distinct, List.length_cons, ← List.length_eq_zero_iff]
      omega

theorem impassable_iff {fault : Fault ℝ} : Impassable points fault ↔
    points.length < 2 ∧ fault = .tooFewPathPoints ∨
    2 ≤ points.length ∧ ¬ points.IsChain (· ≠ ·) ∧ fault = .unusableKnots := by
  constructor
  · rintro (few | ⟨two, halts⟩)
    · exact .inl ⟨few, rfl⟩
    · exact .inr ⟨two, halts, rfl⟩
  · rintro (⟨few, rfl⟩ | ⟨two, halts, rfl⟩)
    · exact .tooFew few
    · exact .coincident two halts

theorem impassable_tooFew_iff : Impassable points .tooFewPathPoints ↔ points.length < 2 := by
  simp [impassable_iff]

theorem impassable_unusableKnots_iff :
    Impassable points .unusableKnots ↔ ¬ points.IsChain (· ≠ ·) := by
  simp only [impassable_iff, reduceCtorEq, and_false, false_or, and_true, and_iff_right_iff_imp]
  intro halts
  match points with
  | [] => exact absurd .nil halts
  | [point] => exact absurd (.singleton point) halts
  | _ :: _ :: rest => exact Nat.le_add_left 2 rest.length

theorem through_eq_throughDistinct {abscissas ordinates : List ℝ}
    (paired : abscissas.length = ordinates.length) (some : abscissas ≠ []) (spacing : ℝ) :
    through abscissas ordinates spacing =
      throughDistinct (distinct (List.zipWith Vec2.mk abscissas ordinates)) spacing := by
  obtain ⟨x, abscissas, rfl⟩ := List.exists_cons_of_ne_nil some
  obtain ⟨y, ordinates, rfl⟩ := List.exists_cons_of_length_eq_add_one paired.symm
  exact if_neg (not_not_intro paired)

theorem through_eq_error_iff {abscissas ordinates : List ℝ}
    (paired : abscissas.length = ordinates.length) (some : abscissas ≠ []) (spacing : ℝ)
    (fault : Fault ℝ) : through abscissas ordinates spacing = .error fault ↔
      Impassable (distinct (List.zipWith Vec2.mk abscissas ordinates)) fault := by
  rw [through_eq_throughDistinct paired some, throughDistinct_eq_error_iff]

/-- A path is refused for too few points exactly if all steps are small. The places of its knots
increase, and its splines accept them, exactly if the points do not return; and points that return
take two small steps in a row. -/
theorem through_eq_unusableKnots_iff {abscissas ordinates : List ℝ}
    (paired : abscissas.length = ordinates.length) (some : abscissas ≠ []) (spacing : ℝ) :
    let points := List.zipWith Vec2.mk abscissas ordinates
    (through abscissas ordinates spacing = .error .tooFewPathPoints ↔
      points.IsChain fun start stop => ¬ Strides start stop) ∧
    ((places (distinct points)).Pairwise (· < ·) ↔ ¬ Returns points) ∧
    (through abscissas ordinates spacing = .error .unusableKnots ↔ Returns points) ∧
    (Returns points → ∃ front start middle stop back,
      points = front ++ start :: middle :: stop :: back ∧
        ¬ Strides start middle ∧ ¬ Strides middle stop) := by
  intro points
  have fails := through_eq_error_iff paired some spacing
  refine ⟨?_, ?_, ?_, Returns.exists_small⟩
  · rw [fails, impassable_tooFew_iff, length_distinct_lt_two_iff]
  · rw [places_increasing_iff, isChain_ne_distinct_iff]
  · rw [fails, impassable_unusableKnots_iff, isChain_ne_distinct_iff, not_not]

noncomputable def drift (stop : ℝ) : List ℝ :=
  [0, 9e-7, 18e-7, stop]

theorem strides_level_iff (start stop : ℝ) : Strides ⟨start, 0⟩ ⟨stop, 0⟩ ↔
    1 / 1000000 < |stop - start| := by
  have length : ((⟨stop, 0⟩ : Vec2 ℝ).sub ⟨start, 0⟩).norm = |stop - start| := by
    rw [← Real.sqrt_mul_self_eq_abs]
    simp [Vec2.norm, Vec2.dot, Vec2.sub, Scalar.sqrt]
  rw [Strides, length, leastStep]
  norm_num

theorem distinct_drift {stop : ℝ} (far : Strides ⟨18e-7, 0⟩ ⟨stop, 0⟩) :
    distinct (List.zipWith Vec2.mk (drift stop) [0, 0, 0, 0]) = [⟨0, 0⟩, ⟨stop, 0⟩] := by
  have small : ¬ Strides ⟨0, 0⟩ ⟨9e-7, 0⟩ ∧
      ¬ Strides ⟨9e-7, 0⟩ ⟨18e-7, 0⟩ := by
    rw [strides_level_iff, strides_level_iff]
    constructor <;> norm_num [abs_of_pos]
  unfold Strides at far small
  simp [drift, distinct, distinctAfter, far, small]

theorem drift_ahead : (drift 1).length = ([0, 0, 0, 0] : List ℝ).length ∧ drift 1 ≠ [] ∧
    (places (distinct (List.zipWith Vec2.mk (drift 1) [0, 0, 0, 0]))).Pairwise (· < ·) ∧
    through (drift 1) [0, 0, 0, 0] defaultSpacing ≠ .error .tooFewPathPoints ∧
    through (drift 1) [0, 0, 0, 0] defaultSpacing ≠ .error .unusableKnots := by
  have far : Strides ⟨18e-7, 0⟩ ⟨1, 0⟩ := by
    rw [strides_level_iff]
    norm_num [abs_of_pos]
  have paired : (drift 1).length = ([0, 0, 0, 0] : List ℝ).length := rfl
  have some : drift 1 ≠ [] := List.cons_ne_nil _ _
  obtain ⟨few, increase, halts, -⟩ := through_eq_unusableKnots_iff paired some defaultSpacing
  have apart : (distinct (List.zipWith Vec2.mk (drift 1) [0, 0, 0, 0])).IsChain (· ≠ ·) := by
    simp [distinct_drift far]
  have goes := (isChain_ne_distinct_iff _).mp apart
  refine ⟨paired, some, increase.mpr goes, ?_, fun refused => goes (halts.mp refused)⟩
  rw [ne_eq, few, ← length_distinct_lt_two_iff, distinct_drift far]
  decide

/-- Two small steps ahead and one step back to the origin: the two points that are kept coincide, and
it is the splines that refuse the path. -/
theorem drift_back : through (drift 0) [0, 0, 0, 0] defaultSpacing = .error .unusableKnots ∧
    through (drift 0) [0, 0, 0, 0] defaultSpacing ≠ .error .tooFewPathPoints ∧
    ¬ (places (distinct (List.zipWith Vec2.mk (drift 0) [0, 0, 0, 0]))).Pairwise (· < ·) := by
  have far : Strides ⟨18e-7, 0⟩ ⟨0, 0⟩ := by
    rw [strides_level_iff]
    norm_num [abs_of_neg]
  have halts : ¬ (distinct (List.zipWith Vec2.mk (drift 0) [0, 0, 0, 0])).IsChain (· ≠ ·) := by
    simp [distinct_drift far]
  have refused : through (drift 0) [0, 0, 0, 0] defaultSpacing = .error .unusableKnots := by
    have paired : (drift 0).length = ([0, 0, 0, 0] : List ℝ).length := rfl
    rwa [through_eq_error_iff paired (List.cons_ne_nil _ _), impassable_unusableKnots_iff]
  refine ⟨refused, ?_, ?_⟩
  · rw [refused]
    nofun
  · rwa [places_increasing_iff]

end Knots

end ReferencePath

end ManeuverRanking
