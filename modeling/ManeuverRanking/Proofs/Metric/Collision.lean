import Mathlib.Analysis.SpecialFunctions.Complex.Arg
import ManeuverRanking.Metric.Collision
import ManeuverRanking.Proofs.Geometry.Direction

/-!
The time to collision over the real numbers as the least of the times in which objects are met. The
time without collision stands in for no object at all, and contact, which ends the search, for the
least time there can be; so it does not matter in what order and how often objects are listed.
-/

namespace ManeuverRanking

namespace Vec3

variable (left right other : Vec3 ℝ)

theorem dot_sub : left.dot (right.sub other) = left.dot right - left.dot other := by
  simp only [dot, sub]
  ring

theorem divide_dot (divisor : ℝ) : (left.divide divisor).dot right = left.dot right / divisor := by
  simp only [dot, divide]
  ring

theorem dot_self_nonneg : 0 ≤ left.dot left :=
  add_nonneg (add_nonneg (mul_self_nonneg _) (mul_self_nonneg _)) (mul_self_nonneg _)

theorem norm_mul_norm : left.norm * left.norm = left.dot left :=
  Real.mul_self_sqrt left.dot_self_nonneg

theorem norm_nonneg : 0 ≤ left.norm :=
  Real.sqrt_nonneg _

theorem norm_sub_eq_zero_iff : (left.sub right).norm = 0 ↔ left = right := by
  constructor
  · intro none
    have squares := (left.sub right).norm_mul_norm
    rw [none, zero_mul] at squares
    obtain ⟨level, z⟩ := (add_eq_zero_iff_of_nonneg
      (add_nonneg (mul_self_nonneg _) (mul_self_nonneg _)) (mul_self_nonneg _)).mp squares.symm
    obtain ⟨x, y⟩ := mul_self_add_mul_self_eq_zero.mp level
    simp only [sub, mul_self_eq_zero, sub_eq_zero] at x y z
    cases left
    cases right
    simp only [Vec3.mk.injEq]
    exact ⟨x, y, z⟩
  · rintro rfl
    have none : (left.sub left).norm = Real.sqrt 0 := by
      simp only [norm, dot, sub, sub_self, mul_zero, add_zero]
      rfl
    rw [none, Real.sqrt_zero]

end Vec3

theorem leastClosingSpeed_pos : (0 : ℝ) < leastClosingSpeed := by
  unfold leastClosingSpeed
  norm_num

theorem noCollision_pos : (0 : ℝ) < noCollision :=
  Int.cast_pos.mpr (by decide)

namespace TrackedObject

variable {pose : Pose ℝ} {velocity : Vec3 ℝ} {object : TrackedObject ℝ} {time : ℝ}

def Touches (object : TrackedObject ℝ) (pose : Pose ℝ) : Prop :=
  object.pose.position = pose.position

def ClosesIn (object : TrackedObject ℝ) (pose : Pose ℝ) (velocity : Vec3 ℝ) (time : ℝ) : Prop :=
  let sight := object.pose.position.sub pose.position
  ∃ own, object.pose.toMap object.velocity = .ok own ∧
    leastClosingSpeed < (sight.divide sight.norm).dot (velocity.sub own) ∧
    time = sight.dot sight / sight.dot (velocity.sub own)

theorem ClosesIn.unique {other : ℝ} (closes : object.ClosesIn pose velocity time)
    (closes' : object.ClosesIn pose velocity other) : time = other := by
  obtain ⟨own, mapped, -, rfl⟩ := closes
  obtain ⟨own', mapped', -, rfl⟩ := closes'
  rw [mapped] at mapped'
  cases mapped'
  rfl

theorem ClosesIn.positive (closes : object.ClosesIn pose velocity time) :
    ¬ object.Touches pose ∧ 0 < time := by
  obtain ⟨own, -, fast, rfl⟩ := closes
  have forward := leastClosingSpeed_pos.trans fast
  rw [Vec3.divide_dot] at forward
  have apart : (object.pose.position.sub pose.position).norm ≠ 0 := by
    intro none
    rw [none, div_zero] at forward
    exact lt_irrefl _ forward
  have distance := lt_of_le_of_ne (Vec3.norm_nonneg _) apart.symm
  have ahead := (div_pos_iff_of_pos_right distance).mp forward
  refine ⟨fun touching => apart ((Vec3.norm_sub_eq_zero_iff ..).mpr touching), div_pos ?_ ahead⟩
  rw [← Vec3.norm_mul_norm]
  exact mul_pos distance distance

end TrackedObject

inductive Meets (pose : Pose ℝ) (velocity : Vec3 ℝ) (object : TrackedObject ℝ) : Approach ℝ → Prop
  | contact (touching : object.Touches pose) : Meets pose velocity object .contact
  | receding (apart : ¬ object.Touches pose)
      (away : ∀ time, ¬ object.ClosesIn pose velocity time) : Meets pose velocity object .receding
  | closing (time : ℝ) (closes : object.ClosesIn pose velocity time) :
      Meets pose velocity object (.closing time)

theorem yields_ofObject (pose : Pose ℝ) (velocity : Vec3 ℝ) {object : TrackedObject ℝ}
    (moving : object.velocity.length = 3) :
    Yields (Approach.ofObject pose velocity.toList object) (Meets pose velocity object) := by
  have touches := Vec3.norm_sub_eq_zero_iff object.pose.position pose.position
  unfold Approach.ofObject
  simp only [Exact.sameAs_iff]
  split
  · rename_i contact
    exact .ok (.contact (touches.mp contact))
  · rename_i distance
    obtain ⟨x, y, z, parts⟩ := List.length_eq_three.mp moving
    obtain ⟨own, mapped⟩ : ∃ own, object.pose.toMap object.velocity = .ok own := by
      rw [parts]
      exact ⟨_, rfl⟩
    rw [mapped]
    refine .ok ?_
    rw [← Vec3.dot_sub]
    split
    · rename_i slow
      refine .receding (fun touching => distance (touches.mpr touching)) ?_
      rintro time ⟨own', mapped', fast, -⟩
      rw [mapped] at mapped'
      cases mapped'
      exact absurd fast (not_lt.mpr slow)
    · rename_i fast
      refine .closing _ ⟨own, mapped, not_le.mp fast, ?_⟩
      rw [Vec3.divide_dot, div_div_eq_mul_div, Vec3.norm_mul_norm]

section Soonest

variable (pose : Pose ℝ) (velocity : Vec3 ℝ)

def meetingTimes (objects : List (TrackedObject ℝ)) : Set ℝ :=
  {time | ∃ object ∈ objects, object.Touches pose ∧ time = 0 ∨ object.ClosesIn pose velocity time}

variable {pose velocity} {object : TrackedObject ℝ} {objects rest : List (TrackedObject ℝ)}

theorem meetingTimes_nonneg {time : ℝ} (met : time ∈ meetingTimes pose velocity objects) :
    0 ≤ time := by
  obtain ⟨object, -, ⟨-, rfl⟩ | closes⟩ := met
  · exact le_refl 0
  · exact closes.positive.2.le

theorem meetingTimes_append (left right : List (TrackedObject ℝ)) :
    meetingTimes pose velocity (left ++ right) =
      meetingTimes pose velocity left ∪ meetingTimes pose velocity right := by
  ext time
  simp only [meetingTimes, List.mem_append, Set.mem_ofPred_eq, Set.mem_union, or_and_right,
    exists_or]

theorem meetingTimes_cons_of_receding (meets : Meets pose velocity object .receding) :
    meetingTimes pose velocity (object :: rest) = meetingTimes pose velocity rest := by
  cases meets with
  | receding apart away =>
      ext time
      simp [meetingTimes, apart, away]

theorem meetingTimes_cons_of_closing {time : ℝ} (closes : object.ClosesIn pose velocity time) :
    meetingTimes pose velocity (object :: rest) =
      insert time (meetingTimes pose velocity rest) := by
  have same (other : ℝ) : object.ClosesIn pose velocity other ↔ other = time :=
    ⟨fun closes' => closes'.unique closes, fun same => same ▸ closes⟩
  ext other
  simp [meetingTimes, closes.positive.1, same]

theorem isLeast_insert_min {first second least : ℝ} {times : Set ℝ}
    (found : IsLeast (insert (min first second) times) least) :
    IsLeast (insert first (insert second times)) least := by
  obtain ⟨member, below⟩ := found
  have smaller := below (Set.mem_insert _ _)
  constructor
  · rcases member with rfl | inside
    · rcases min_choice first second with chosen | chosen
      · rw [chosen]
        exact .inl rfl
      · rw [chosen]
        exact .inr (.inl rfl)
    · exact .inr (.inr inside)
  · rintro time (rfl | rfl | inside)
    · exact smaller.trans (min_le_left _ _)
    · exact smaller.trans (min_le_right _ _)
    · exact below (.inr inside)

/-- Objects move in space, and none is met later than the time that stands for no collision. -/
structure InTime (pose : Pose ℝ) (velocity : Vec3 ℝ) (objects : List (TrackedObject ℝ)) : Prop where
  moving : ∀ object ∈ objects, object.velocity.length = 3
  bounded : ∀ object ∈ objects, ∀ time, object.ClosesIn pose velocity time → time ≤ noCollision

theorem InTime.subset (inTime : InTime pose velocity objects) (part : rest ⊆ objects) :
    InTime pose velocity rest :=
  ⟨fun object inside => inTime.moving object (part inside),
    fun object inside => inTime.bounded object (part inside)⟩

theorem yields_soonest {found : Option ℝ} (early : 0 ≤ found.getD noCollision)
    (inTime : InTime pose velocity objects) :
    Yields (soonest pose velocity.toList found objects)
      (IsLeast (insert (found.getD noCollision) (meetingTimes pose velocity objects))) := by
  induction objects generalizing found with
  | nil =>
      refine .ok ?_
      simp [meetingTimes]
  | cons object rest ih =>
      have later (found : Option ℝ) (early : 0 ≤ found.getD noCollision) :=
        ih early (inTime.subset (List.subset_cons_self object rest))
      apply (yields_ofObject pose velocity (inTime.moving object List.mem_cons_self)).bind
      intro approach meets
      cases meets with
      | contact touching =>
          refine .ok ⟨.inr ⟨object, List.mem_cons_self, .inl ⟨touching, rfl⟩⟩, ?_⟩
          rintro time (rfl | met)
          · exact early
          · exact meetingTimes_nonneg met
      | receding apart away =>
          rw [meetingTimes_cons_of_receding (.receding apart away)]
          exact later found early
      | closing time closes =>
          rw [meetingTimes_cons_of_closing closes]
          have within := inTime.bounded object List.mem_cons_self time closes
          have joined : (some (found.elim time fun least => firstOrSmaller least time)).getD
              noCollision = min (found.getD noCollision) time := by
            cases found with
            | none => exact (min_eq_right within).symm
            | some least => exact Exact.firstOrSmaller_eq least time
          have early' := le_min early closes.positive.2.le
          rw [← joined] at early'
          apply (later _ early').mono
          intro value least
          rw [joined] at least
          exact isLeast_insert_min least

theorem InTime.yields (inTime : InTime pose velocity objects) :
    Yields (timeToCollision objects pose velocity.toList)
      (IsLeast (insert noCollision (meetingTimes pose velocity objects))) :=
  yields_soonest noCollision_pos.le inTime

theorem InTime.timeToCollision_eq (inTime : InTime pose velocity objects) {value : ℝ}
    (least : IsLeast (insert noCollision (meetingTimes pose velocity objects)) value) :
    timeToCollision objects pose velocity.toList = .ok value := by
  obtain ⟨other, found, least'⟩ := inTime.yields
  rw [found, least'.unique least]

theorem isLeast_eq_zero_iff {value : ℝ}
    (least : IsLeast (insert noCollision (meetingTimes pose velocity objects)) value) :
    value = 0 ↔ ∃ object ∈ objects, object.Touches pose := by
  constructor
  · rintro rfl
    rcases least.1 with none | ⟨object, inside, ⟨touching, -⟩ | closes⟩
    · exact absurd none noCollision_pos.ne
    · exact ⟨object, inside, touching⟩
    · exact absurd closes.positive.2 (lt_irrefl 0)
  · rintro ⟨object, inside, touching⟩
    have early : value ≤ 0 := least.2 (.inr ⟨object, inside, .inl ⟨touching, rfl⟩⟩)
    rcases least.1 with none | met
    · exact absurd early (not_le.mpr (none ▸ noCollision_pos))
    · exact le_antisymm early (meetingTimes_nonneg met)

theorem isLeast_closing_or_none (inTime : InTime pose velocity objects)
    (apart : ∀ object ∈ objects, ¬ object.Touches pose) {value : ℝ}
    (least : IsLeast (insert noCollision (meetingTimes pose velocity objects)) value) :
    IsLeast {time | ∃ object ∈ objects, object.ClosesIn pose velocity time} value ∨
      (∀ object ∈ objects, ∀ time, ¬ object.ClosesIn pose velocity time) ∧ value = noCollision := by
  have times : meetingTimes pose velocity objects =
      {time | ∃ object ∈ objects, object.ClosesIn pose velocity time} := by
    ext time
    constructor
    · rintro ⟨object, inside, ⟨touching, -⟩ | closes⟩
      · exact absurd touching (apart object inside)
      · exact ⟨object, inside, closes⟩
    · rintro ⟨object, inside, closes⟩
      exact ⟨object, inside, .inr closes⟩
  rw [times] at least
  obtain ⟨member, below⟩ := least
  rcases member with none | met
  · by_cases some : ∃ object ∈ objects, ∃ time, object.ClosesIn pose velocity time
    · -- Only an object met exactly at the bound leaves the value at it.
      obtain ⟨object, inside, time, closes⟩ := some
      have early := below (.inr ⟨object, inside, closes⟩)
      have late := inTime.bounded object inside time closes
      have same : value = time := le_antisymm early (none ▸ late)
      refine .inl ⟨⟨object, inside, same ▸ closes⟩, ?_⟩
      exact fun other met => below (.inr met)
    · simp only [not_exists, not_and] at some
      exact .inr ⟨some, none⟩
  · exact .inl ⟨met, fun other met => below (.inr met)⟩

/-- The time to collision with the objects of two lists is the smaller of the two times. It depends
on which objects are listed alone, and no further object raises it. It is zero exactly in contact,
and otherwise the least time in which the ego vehicle closes in on an object, if there is one. -/
theorem timeToCollision_append {left right : List (TrackedObject ℝ)}
    (inTime : InTime pose velocity (left ++ right)) :
    ∃ first second, timeToCollision left pose velocity.toList = .ok first ∧
      timeToCollision right pose velocity.toList = .ok second ∧
      timeToCollision (left ++ right) pose velocity.toList = .ok (min first second) ∧
      (∀ others : List (TrackedObject ℝ), (∀ object, object ∈ others ↔ object ∈ left) →
        timeToCollision others pose velocity.toList = .ok first) ∧
      (∀ object ∈ right, ∃ value ≤ first,
        timeToCollision (object :: left) pose velocity.toList = .ok value) ∧
      (first = 0 ↔ ∃ object ∈ left, object.Touches pose) ∧
      ((∀ object ∈ left, ¬ object.Touches pose) →
        IsLeast {time | ∃ object ∈ left, object.ClosesIn pose velocity time} first ∨
        (∀ object ∈ left, ∀ time, ¬ object.ClosesIn pose velocity time) ∧
          first = noCollision) := by
  have inTimeLeft := inTime.subset (List.subset_append_left left right)
  have inTimeRight := inTime.subset (List.subset_append_right left right)
  obtain ⟨first, found, least⟩ := inTimeLeft.yields
  obtain ⟨second, found', least'⟩ := inTimeRight.yields
  refine ⟨first, second, found, found', ?_, ?_, ?_, isLeast_eq_zero_iff least,
    fun apart => isLeast_closing_or_none inTimeLeft apart least⟩
  · apply inTime.timeToCollision_eq
    rw [meetingTimes_append, Set.insert_union_distrib]
    exact least.union least'
  · intro others same
    apply (inTimeLeft.subset fun object inside => (same object).mp inside).timeToCollision_eq
    have times : meetingTimes pose velocity others = meetingTimes pose velocity left := by
      simp only [meetingTimes, same]
    rwa [times]
  · intro object inside
    have more : object :: left ⊆ left ++ right :=
      List.cons_subset.mpr ⟨List.mem_append_right left inside, List.subset_append_left left right⟩
    obtain ⟨value, done, below⟩ := (inTime.subset more).yields
    refine ⟨value, below.2 ?_, done⟩
    rcases least.1 with none | ⟨other, inside, met⟩
    · exact .inl none
    · exact .inr ⟨other, List.mem_cons_of_mem _ inside, met⟩

end Soonest

def onTheWay (distance : ℝ) (orientation : Quaternion ℝ) (speed : ℝ) : TrackedObject ℝ :=
  ⟨"ahead", ⟨⟨distance, 0, 0⟩, orientation⟩, [speed, 0, 0]⟩

def parkedAhead : TrackedObject ℝ :=
  onTheWay 40 ⟨1, 0, 0, 0⟩ 0

def oncoming : TrackedObject ℝ :=
  onTheWay 20 ⟨0, 0, 0, 1⟩ 5

def atOrigin : Pose ℝ :=
  ⟨⟨0, 0, 0⟩, ⟨1, 0, 0, 0⟩⟩

theorem closesIn_onTheWay {distance speed own : ℝ} {orientation : Quaternion ℝ}
    (ahead : 0 < distance) (forward : orientation.rotate ⟨speed, 0, 0⟩ = ⟨own, 0, 0⟩)
    (fast : own + 1 ≤ 10) :
    (onTheWay distance orientation speed).ClosesIn atOrigin ⟨10, 0, 0⟩ (distance / (10 - own)) := by
  have sight : (onTheWay distance orientation speed).pose.position.sub atOrigin.position =
      ⟨distance, 0, 0⟩ := by
    simp [onTheWay, atOrigin, Vec3.sub]
  have norm : (Vec3.mk distance 0 0).norm = distance := by
    change Real.sqrt (distance * distance + 0 * 0 + 0 * 0) = distance
    rw [mul_zero, add_zero, add_zero, Real.sqrt_mul_self ahead.le]
  refine ⟨⟨own, 0, 0⟩, congrArg Except.ok forward, ?_, ?_⟩
  · rw [sight, norm, Vec3.divide_dot]
    simp only [Vec3.dot, Vec3.sub, leastClosingSpeed]
    rw [lt_div_iff₀ ahead]
    nlinarith
  · rw [sight]
    simp only [Vec3.dot, Vec3.sub]
    have quick : 10 - own ≠ 0 := by linarith
    field_simp
    ring

theorem parkedAhead_closesIn : parkedAhead.ClosesIn atOrigin ⟨10, 0, 0⟩ 4 := by
  have still : (⟨1, 0, 0, 0⟩ : Quaternion ℝ).rotate ⟨0, 0, 0⟩ = ⟨0, 0, 0⟩ := by
    have unit : (⟨1, 0, 0, 0⟩ : Quaternion ℝ).normSquared = 1 := by simp [Quaternion.normSquared]
    simp [Quaternion.rotate, Quaternion.normalized_of_unit unit, Quaternion.mul]
  have closes := closesIn_onTheWay (by norm_num : (0 : ℝ) < 40) still (by norm_num)
  rwa [show (40 : ℝ) / (10 - 0) = 4 by norm_num] at closes

theorem oncoming_closesIn : oncoming.ClosesIn atOrigin ⟨10, 0, 0⟩ (4 / 3) := by
  have back : (⟨0, 0, 0, 1⟩ : Quaternion ℝ).rotate ⟨5, 0, 0⟩ = ⟨-5, 0, 0⟩ := by
    have unit : (⟨0, 0, 0, 1⟩ : Quaternion ℝ).normSquared = 1 := by simp [Quaternion.normSquared]
    simp [Quaternion.rotate, Quaternion.normalized_of_unit unit, Quaternion.mul,
      Quaternion.conjugate]
  have closes := closesIn_onTheWay (by norm_num : (0 : ℝ) < 20) back (by norm_num)
  rwa [show (20 : ℝ) / (10 - -5) = 4 / 3 by norm_num] at closes

theorem inTime_ahead : InTime atOrigin ⟨10, 0, 0⟩ ([oncoming] ++ [parkedAhead]) := by
  have long : (4 : ℝ) ≤ noCollision := by
    have whole : (4 : Int) ≤ (((1 <<< 53) - 1) <<< 971 : Nat) := by decide
    exact_mod_cast Int.cast_le.mpr whole
  constructor
  · simp [oncoming, parkedAhead, onTheWay]
  · simp only [List.cons_append, List.nil_append, List.forall_mem_cons, List.not_mem_nil,
      false_implies, implies_true, and_true]
    constructor
    · intro time closes
      rw [closes.unique oncoming_closesIn]
      linarith
    · intro time closes
      rw [closes.unique parkedAhead_closesIn]
      exact long

theorem eq_of_alone {object : TrackedObject ℝ} {pose : Pose ℝ} {velocity : Vec3 ℝ} {time value : ℝ}
    (closes : object.ClosesIn pose velocity time)
    (least : (∀ other ∈ [object], ¬ other.Touches pose) →
      IsLeast {time | ∃ other ∈ [object], other.ClosesIn pose velocity time} value ∨
        (∀ other ∈ [object], ∀ time, ¬ other.ClosesIn pose velocity time) ∧ value = noCollision) :
    value = time := by
  have apart : ∀ other ∈ [object], ¬ other.Touches pose := by
    simpa using closes.positive.1
  rcases least apart with ⟨⟨other, inside, closes'⟩, -⟩ | ⟨none, -⟩
  · obtain rfl := List.mem_singleton.mp inside
    exact closes'.unique closes
  · exact absurd closes (none object (List.mem_singleton_self _) time)

theorem oncoming_timeToCollision : InTime atOrigin ⟨10, 0, 0⟩ ([oncoming] ++ [parkedAhead]) ∧
    timeToCollision [oncoming] atOrigin [10, 0, 0] = .ok (4 / 3) ∧
    timeToCollision [oncoming, oncoming] atOrigin [10, 0, 0] = .ok (4 / 3) ∧
    timeToCollision [parkedAhead] atOrigin [10, 0, 0] = .ok 4 ∧
    timeToCollision ([oncoming] ++ [parkedAhead]) atOrigin [10, 0, 0] = .ok (min (4 / 3) 4) := by
  have swapped : [parkedAhead] ++ [oncoming] ⊆ [oncoming] ++ [parkedAhead] :=
    List.perm_append_comm.subset
  obtain ⟨first, second, found, found', together, listed, -, -, least⟩ :=
    timeToCollision_append inTime_ahead
  obtain ⟨parked, _, alone, -, -, -, -, -, least'⟩ :=
    timeToCollision_append (inTime_ahead.subset swapped)
  obtain rfl := eq_of_alone oncoming_closesIn least
  obtain rfl := eq_of_alone parkedAhead_closesIn least'
  obtain rfl := Except.ok.inj (alone.symm.trans found')
  exact ⟨inTime_ahead, found, listed [oncoming, oncoming] (by simp), alone, together⟩

end ManeuverRanking
