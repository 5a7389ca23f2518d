import Mathlib.Analysis.SpecialFunctions.Complex.Arg
import ManeuverRanking.Proofs.Plan.Anchor

/-!
Headings along a plan over the real numbers. Between two plan points the heading turns the shorter
way, whatever full turns the headings of the plan are told with. So a plan turned as a whole is
turned everywhere between its points, except within half a turn, which goes to either side.
-/

namespace ManeuverRanking

section Plan

variable {points : List (PlanPoint ℝ)} {point : PlanPoint ℝ} {index : Nat} {share turn : ℝ}

/-- On a share of the way to the next plan point, a plan point is turned by that share of a turn to
the heading of the next one. No other turn to it is smaller. -/
structure PlanPoint.Turns (point : PlanPoint ℝ) (points : List (PlanPoint ℝ)) (index : Nat)
    (share turn : ℝ) : Prop where
  short : |turn| ≤ Real.pi
  least : ∀ other : ℝ, (other : Real.Angle) = turn → |turn| ≤ |other|
  toNext : ∀ next : index + 1 < points.length,
    (turn : Real.Angle) = points[index + 1].pose.heading - points[index].pose.heading
  heading : ∀ inside : index < points.length,
    (point.pose.heading : Real.Angle) = points[index].pose.heading + (share * turn : ℝ)

theorem PlanPoint.Blends.exists_turns (blends : point.Blends points index share)
    (inside : index < points.length) (atEnd : points.length ≤ index + 1 → share = 0) :
    ∃ turn, point.Turns points index share turn := by
  have length : (points.map fun point => point.pose.heading).length = points.length :=
    List.length_map _
  obtain ⟨turn, short, leads, blended⟩ :=
    exists_turn_blend (length.symm ▸ inside) (length.symm ▸ atEnd)
  refine ⟨turn, short, fun _ => abs_le_of_short short, ?_, ?_⟩
  · intro next
    simpa only [List.getElem_map] using leads (length.symm ▸ next)
  · intro _
    rw [blends.heading, coe_normalizeAngle, blended, List.getElem_map]

structure PlanPoint.TurnedBy (angle : ℝ) (point turned : PlanPoint ℝ) : Prop where
  position : turned.pose.position = point.pose.position
  heading : (turned.pose.heading : Real.Angle) = point.pose.heading + angle

theorem corners_eq_of_turned {angle : ℝ} {turned : List (PlanPoint ℝ)}
    (turns : List.Forall₂ (PlanPoint.TurnedBy angle) points turned) :
    corners turned = corners points := by
  induction turns with
  | nil => rfl
  | cons first _ ih =>
      simp only [corners, List.map_cons, Pose.planarPosition, first.position] at ih ⊢
      rw [ih]

theorem planProgress_eq_of_turned {angle : ℝ} {turned : List (PlanPoint ℝ)}
    (turns : List.Forall₂ (PlanPoint.TurnedBy angle) points turned) :
    planProgress turned = planProgress points := by
  cases turns with
  | nil => rfl
  | cons first rest =>
      rw [planProgress_eq (List.cons_ne_nil _ _), planProgress_eq (List.cons_ne_nil _ _),
        corners_eq_of_turned (.cons first rest)]

theorem PlanPoint.Turns.heading_of_turned {angle turn' : ℝ} {point' : PlanPoint ℝ}
    {points' : List (PlanPoint ℝ)} (turns : point.Turns points index share turn)
    (turns' : point'.Turns points' index share turn') (inside : index < points.length)
    (atEnd : points.length ≤ index + 1 → share = 0)
    (turned : List.Forall₂ (PlanPoint.TurnedBy angle) points points')
    (settled : share = 0 ∨ |turn| < Real.pi) :
    (point'.pose.heading : Real.Angle) = point.pose.heading + angle := by
  have length := turned.length_eq
  have each (position : Nat) (bound : position < points.length)
      (bound' : position < points'.length) :
      (points'[position].pose.heading : Real.Angle) = points[position].pose.heading + angle :=
    (turned.get bound bound').heading
  have same : share * turn' = share * turn := by
    rcases settled with none | short
    · rw [none, zero_mul, zero_mul]
    · by_cases next : index + 1 < points.length
      · have next' : index + 1 < points'.length := length ▸ next
        -- The common angle drops out of the way from one heading to the next, so the two turns differ
        -- by full turns, and there is room for none.
        have apart : (turn' : Real.Angle) = turn := by
          rw [turns'.toNext next', turns.toNext next, each _ next next', each _ inside]
          exact add_sub_add_right_eq_sub _ _ _
        rw [eq_of_short short turns'.short apart]
      · rw [atEnd (Nat.le_of_not_lt next), zero_mul, zero_mul]
  rw [turns'.heading (length ▸ inside), turns.heading inside, same, each _ inside]
  exact add_right_comm _ _ _

/-- The heading between two plan points is turned from that of the first one by a share of the
shortest turn to that of the second one. In a plan whose points are all turned on the spot by one
angle it is turned by that angle, except within exactly half a turn. -/
theorem planPointAt_turns (some : points ≠ []) (arc : ℝ) :
    ∃ index share turn point, LiesAt (planProgress points) (placeOn points arc) index share ∧
      planPointAt points (planProgress points) arc = .ok point ∧
      point.Turns points index share turn ∧
      ∀ angle turned, List.Forall₂ (PlanPoint.TurnedBy angle) points turned →
        share = 0 ∨ |turn| < Real.pi →
          ∃ point', planPointAt turned (planProgress turned) arc = .ok point' ∧
            (point'.pose.heading : Real.Angle) = point.pose.heading + angle := by
  obtain ⟨index, share, lies⟩ := exists_liesAt_placeOn some arc
  have length := length_planProgress points
  have inside : index < points.length := length ▸ lies.inside
  have atEnd : points.length ≤ index + 1 → share = 0 := length ▸ lies.atEnd
  obtain ⟨point, found, blends⟩ := yields_planPointAt some lies
  obtain ⟨turn, turns⟩ := blends.exists_turns inside atEnd
  refine ⟨index, share, turn, point, lies, found, turns, ?_⟩
  intro angle turned each settled
  have same := planProgress_eq_of_turned each
  have count := each.length_eq
  have some' : turned ≠ [] := List.ne_nil_of_length_pos (count ▸ Nat.zero_lt_of_lt inside)
  have lies' : LiesAt (planProgress turned) (placeOn turned arc) index share := by
    rw [placeOn, planLength, same]
    exact lies
  obtain ⟨point', found', blends'⟩ := yields_planPointAt some' lies'
  obtain ⟨turn', turns'⟩ := blends'.exists_turns (count ▸ inside) (count ▸ atEnd)
  exact ⟨point', found', turns.heading_of_turned turns' inside atEnd each settled⟩

noncomputable def swerve (middle aside : ℝ) : List (PlanPoint ℝ) :=
  [⟨⟨⟨0, 0, 0⟩, .aboutVertical (middle - aside)⟩, 1, 0, 0, 0⟩,
    ⟨⟨⟨1, 0, 0⟩, .aboutVertical (middle + aside)⟩, 1, 0, 0, 1⟩]

section Swerve

variable {middle aside : ℝ}

theorem planProgress_swerve : planProgress (swerve middle aside) = [0, 1] := by
  have some : swerve middle aside ≠ [] := List.cons_ne_nil _ _
  rw [planProgress_eq some]
  simp [swerve, corners, sides, stepLengths, runningTotals, Segment.length_eq,
    Segment.lengthSquared, Pose.planarPosition, Vec2.sub, Vec2.dot]

theorem liesAt_swerve (lies : LiesAt (planProgress (swerve middle aside))
    (placeOn (swerve middle aside) (1 / 2)) index share) : index = 0 ∧ share = 1 / 2 := by
  rw [placeOn_eq, planLength, planProgress_swerve] at lies
  have told := lies.told
  have inside : index < 2 := lies.inside
  obtain rfl | rfl : index = 0 ∨ index = 1 := by omega
  · norm_num [blend] at told
    exact ⟨rfl, by linarith⟩
  · rw [lies.atEnd (Nat.le_refl 2)] at told
    norm_num [blend] at told

theorem turnedBy_swerve (angle : ℝ) : List.Forall₂ (PlanPoint.TurnedBy angle)
    (swerve middle aside) (swerve (middle + angle) aside) := by
  have each (position : Vec3 ℝ) {before after : ℝ} (turns : after = before + angle) :
      ((Pose.mk position (.aboutVertical after)).heading : Real.Angle) =
        (Pose.mk position (.aboutVertical before)).heading + angle := by
    rw [Pose.heading_aboutVertical, Pose.heading_aboutVertical, coe_normalizeAngle,
      coe_normalizeAngle, turns, Real.Angle.coe_add]
  refine .cons ⟨rfl, each _ ?_⟩ (.cons ⟨rfl, each _ ?_⟩ .nil) <;> ring

end Swerve

theorem swerve_planPointAt_turns : swerve Real.pi (Real.pi / 4) ≠ [] ∧
    ∃ point turned, planPointAt (swerve Real.pi (Real.pi / 4))
        (planProgress (swerve Real.pi (Real.pi / 4))) (1 / 2) = .ok point ∧
      (point.pose.heading : Real.Angle) = Real.pi ∧
      planPointAt (swerve (Real.pi + 1) (Real.pi / 4))
        (planProgress (swerve (Real.pi + 1) (Real.pi / 4))) (1 / 2) = .ok turned ∧
      (turned.pose.heading : Real.Angle) = Real.pi + (1 : ℝ) := by
  have some : swerve Real.pi (Real.pi / 4) ≠ [] := List.cons_ne_nil _ _
  obtain ⟨index, share, turn, point, lies, found, turns, turned⟩ := planPointAt_turns some (1 / 2)
  obtain ⟨rfl, rfl⟩ := liesAt_swerve lies
  have start := turns.heading Nat.two_pos
  have leads := turns.toNext Nat.one_lt_two
  simp only [swerve, List.getElem_cons_zero, List.getElem_cons_succ, Pose.heading_aboutVertical,
    coe_normalizeAngle] at start leads
  have quarter : |Real.pi / 2| < Real.pi := by
    rw [abs_of_pos Real.pi_div_two_pos]
    exact half_lt_self Real.pi_pos
  have back : (turn : Real.Angle) = (Real.pi / 2 : ℝ) := by
    rw [leads, ← Real.Angle.coe_sub]
    congr 1
    ring
  obtain rfl := eq_of_short quarter turns.short back
  have half : (point.pose.heading : Real.Angle) = Real.pi := by
    rw [start, ← Real.Angle.coe_add]
    congr 1
    ring
  obtain ⟨point', found', same⟩ := turned 1 _ (turnedBy_swerve 1) (.inr quarter)
  rw [half] at same
  exact ⟨some, point, point', found, half, found', same⟩

end Plan

end ManeuverRanking
