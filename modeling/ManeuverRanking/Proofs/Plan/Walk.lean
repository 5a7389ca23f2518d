import ManeuverRanking.Plan.Resample
import ManeuverRanking.Proofs.Metric.Extraction
import ManeuverRanking.Proofs.Scalar.Exact

/-!
Projection, interpolation and resampling over the real numbers. A plan with points is walked to the
last step of the horizon wherever the walk starts.
-/

namespace ManeuverRanking

theorem partitionPoint_le (early : Nat → Bool) {low high : Nat} (ordered : low ≤ high) :
    partitionPoint early low high ≤ high := by
  fun_induction partitionPoint early low high with
  | case1 low high searching middle passes ih => exact ih (by omega)
  | case2 low high searching middle fails ih => exact Nat.le_trans (ih (by omega)) (by omega)
  | case3 low high closed => exact ordered

section Table

variable {α : Type} [Arithmetic α]

theorem lastReached_lt {nodes : Array (Node α)} (query : α) (some : 0 < nodes.size) :
    lastReached nodes query < nodes.size := by
  unfold lastReached
  split
  · have walked := (List.takeWhile_prefix (l := nodes.toList.drop 1)
      fun node => decide (node.abscissa ≤ query)).length_le
    have size : nodes.toList.length = nodes.size := Array.length_toList
    rw [List.length_drop, size] at walked
    omega
  · split
    · omega
    · split
      · omega
      · split
        · omega
        · dsimp only
          split
          · have halved := partitionPoint_le (reachedAt nodes query) (show 3 ≤ 9 by omega)
            omega
          · have halved := partitionPoint_le (reachedAt nodes query) (show 3 ≤ nodes.size by omega)
            omega

theorem isSome_interpolate? {nodes : Array (Node α)} (query : α) (some : 0 < nodes.size) :
    (interpolate? nodes query).isSome := by
  have first : nodes[0]? = .some nodes[0] := Array.getElem?_eq_getElem some
  have last : nodes.back? = .some nodes[nodes.size - 1] := by
    rw [Array.back?_eq_getElem?, Array.getElem?_eq_getElem]
  unfold interpolate?
  rw [first, last]
  dsimp only
  split
  · rfl
  · split
    · rfl
    · split
      · rfl
      · unfold valueFrom
        rw [Array.getElem?_eq_getElem (lastReached_lt query some)]
        split <;> simp_all

end Table

section Projection

theorem reach_nonneg (segment : Segment ℝ) (position : Vec2 ℝ) : 0 ≤ segment.reach position := by
  have length := Exact.norm_nonneg (segment.start.sub segment.stop)
  unfold Segment.reach
  dsimp only
  generalize (if position.sameAs segment.start then (0 : ℝ)
    else if position.sameAs segment.stop then 1 else segment.share position) = share
  split
  · exact le_refl _
  · split
    · exact mul_nonneg (by linarith) length
    · exact length

theorem isSome_nearestAlong (position : Vec2 ℝ) (arc : ℝ) {best : Option (Nearest ℝ)}
    (some : best.isSome) (points : List (Vec2 ℝ)) :
    (nearestAlong position arc best points).isSome := by
  induction points generalizing arc best with
  | nil => exact some
  | cons start rest ih =>
      cases rest with
      | nil => exact some
      | cons stop rest =>
          unfold nearestAlong
          apply ih
          split
          · rfl
          · exact some

theorem completes_projectToPolyline {points : List (Vec2 ℝ)} (two : 2 ≤ points.length)
    (position : Vec2 ℝ) : Completes (projectToPolyline points position) := by
  match points, two with
  | start :: stop :: rest, _ =>
      have inside : ((⟨start, stop⟩ : Segment ℝ).nearest 0 position).replaces none = true := by
        have ahead := reach_nonneg ⟨start, stop⟩ position
        simp [Nearest.replaces, Segment.nearest, ahead]
      have found : (nearestAlong position 0 none (start :: stop :: rest)).isSome := by
        unfold nearestAlong
        apply isSome_nearestAlong
        rw [if_pos inside]
        rfl
      obtain ⟨nearest, told⟩ := Option.isSome_iff_exists.mp found
      unfold projectToPolyline
      rw [told]
      exact completes_ok _

end Projection

section Walk

variable {points : List (PlanPoint ℝ)}

theorem completes_readOver {progress values : List ℝ} (along : progress ≠ []) (some : values ≠ [])
    (arc : ℝ) : Completes (readOver progress arc values) := by
  have table : 0 < (List.zipWith Node.mk progress values).toArray.size := by
    rw [List.size_toArray, List.length_zipWith]
    have first := List.length_pos_iff.mpr along
    have second := List.length_pos_iff.mpr some
    omega
  obtain ⟨value, told⟩ := Option.isSome_iff_exists.mp (isSome_interpolate? arc table)
  unfold readOver
  rw [told]
  exact completes_ok _

theorem completes_planar (position : Vec3 ℝ) (heading : ℝ) :
    Completes (Pose.planar position heading) := by
  unfold Pose.planar
  rw [if_pos (.inl (Exact.isFinite_eq heading))]
  exact completes_ok _

theorem unwrapAngles_ne_nil {angles : List ℝ} (some : angles ≠ []) : unwrapAngles angles ≠ [] := by
  cases angles with
  | nil => exact absurd rfl some
  | cons first rest => exact List.cons_ne_nil _ _

theorem completes_planPointAt (some : points ≠ []) (arc : ℝ) :
    Completes (planPointAt points (planProgress points) arc) := by
  have length : points.length = (planProgress points).length := by
    rw [planProgress, length_pathProgress, List.length_map]
  have along : planProgress points ≠ [] := by
    rw [← List.length_pos_iff, ← length]
    exact List.length_pos_iff.mpr some
  have read (values : List ℝ) (full : values ≠ []) (arc : ℝ) :
      Completes (readOver (planProgress points) arc values) :=
    completes_readOver along full arc
  have mapped {β : Type} (part : PlanPoint ℝ → β) : points.map part ≠ [] := by
    rwa [ne_eq, List.map_eq_nil_iff]
  unfold planPointAt
  rw [if_neg (not_not_intro length)]
  split
  · exact completes_ok _
  · apply (read _ (mapped _) _).bind
    intro _
    apply (read _ (mapped _) _).bind
    intro _
    apply (read _ (unwrapAngles_ne_nil (mapped _)) _).bind
    intro _
    apply (read _ (mapped _) _).bind
    intro _
    apply (completes_planar ..).bind
    intro _
    apply (read _ (mapped _) _).bind
    intro _
    apply (read _ (mapped _) _).bind
    intro _
    apply (read _ (mapped _) _).bind
    intro _
    exact (read _ (mapped _) _).bind fun _ => completes_ok _
  · rename_i missing
    obtain ⟨first, rest, listed⟩ := List.exists_cons_of_ne_nil along
    rw [listed] at missing
    exact absurd List.getLast?_cons (missing first _ rfl)

theorem yields_walk (some : points ≠ []) (interval arc : ℝ) (steps : Nat) :
    Yields (walk points (planProgress points) interval arc steps) fun stops =>
      stops.length = steps := by
  induction steps generalizing arc with
  | zero => exact .ok rfl
  | succ steps ih =>
      unfold walk
      apply (completes_planPointAt some arc).bind
      intro point
      exact (ih _).map fun later length => by rw [List.length_cons, length]

theorem completes_planArcOf (points : List (PlanPoint ℝ)) (pose : Pose ℝ) :
    Completes (planArcOf points pose) := by
  unfold planArcOf
  split
  · exact completes_ok _
  · rename_i long
    apply completes_projectToPolyline
    rw [List.length_map]
    omega

theorem yields_resample {plan : Plan ℝ} (some : plan.points ≠ []) (odometry : Odometry ℝ)
    (horizon : Horizon ℝ) : Yields (plan.resample odometry horizon) fun resampled =>
      resampled.length = horizon.steps := by
  have walked : Yields (plan.walkFrom odometry.pose horizon) fun stops =>
      stops.length = horizon.steps := by
    unfold Plan.walkFrom
    split
    · contradiction
    · exact (completes_planArcOf ..).bind fun arc =>
        yields_walk some horizon.interval arc horizon.steps
  exact walked.map fun stops length => by rw [length_timedFrom, length]

end Walk

end ManeuverRanking
