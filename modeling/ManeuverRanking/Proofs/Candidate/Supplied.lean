import ManeuverRanking.Proofs.Metric.Extraction

/-!
Failures over the data at hand. What a build reads off a snapshot, walks along a plan, asks of a
sampler and computes on numbers can be refused, but never for a record that is missing or for a
length that falls short: only the seed, and the checks of histories and series, fail for those.
-/

namespace ManeuverRanking

variable {α β γ : Type}

def Fault.OfData : Fault α → Prop
  | .noSeed _ | .shortHistory .. | .elapsedTimes | .seriesLengths _ => False
  | _ => True

def Supplied (outcome : Except (Fault α) β) : Prop :=
  Ensures Fault.OfData (fun _ => True) outcome

namespace Supplied

theorem bind {first : Except (Fault α) β} {next : β → Except (Fault α) γ} (supplied : Supplied first)
    (later : ∀ value, Supplied (next value)) : Supplied (first >>= next) :=
  Ensures.bind supplied fun value _ => later value

theorem mapM {step : β → Except (Fault α) γ} (each : ∀ value, Supplied (step value))
    (values : List β) : Supplied (values.mapM step) := by
  apply (Ensures.mapM fun value _ => each value).mono
  · exact fun _ => id
  · exact fun _ _ => trivial

end Supplied

theorem supplied_speed (odometry : Odometry α) : Supplied odometry.speed := by
  unfold Odometry.speed
  split <;> trivial

variable [Scalar α]

theorem supplied_floor (value : α) : Supplied (floor value) := by
  unfold floor
  split
  · trivial
  · unfold noInteger
    split <;> trivial

theorem supplied_stepOffset (horizon : Horizon α) (step : Int) :
    Supplied (horizon.stepOffset step) :=
  (supplied_floor _).bind fun _ => trivial

theorem supplied_query (snapshot : Snapshot α) (stream : Stream) (step : Int)
    (horizon : Option (Horizon α)) : Supplied (snapshot.query stream step horizon) := by
  unfold Snapshot.query
  split
  · trivial
  · split
    · trivial
    · exact (supplied_stepOffset _ _).bind fun _ => trivial

theorem ensures_collectFrom (snapshot : Snapshot α) (stream : Stream) (horizon : Horizon α)
    (step remaining : Nat) :
    Ensures Fault.OfData (Outcome.Kept fun values => values.length = remaining)
      (snapshot.collectFrom stream horizon step remaining) := by
  induction remaining generalizing step with
  | zero =>
      rintro _ ⟨⟩
      rfl
  | succ remaining ih =>
      unfold Snapshot.collectFrom
      apply Ensures.bind (supplied_query ..)
      intro found _
      cases found with
      | none => exact nofun
      | some record =>
          apply (ih (step + 1)).bind
          intro later full values ready
          obtain ⟨rest, same, rfl⟩ := (later.map_eq_ready_iff ..).mp ready
          rw [List.length_cons, full rest same]

theorem supplied_planar (position : Vec3 α) (heading : α) : Supplied (Pose.planar position heading) := by
  unfold Pose.planar
  split <;> trivial

theorem supplied_projectToPolyline (points : List (Vec2 α)) (position : Vec2 α) :
    Supplied (projectToPolyline points position) := by
  unfold projectToPolyline
  split <;> trivial

theorem supplied_toMap (pose : Pose α) (velocity : List α) : Supplied (pose.toMap velocity) := by
  have vector : Supplied (Vec3.ofVelocity velocity) := by
    unfold Vec3.ofVelocity
    split
    · trivial
    · unfold Vec3.ofList
      split <;> trivial
  exact vector.bind fun _ => trivial

section Plan

theorem supplied_readOver (progress : List α) (arc : α) (values : List α) :
    Supplied (readOver progress arc values) := by
  unfold readOver
  split <;> trivial

theorem supplied_planPointAt (points : List (PlanPoint α)) (progress : List α) (arc : α) :
    Supplied (planPointAt points progress arc) := by
  unfold planPointAt
  split
  · trivial
  · split
    · trivial
    · have read := @supplied_readOver α _
      apply (read ..).bind
      intro _
      apply (read ..).bind
      intro _
      apply (read ..).bind
      intro _
      apply (read ..).bind
      intro _
      apply (supplied_planar ..).bind
      intro _
      apply (read ..).bind
      intro _
      apply (read ..).bind
      intro _
      apply (read ..).bind
      intro _
      exact (read ..).bind fun _ => trivial
    · trivial

theorem ensures_walk (points : List (PlanPoint α)) (progress : List α) (interval arc : α)
    (steps : Nat) : Ensures Fault.OfData (fun stops => stops.length = steps)
      (walk points progress interval arc steps) := by
  induction steps generalizing arc with
  | zero => rfl
  | succ steps ih =>
      unfold walk
      apply Ensures.bind (supplied_planPointAt ..)
      intro point _
      apply (ih _).bind
      intro later full
      exact congrArg (· + 1) full

theorem ensures_resample (plan : Plan α) (odometry : Odometry α) (horizon : Horizon α) :
    Ensures Fault.OfData (fun points => points.length = horizon.steps)
      (plan.resample odometry horizon) := by
  have walked : Ensures Fault.OfData (fun stops => stops.length = horizon.steps)
      (plan.walkFrom odometry.pose horizon) := by
    have arc : Supplied (planArcOf plan.points odometry.pose) := by
      unfold planArcOf
      split
      · trivial
      · exact supplied_projectToPolyline ..
    unfold Plan.walkFrom
    split
    · trivial
    · exact Ensures.bind arc fun _ _ => ensures_walk ..
  apply walked.bind
  intro stops full
  exact (length_timedFrom ..).trans full

end Plan

section Request

theorem supplied_through (knots : List (Knot α)) : Supplied (Spline.through knots) := by
  unfold Spline.through
  split
  · split
    · trivial
    · dsimp only
      split <;> trivial
  · trivial

theorem supplied_sampleCount (lastPlace spacing : α) :
    Supplied (ReferencePath.sampleCount lastPlace spacing) := by
  unfold ReferencePath.sampleCount
  apply Supplied.bind
  · exact (supplied_floor _).bind fun _ => trivial
  · intro steps
    dsimp only
    split <;> trivial

theorem supplied_throughPlan (points : List (PlanPoint α)) (spacing : α) :
    Supplied (ReferencePath.throughPlan points spacing) := by
  unfold ReferencePath.throughPlan ReferencePath.through
  split
  · trivial
  · split
    · trivial
    · unfold ReferencePath.throughDistinct
      split
      · trivial
      · apply (supplied_through _).bind
        intro _
        apply (supplied_through _).bind
        intro _
        exact (supplied_sampleCount ..).bind fun _ => trivial

theorem supplied_ofEgo (path : ReferencePath α) (odometry : Odometry α)
    (acceleration : AccelerationReport α) : Supplied (FrenetState.ofEgo path odometry acceleration) := by
  have foot : Supplied (path.frenet odometry.pose.planarPosition) :=
    (supplied_projectToPolyline ..).bind fun _ => trivial
  unfold FrenetState.ofEgo
  apply foot.bind
  intro _
  exact (supplied_speed _).bind fun _ => trivial

theorem supplied_request? (builder : Builder α) (seed : Seed α) :
    Supplied (builder.request? seed) := by
  unfold Builder.request?
  split
  · trivial
  · split
    · trivial
    · apply Supplied.bind
      · unfold Builder.requestFor
        apply (supplied_throughPlan ..).bind
        intro path
        exact (supplied_ofEgo ..).bind fun _ => trivial
      · exact fun _ => trivial

end Request

section Numbers

theorem supplied_soonest (pose : Pose α) (velocity : List α) (found : Option α)
    (objects : List (TrackedObject α)) : Supplied (soonest pose velocity found objects) := by
  induction objects generalizing found with
  | nil => trivial
  | cons object rest ih =>
      unfold soonest
      apply Supplied.bind
      · unfold Approach.ofObject
        dsimp only
        split
        · trivial
        · apply (supplied_toMap ..).bind
          intro _
          apply Supplied.bind
          · unfold Vec3.ofList
            split <;> trivial
          · exact fun _ => trivial
      · intro approach
        split
        · trivial
        · exact ih _
        · exact ih _

theorem supplied_collisionAt (pose : Pose α) (velocity : List α) (tracked : TrackedObjects α) :
    Supplied (collisionAt pose velocity tracked) :=
  (supplied_toMap ..).bind fun _ => supplied_soonest ..

theorem supplied_score (scorer : Scorer α) (series : MetricSeries α) :
    Supplied (scorer.score series) := by
  unfold Scorer.score
  split <;> trivial

end Numbers

section Sampler

theorem supplied_pointAt (path : ReferencePath α)
    (place offset speed acceleration wheelAngle time : α) :
    Supplied (Sampler.pointAt path place offset speed acceleration wheelAngle time) :=
  (supplied_planar ..).bind fun _ => trivial

theorem supplied_constantSpeeds (speeds : List α) (count : Nat) (offset : α)
    (request : SamplerRequest α) : Supplied (Sampler.constantSpeeds speeds count offset request) := by
  apply Supplied.mapM
  intro speed
  apply Supplied.mapM
  intro index
  exact supplied_pointAt ..

end Sampler

end ManeuverRanking
