import ManeuverRanking.Proofs.Delay.Snapshot

/-!
What a build reads off a snapshot of a drive recorded some time later.
-/

namespace ManeuverRanking

variable {α : Type}

def Payload.Fits (time : Int) : (stream : Stream) → Payload α stream → Prop
  | .acceleration, report =>
      Extractor.fitsWord report.stamp = true ∧ Extractor.fitsWord (report.stamp + time) = true
  | _, _ => True

def Seed.delay (time : Int) (seed : Seed α) : Seed α :=
  ⟨Payload.delay time .odometry seed.odometry, Payload.delay time .acceleration seed.acceleration,
    Payload.delay time .plan seed.plan⟩

def DrivenMotion.delay (time : Int) (motion : DrivenMotion α) : DrivenMotion α :=
  ⟨motion.odometry.map (Payload.delay time .odometry),
    motion.acceleration.map (Payload.delay time .acceleration),
    motion.steering.map (Payload.delay time .steering)⟩

def DrivenMotion.Fits (time : Int) (motion : DrivenMotion α) : Prop :=
  ∀ report ∈ motion.acceleration, Payload.Fits time .acceleration report

def Material.delay (time : Int) (material : Material α) : Material α :=
  ⟨material.seed.delay time, material.objects.map (Payload.delay time .objects),
    material.driven.map (DrivenMotion.delay time)⟩

def Material.Fits (time : Int) (material : Material α) : Prop :=
  ∀ motion, material.driven = some motion → motion.Fits time

def Motion.delay (time : Int) : Motion α → Motion α
  | driven motion => driven (motion.delay time)
  | planned points => planned points
  | unknown kind => unknown kind

namespace Candidate

def delay (time : Int) (candidate : Candidate α) : Candidate α :=
  { candidate with
    motion := candidate.motion.delay time
    objects := candidate.objects.map (Payload.delay time .objects) }

def Fits (time : Int) (candidate : Candidate α) : Prop :=
  ∀ motion, candidate.motion = .driven motion → motion.Fits time

end Candidate

def ScoredCandidate.delay (time : Int) (scored : ScoredCandidate α) : ScoredCandidate α :=
  { scored with candidate := scored.candidate.delay time }

def Ranking.delay (time : Int) (ranking : Ranking α) : Ranking α :=
  ⟨ranking.clock + time, ranking.ranked.map (ScoredCandidate.delay time)⟩

theorem Snapshot.seed_delay (time : Int) (snapshot : Snapshot α) :
    Alike (fun seed seed' => seed' = seed.delay time) snapshot.seed (snapshot.delay time).seed := by
  have absent : ∀ stream, ((snapshot.delay time).current stream).isNone =
      (snapshot.current stream).isNone := by
    intro stream
    rw [current_delay, Option.isNone_map]
  simp only [seed, current_delay, Option.isNone_map]
  cases snapshot.current .odometry with
  | none => rfl
  | some odometry =>
      cases snapshot.current .acceleration with
      | none => rfl
      | some acceleration =>
          cases snapshot.current .plan with
          | none => rfl
          | some plan =>
              simp only [Option.map_some]
              change Alike _ _ (if plan.value.points.isEmpty = true then _ else _)
              split
              · rfl
              · rfl

variable [Scalar α]

theorem Snapshot.driven_delay {time : Int} {snapshot : Snapshot α}
    (timed : snapshot.Timed (Payload.Fits time)) (horizon : Horizon α) :
    Alike (Outcome.Alike fun motion motion' => motion.Fits time ∧ motion' = motion.delay time)
      (snapshot.driven horizon) ((snapshot.delay time).driven horizon) := by
  apply (collect_delay timed time .odometry horizon).bindReady
  rintro odometry _ ⟨-, rfl⟩
  apply (collect_delay timed time .acceleration horizon).bindReady
  rintro acceleration _ ⟨fits, rfl⟩
  apply (collect_delay timed time .steering horizon).bindReady
  rintro steering _ ⟨-, rfl⟩
  exact ⟨fits, rfl⟩

theorem Builder.gather_delay {time : Int} {snapshot : Snapshot α}
    (timed : snapshot.Timed (Payload.Fits time)) (builder : Builder α) :
    Alike (Outcome.Alike fun material material' =>
        material.Fits time ∧ material' = material.delay time)
      (builder.gather snapshot) (builder.gather (snapshot.delay time)) := by
  apply (Snapshot.seed_delay time snapshot).bind
  rintro seed _ rfl
  apply (Snapshot.collect_delay timed time .objects builder.horizon).bindReady
  rintro objects _ ⟨-, rfl⟩
  by_cases executed : builder.includeExecuted
  · simp only [executed, if_true]
    apply (Snapshot.driven_delay timed builder.horizon).bindReady
    rintro motion _ ⟨fits, rfl⟩
    refine ⟨?_, rfl⟩
    rintro _ ⟨⟩
    exact fits
  · simp only [executed]
    refine ⟨?_, rfl⟩
    rintro _ ⟨⟩

end ManeuverRanking
