import ManeuverRanking.Proofs.Candidate.Supplied

/-!
The horizon of an extraction. A history that ends before it is found before anything is computed, and
what lies beyond it is never looked at. In between, only operations on the numbers within the horizon
can fail.
-/

namespace ManeuverRanking

variable {α : Type}

def Motion.lengths : Motion α → List (String × Nat)
  | .driven motion =>
      [("odometry", motion.odometry.length), ("acceleration", motion.acceleration.length),
        ("steering", motion.steering.length)]
  | .planned points => [("trajectory", points.length)]
  | .unknown _ => []

def Motion.take (steps : Nat) : Motion α → Motion α
  | .driven motion =>
      .driven ⟨motion.odometry.take steps, motion.acceleration.take steps,
        motion.steering.take steps⟩
  | .planned points => .planned (points.take steps)
  | .unknown kind => .unknown kind

namespace Candidate

def lengths (candidate : Candidate α) : List (String × Nat) :=
  ("objects", candidate.objects.length) :: candidate.motion.lengths

def take (candidate : Candidate α) (steps : Nat) : Candidate α :=
  { candidate with
    motion := candidate.motion.take steps
    objects := candidate.objects.take steps }

def firstShort? (candidate : Candidate α) (steps : Nat) : Option (String × Nat) :=
  candidate.lengths.find? fun history => decide (history.2 < steps)

theorem firstShort?_eq_none_iff (candidate : Candidate α) (steps : Nat) :
    candidate.firstShort? steps = none ↔ ∀ history ∈ candidate.lengths, steps ≤ history.2 := by
  simp [firstShort?]

end Candidate

namespace Extractor

variable [Scalar α] {extractor : Extractor α} {candidate : Candidate α}

def Operates (extractor : Extractor α) (allowed : Fault α → Prop) (candidate : Candidate α) : Prop :=
  match candidate.motion with
  | .driven motion =>
      let odometry := motion.odometry.take extractor.horizon.steps
      (∀ entry ∈ odometry, Ensures allowed (fun _ => True) entry.speed) ∧
      (∀ report ∈ motion.acceleration.take extractor.horizon.steps,
        fitsWord report.stamp = true ∨ allowed (.stampRange report.stamp)) ∧
      ∀ pair ∈ odometry.zip (candidate.objects.take extractor.horizon.steps),
        Ensures allowed (fun _ => True) (collisionAt pair.1.pose pair.1.velocity pair.2)
  | .planned points =>
      ∀ pair ∈ (points.take extractor.horizon.steps).zip
          (candidate.objects.take extractor.horizon.steps),
        Ensures allowed (fun _ => True) (collisionAt pair.1.pose [pair.1.speed, 0, 0] pair.2)
  | .unknown kind => allowed (.unknownSource kind)

def Computes (extractor : Extractor α) (candidate : Candidate α) : Prop :=
  extractor.Operates (fun _ => False) candidate

theorem operates_ofData (extractor : Extractor α) (candidate : Candidate α) :
    extractor.Operates Fault.OfData candidate := by
  unfold Operates
  split
  · exact ⟨fun entry _ => supplied_speed entry, fun _ _ => .inr trivial,
      fun _ _ => supplied_collisionAt ..⟩
  · exact fun _ _ => supplied_collisionAt ..
  · trivial

theorem ensures_extract {allowed : Fault α → Prop}
    (reaches : ∀ history ∈ candidate.lengths, extractor.horizon.steps ≤ history.2)
    (operates : extractor.Operates allowed candidate) :
    Ensures allowed (fun series => series.Spans extractor.horizon.steps)
      (extractor.extract candidate) := by
  obtain ⟨objects, histories⟩ := List.forall_mem_cons.mp reaches
  have full := List.length_take_of_le objects
  rw [extract, cut_eq _ objects]
  unfold Operates at operates
  cases own : candidate.motion with
  | driven motion =>
      simp only [own, Motion.lengths, List.forall_mem_cons, List.not_mem_nil, false_implies,
        implies_true, and_true] at histories operates
      obtain ⟨odometry, acceleration, steering⟩ := histories
      obtain ⟨speeds, stamps, times⟩ := operates
      exact ensures_ofDriven odometry acceleration steering full speeds stamps times
  | planned points =>
      simp only [own, Motion.lengths, List.forall_mem_cons, List.not_mem_nil, false_implies,
        implies_true, and_true] at histories operates
      exact ensures_ofPlanned histories full operates
  | unknown kind =>
      simp only [own] at operates
      exact operates

section Short

variable {β γ : Type} {lengths : List (String × Nat)}

def Refuses (extractor : Extractor α) (lengths : List (String × Nat))
    (outcome : Except (Fault α) β) : Prop :=
  ∀ name held, lengths.find? (fun history => decide (history.2 < extractor.horizon.steps)) =
    some (name, held) → outcome = .error (.shortHistory name held extractor.horizon.steps)

theorem refuses_nil (outcome : Except (Fault α) β) : extractor.Refuses [] outcome :=
  nofun

theorem refuses_cut (name : String) (history : List β) {next : List β → Except (Fault α) γ}
    (later : ∀ kept, extractor.Refuses lengths (next kept)) :
    extractor.Refuses ((name, history.length) :: lengths)
      (extractor.cut name history >>= next) := by
  intro first held found
  unfold cut
  by_cases short : history.length < extractor.horizon.steps
  · rw [List.find?_cons_of_pos (by simpa using short), Option.some.injEq, Prod.mk.injEq] at found
    obtain ⟨rfl, rfl⟩ := found
    rw [if_pos short]
    rfl
  · rw [List.find?_cons_of_neg (by simpa using short)] at found
    rw [if_neg short]
    exact later _ first held found

theorem refuses_extract (extractor : Extractor α) (candidate : Candidate α) :
    extractor.Refuses candidate.lengths (extractor.extract candidate) := by
  unfold extract Candidate.lengths
  apply refuses_cut
  intro objects
  cases candidate.motion with
  | driven motion =>
      exact refuses_cut _ _ fun _ => refuses_cut _ _ fun _ => refuses_cut _ _ fun _ => refuses_nil _
  | planned points => exact refuses_cut _ _ fun _ => refuses_nil _
  | unknown kind => exact refuses_nil _

theorem cut_take (name : String) (history : List β) :
    extractor.cut name (history.take extractor.horizon.steps) = extractor.cut name history := by
  unfold cut
  rw [List.length_take, List.take_take, Nat.min_self]
  by_cases short : history.length < extractor.horizon.steps
  · rw [Nat.min_eq_right (Nat.le_of_lt short)]
  · rw [Nat.min_eq_left (Nat.le_of_not_lt short), if_neg (Nat.lt_irrefl _), if_neg short]

theorem extract_take (extractor : Extractor α) (candidate : Candidate α) :
    extractor.extract (candidate.take extractor.horizon.steps) = extractor.extract candidate := by
  unfold extract Candidate.take
  simp only [cut_take]
  cases candidate.motion with
  | driven motion => simp only [Motion.take, ofDriven, cut_take]
  | planned points => simp only [Motion.take, ofPlanned, cut_take]
  | unknown kind => rfl

end Short

theorem reaches_of_extract {series : MetricSeries α}
    (done : extractor.extract candidate = .ok series) :
    ∀ history ∈ candidate.lengths, extractor.horizon.steps ≤ history.2 := by
  rw [← Candidate.firstShort?_eq_none_iff]
  cases short : candidate.firstShort? extractor.horizon.steps with
  | none => rfl
  | some history =>
      have refused := extractor.refuses_extract candidate history.1 history.2 short
      cases refused.symm.trans done

theorem fitsWord_of_secondsOfStamps {stamps : List Int} {elapsed : List α}
    (timed : secondsOfStamps stamps = .ok elapsed) : ∀ stamp ∈ stamps, fitsWord stamp = true := by
  unfold secondsOfStamps at timed
  split at timed
  · cases timed
  · rename_i fits
    simpa using fits

theorem computes_of_extract {series : MetricSeries α}
    (done : extractor.extract candidate = .ok series) : extractor.Computes candidate := by
  obtain ⟨objects, histories⟩ := List.forall_mem_cons.mp (reaches_of_extract done)
  rw [extract, cut_eq _ objects] at done
  unfold Computes Operates
  simp only [ensures_false_iff, or_false]
  cases own : candidate.motion with
  | driven motion =>
      simp only [own, Motion.lengths, List.forall_mem_cons, List.not_mem_nil, false_implies,
        implies_true, and_true] at histories
      obtain ⟨odometry, acceleration, steering⟩ := histories
      simp only [own, ofDriven, cut_eq _ odometry, cut_eq _ acceleration, cut_eq _ steering,
        bind_eq_ok_iff, Except.ok.injEq, exists_eq_left'] at done
      obtain ⟨lateral, laterals, elapsed, timed, jerk, -, collision, times, -⟩ := done
      refine ⟨?_, ?_, completes_of_mapM times⟩
      · intro entry inside
        -- Steering reaches the horizon too, so the entry has a partner there.
        have reaches : (motion.odometry.take extractor.horizon.steps).length ≤
            (motion.steering.take extractor.horizon.steps).length :=
          Nat.le_of_eq ((List.length_take_of_le odometry).trans
            (List.length_take_of_le steering).symm)
        rw [← List.map_fst_zip reaches] at inside
        obtain ⟨pair, paired, rfl⟩ := List.mem_map.mp inside
        exact completes_of_bind (completes_of_mapM laterals pair paired)
      · exact List.forall_mem_map.mp (fitsWord_of_secondsOfStamps timed)
  | planned points =>
      simp only [own, Motion.lengths, List.forall_mem_cons, List.not_mem_nil, false_implies,
        implies_true, and_true] at histories
      simp only [own, ofPlanned, cut_eq _ histories, bind_eq_ok_iff, Except.ok.injEq,
        exists_eq_left'] at done
      obtain ⟨jerk, -, collision, times, -⟩ := done
      exact completes_of_mapM times
  | unknown kind =>
      simp only [own] at done
      cases done

/-- An extraction refuses a candidate for the first of its histories that ends before the horizon.
Otherwise it gives metrics that span the horizon exactly if the operations on the numbers within it
succeed. What lies beyond the horizon makes no difference. -/
theorem extract_over_horizon (extractor : Extractor α) (candidate : Candidate α) :
    ((∃ name held required,
        extractor.extract candidate = .error (.shortHistory name held required)) ↔
      ∃ history ∈ candidate.lengths, history.2 < extractor.horizon.steps) ∧
    (∀ name held required,
      extractor.extract candidate = .error (.shortHistory name held required) ↔
        required = extractor.horizon.steps ∧
          candidate.firstShort? extractor.horizon.steps = some (name, held)) ∧
    (Yields (extractor.extract candidate) (fun series => series.Spans extractor.horizon.steps) ↔
      (∀ history ∈ candidate.lengths, extractor.horizon.steps ≤ history.2) ∧
        extractor.Computes candidate) ∧
    extractor.extract (candidate.take extractor.horizon.steps) = extractor.extract candidate := by
  have refused (name : String) (held required : Nat) :
      extractor.extract candidate = .error (.shortHistory name held required) ↔
        required = extractor.horizon.steps ∧
          candidate.firstShort? extractor.horizon.steps = some (name, held) := by
    cases short : candidate.firstShort? extractor.horizon.steps with
    | some history =>
        have failed := extractor.refuses_extract candidate history.1 history.2 short
        rw [failed]
        simp only [Except.error.injEq, Fault.shortHistory.injEq, Option.some.injEq, Prod.ext_iff]
        constructor
        · rintro ⟨rfl, rfl, rfl⟩
          exact ⟨rfl, rfl, rfl⟩
        · rintro ⟨rfl, rfl, rfl⟩
          exact ⟨rfl, rfl, rfl⟩
    | none =>
        -- With histories of full length only operations on the data can fail.
        have reaches := (candidate.firstShort?_eq_none_iff _).mp short
        have ensures := ensures_extract reaches (extractor.operates_ofData candidate)
        constructor
        · intro failed
          exact (ensures.of_error failed).elim
        · rintro ⟨-, ⟨⟩⟩
  refine ⟨?_, refused, ?_, extractor.extract_take candidate⟩
  · constructor
    · rintro ⟨name, held, required, failed⟩
      have short := ((refused ..).mp failed).2
      exact ⟨(name, held), List.mem_of_find?_eq_some short, by simpa using List.find?_some short⟩
    · rintro ⟨history, inside, ends⟩
      cases short : candidate.firstShort? extractor.horizon.steps with
      | some first => exact ⟨_, _, _, (refused ..).mpr ⟨rfl, short⟩⟩
      | none =>
          have reaches := (candidate.firstShort?_eq_none_iff _).mp short history inside
          exact absurd ends (Nat.not_lt.mpr reaches)
  · constructor
    · rintro ⟨series, done, -⟩
      exact ⟨reaches_of_extract done, computes_of_extract done⟩
    · rintro ⟨reaches, computes⟩
      exact ensures_false_iff.mp (ensures_extract reaches computes)

end Extractor

end ManeuverRanking
