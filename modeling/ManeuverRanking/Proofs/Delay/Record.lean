import ManeuverRanking.DriveLog
import ManeuverRanking.Proofs.Outcome

/-!
Drives recorded some time later: every stamp of every record is moved by the same time, and nothing
else is touched. Two outcomes are alike when they are related values, or faults that differ at most
in the times they tell.
-/

namespace ManeuverRanking

variable {α β γ β' γ' : Type}

def Payload.delay (time : Int) : (stream : Stream) → Payload α stream → Payload α stream
  | .transforms, batch => ⟨batch.transforms.map fun transform =>
      { transform with stamp := transform.stamp + time }⟩
  | .odometry, odometry => { odometry with stamp := odometry.stamp + time }
  | .objects, objects => { objects with stamp := objects.stamp + time }
  | .acceleration, report => { report with stamp := report.stamp + time }
  | .steering, report => { report with stamp := report.stamp + time }
  | .plan, plan => { plan with stamp := plan.stamp + time }

theorem recordStamp_delay (time : Int) (stream : Stream) (record : Payload α stream) :
    recordStamp stream (Payload.delay time stream record) =
      (recordStamp stream record).map (· + time) := by
  cases stream with
  | transforms =>
      obtain ⟨transforms⟩ := record
      cases transforms <;> rfl
  | odometry => rfl
  | objects => rfl
  | acceleration => rfl
  | steering => rfl
  | plan => rfl

def DriveLog.delay (time : Int) (log : DriveLog α) : DriveLog α :=
  ⟨log.name, log.records.map fun stream => List.map (Payload.delay time stream)⟩

theorem DriveLog.get_delay (time : Int) (log : DriveLog α) (stream : Stream) :
    (log.delay time).records.get stream =
      (log.records.get stream).map (Payload.delay time stream) :=
  PerStream.get_map ..

def SeedGap.timeless : SeedGap → SeedGap
  | missing streams _ => missing streams 0
  | emptyPlan _ => emptyPlan 0

def Shortage.timeless : Shortage → Shortage
  | window _ => window 0
  | ranOut stream step steps _ => ranOut stream step steps 0
  | seed gap => seed gap.timeless

def Fault.timeless : Fault α → Fault α
  | outOfOrder _ _ => outOfOrder 0 0
  | noSeed gap => noSeed gap.timeless
  | fault => fault

/-- Related values, or the same fault but for its times. -/
def Alike (related : β → γ → Prop) : Except (Fault α) β → Except (Fault α) γ → Prop
  | .ok value, .ok value' => related value value'
  | .error fault, .error fault' => fault.timeless = fault'.timeless
  | _, _ => False

def Outcome.Alike (related : β → γ → Prop) : Outcome Shortage β → Outcome Shortage γ → Prop
  | .ready value, .ready value' => related value value'
  | .notReady cause, .notReady cause' => cause.timeless = cause'.timeless
  | _, _ => False

namespace Alike

variable {related : β → γ → Prop} {related' : β' → γ' → Prop}
  {left : Except (Fault α) β} {right : Except (Fault α) γ}

theorem cases_on (alike : Alike related left right) :
    (∃ fault fault', left = .error fault ∧ right = .error fault' ∧
      fault.timeless = fault'.timeless) ∨
    ∃ value value', left = .ok value ∧ right = .ok value' ∧ related value value' := by
  cases left with
  | error fault =>
      cases right with
      | error fault' => exact .inl ⟨fault, fault', rfl, rfl, alike⟩
      | ok value' => exact alike.elim
  | ok value =>
      cases right with
      | error fault' => exact alike.elim
      | ok value' => exact .inr ⟨value, value', rfl, rfl, alike⟩

theorem exists_of_ok {value : β} (alike : Alike related (.ok value) right) :
    ∃ value', right = .ok value' ∧ related value value' := by
  cases right with
  | error fault => exact alike.elim
  | ok value' => exact ⟨value', rfl, alike⟩

theorem refl (outcome : Except (Fault α) β) : Alike Eq outcome outcome := by
  cases outcome <;> rfl

theorem bind (first : Alike related left right) {next : β → Except (Fault α) β'}
    {next' : γ → Except (Fault α) γ'}
    (later : ∀ value value', related value value' → Alike related' (next value) (next' value')) :
    Alike related' (left >>= next) (right >>= next') := by
  rcases first.cases_on with ⟨_, _, rfl, rfl, same⟩ | ⟨value, value', rfl, rfl, here⟩
  · exact same
  · exact later value value' here

theorem map (first : Alike related left right) {change : β → β'} {change' : γ → γ'}
    (later : ∀ value value', related value value' → related' (change value) (change' value')) :
    Alike related' (left.map change) (right.map change') := by
  rcases first.cases_on with ⟨_, _, rfl, rfl, same⟩ | ⟨value, value', rfl, rfl, here⟩
  · exact same
  · exact later value value' here

theorem of_left (alike : Alike related left right) {known : β → Prop}
    (told : ∀ value, left = .ok value → known value) :
    Alike (fun value value' => known value ∧ related value value') left right := by
  rcases alike.cases_on with ⟨_, _, rfl, rfl, same⟩ | ⟨value, value', rfl, rfl, here⟩
  · exact same
  · exact ⟨told value rfl, here⟩

end Alike

theorem Outcome.Alike.cases_on {related : β → γ → Prop} {outcome : Outcome Shortage β}
    {outcome' : Outcome Shortage γ} (alike : outcome.Alike related outcome') :
    (∃ cause cause', outcome = .notReady cause ∧ outcome' = .notReady cause' ∧
      cause.timeless = cause'.timeless) ∨
    ∃ value value', outcome = .ready value ∧ outcome' = .ready value' ∧ related value value' := by
  cases outcome with
  | notReady cause =>
      cases outcome' with
      | notReady cause' => exact .inl ⟨cause, cause', rfl, rfl, alike⟩
      | ready value' => exact alike.elim
  | ready value =>
      cases outcome' with
      | notReady cause' => exact alike.elim
      | ready value' => exact .inr ⟨value, value', rfl, rfl, alike⟩

theorem Alike.bindReady {related : β → γ → Prop} {related' : β' → γ' → Prop}
    {left : Except (Fault α) (Outcome Shortage β)} {right : Except (Fault α) (Outcome Shortage γ)}
    (first : Alike (Outcome.Alike related) left right)
    {next : β → Except (Fault α) (Outcome Shortage β')}
    {next' : γ → Except (Fault α) (Outcome Shortage γ')}
    (later : ∀ value value', related value value' →
      Alike (Outcome.Alike related') (next value) (next' value')) :
    Alike (Outcome.Alike related') (left >>= fun outcome => whenReady outcome next)
      (right >>= fun outcome => whenReady outcome next') := by
  refine first.bind fun outcome outcome' here => ?_
  rcases here.cases_on with ⟨_, _, rfl, rfl, same⟩ | ⟨value, value', rfl, rfl, ready⟩
  · exact same
  · exact later value value' ready

namespace DriveLog

theorem startTime_delay (time : Int) (log : DriveLog α) :
    Alike (fun start start' => start' = start + time) log.startTime (log.delay time).startTime := by
  have records : (log.delay time).records.odometry =
      log.records.odometry.map (Payload.delay time .odometry) := rfl
  unfold startTime
  rw [records, List.head?_map]
  cases log.records.odometry.head? <;> rfl

theorem endTime_delay (time : Int) (log : DriveLog α) :
    Alike (fun stop stop' => stop' = stop + time) log.endTime (log.delay time).endTime := by
  have records : (log.delay time).records.odometry =
      log.records.odometry.map (Payload.delay time .odometry) := rfl
  unfold endTime
  rw [records, List.getLast?_map]
  cases log.records.odometry.getLast? <;> rfl

end DriveLog

end ManeuverRanking
