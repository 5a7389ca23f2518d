import ManeuverRanking.Proofs.Completion

/-!
Computations with a condition on either way out: one on the value, and one on the cause of a failure.
A computation for which no cause is allowed succeeds.
-/

namespace ManeuverRanking

variable {ε β γ : Type}

/-- A value has a property, and a failure has an allowed cause. -/
def Ensures (allowed : ε → Prop) (kept : β → Prop) : Except ε β → Prop
  | .ok value => kept value
  | .error fault => allowed fault

def Outcome.Kept {reason : Type} (kept : β → Prop) (outcome : Outcome reason β) : Prop :=
  ∀ value, outcome = .ready value → kept value

theorem ensures_false_iff {outcome : Except ε β} {kept : β → Prop} :
    Ensures (fun _ => False) kept outcome ↔ Yields outcome kept := by
  cases outcome with
  | ok value =>
      constructor
      · exact fun holds => .ok holds
      · rintro ⟨_, ⟨⟩, holds⟩
        exact holds
  | error fault => exact ⟨False.elim, nofun⟩

namespace Ensures

variable {allowed : ε → Prop} {outcome : Except ε β} {kept : β → Prop} {next : β → Except ε γ}
  {later : γ → Prop}

theorem of_ok (ensures : Ensures allowed kept outcome) {value : β} (found : outcome = .ok value) :
    kept value := by
  rwa [found] at ensures

theorem of_error (ensures : Ensures allowed kept outcome) {fault : ε}
    (failed : outcome = .error fault) : allowed fault := by
  rwa [failed] at ensures

theorem mono (ensures : Ensures allowed kept outcome) {wider : ε → Prop} {weaker : β → Prop}
    (widen : ∀ fault, allowed fault → wider fault) (weaken : ∀ value, kept value → weaker value) :
    Ensures wider weaker outcome := by
  cases outcome with
  | ok value => exact weaken value ensures
  | error fault => exact widen fault ensures

theorem of_yields (done : Yields outcome kept) : Ensures allowed kept outcome :=
  (ensures_false_iff.mpr done).mono (fun _ => False.elim) fun _ => id

theorem bind (ensures : Ensures allowed kept outcome)
    (goes : ∀ value, kept value → Ensures allowed later (next value)) :
    Ensures allowed later (outcome >>= next) := by
  cases outcome with
  | ok value => exact goes value ensures
  | error fault => exact ensures

theorem mapM {step : β → Except ε γ} {values : List β}
    (each : ∀ value ∈ values, Ensures allowed later (step value)) :
    Ensures allowed (fun results => results.length = values.length ∧ ∀ result ∈ results, later result)
      (values.mapM step) := by
  induction values with
  | nil => exact ⟨rfl, nofun⟩
  | cons value rest ih =>
      obtain ⟨first, others⟩ := List.forall_mem_cons.mp each
      rw [List.mapM_cons]
      apply first.bind
      intro result holds
      apply (ih others).bind
      rintro results ⟨length, all⟩
      refine ⟨by rw [List.length_cons, length, List.length_cons], ?_⟩
      exact List.forall_mem_cons.mpr ⟨holds, all⟩

theorem whenReady {reason : Type} {first : Except ε (Outcome reason β)}
    {next : β → Except ε (Outcome reason γ)}
    (ensures : Ensures allowed (Outcome.Kept kept) first)
    (goes : ∀ value, kept value → Ensures allowed (Outcome.Kept later) (next value)) :
    Ensures allowed (Outcome.Kept later)
      (first >>= fun outcome => ManeuverRanking.whenReady outcome next) := by
  apply ensures.bind
  intro outcome holds
  cases outcome with
  | notReady cause => exact nofun
  | ready value => exact goes value (holds value rfl)

end Ensures

theorem Yields.whenReady {reason : Type} {first : Except ε (Outcome reason β)}
    {next : β → Except ε (Outcome reason γ)} {kept : β → Prop} {later : γ → Prop}
    (done : Yields first (Outcome.Kept kept))
    (goes : ∀ value, kept value → Yields (next value) (Outcome.Kept later)) :
    Yields (first >>= fun outcome => ManeuverRanking.whenReady outcome next)
      (Outcome.Kept later) := by
  rw [← ensures_false_iff] at done ⊢
  exact done.whenReady fun value holds => ensures_false_iff.mpr (goes value holds)

end ManeuverRanking
