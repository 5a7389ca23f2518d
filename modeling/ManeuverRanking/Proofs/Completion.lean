import ManeuverRanking.Proofs.Outcome

/-!
Computations that do not fail, together with what they are known to give.
-/

namespace ManeuverRanking

variable {ε β γ : Type}

def Yields (outcome : Except ε β) (kept : β → Prop) : Prop :=
  ∃ value, outcome = .ok value ∧ kept value

def Completes (outcome : Except ε β) : Prop :=
  Yields outcome fun _ => True

theorem completes_ok (value : β) : Completes (.ok value : Except ε β) :=
  ⟨value, rfl, trivial⟩

namespace Yields

variable {outcome : Except ε β} {kept : β → Prop} {next : β → Except ε γ} {later : γ → Prop}

theorem ok {value : β} (holds : kept value) : Yields (.ok value : Except ε β) kept :=
  ⟨value, rfl, holds⟩

theorem mono (done : Yields outcome kept) {weaker : β → Prop}
    (weaken : ∀ value, kept value → weaker value) : Yields outcome weaker := by
  obtain ⟨value, found, holds⟩ := done
  exact ⟨value, found, weaken value holds⟩

theorem bind (done : Yields outcome kept)
    (goes : ∀ value, kept value → Yields (next value) later) : Yields (outcome >>= next) later := by
  obtain ⟨value, rfl, holds⟩ := done
  exact goes value holds

theorem map {change : β → γ} (done : Yields outcome kept)
    (goes : ∀ value, kept value → later (change value)) :
    Yields (outcome >>= fun value => .ok (change value)) later :=
  done.bind fun value holds => ok (goes value holds)

theorem mapM {step : β → Except ε γ} {values : List β}
    (each : ∀ value ∈ values, Yields (step value) later) :
    Yields (values.mapM step) fun results =>
      results.length = values.length ∧ ∀ result ∈ results, later result := by
  induction values with
  | nil => exact ⟨[], rfl, rfl, nofun⟩
  | cons value rest ih =>
      obtain ⟨first, done, holds⟩ := each value List.mem_cons_self
      obtain ⟨results, mapped, length, all⟩ :=
        ih fun other inside => each other (List.mem_cons_of_mem _ inside)
      refine ⟨first :: results, ?_, by rw [List.length_cons, length, List.length_cons], ?_⟩
      · rw [List.mapM_cons, done, mapped]
        rfl
      · intro result member
        rcases List.mem_cons.mp member with rfl | inside
        · exact holds
        · exact all result inside

end Yields

theorem completes_of_mapM {step : β → Except ε γ} {values : List β} {results : List γ}
    (mapped : values.mapM step = .ok results) : ∀ value ∈ values, Completes (step value) := by
  induction values generalizing results with
  | nil => nofun
  | cons value rest ih =>
      simp only [List.mapM_cons, bind_eq_ok_iff] at mapped
      obtain ⟨first, done, later, others, -⟩ := mapped
      exact List.forall_mem_cons.mpr ⟨⟨first, done, trivial⟩, ih others⟩

theorem completes_of_bind {outcome : Except ε β} {next : β → Except ε γ}
    (done : Completes (outcome >>= next)) : Completes outcome := by
  obtain ⟨result, found, -⟩ := done
  obtain ⟨value, first, -⟩ := (bind_eq_ok_iff ..).mp found
  exact ⟨value, first, trivial⟩

theorem Completes.bind {outcome : Except ε β} {next : β → Except ε γ} {later : γ → Prop}
    (done : Completes outcome) (goes : ∀ value, Yields (next value) later) :
    Yields (outcome >>= next) later :=
  Yields.bind done fun value _ => goes value

end ManeuverRanking
