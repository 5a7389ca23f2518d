import ManeuverRanking.Candidate.Builder

/-!
Steps that may fail or find data missing, taken apart.
-/

namespace ManeuverRanking

variable {ε reason β γ : Type}

theorem bind_eq_ok_iff (first : Except ε β) (next : β → Except ε γ) (result : γ) :
    (first >>= next) = .ok result ↔ ∃ value, first = .ok value ∧ next value = .ok result := by
  cases first <;> simp [bind, Except.bind]

theorem map_bind {ε β γ δ : Type} (outcome : Except ε β) (change : β → γ)
    (next : γ → Except ε δ) : (outcome.map change >>= next) = outcome >>= next ∘ change := by
  cases outcome <;> rfl

theorem bind_congr_of_ok {ε β γ : Type} {outcome : Except ε β} {next next' : β → Except ε γ}
    (same : ∀ value, outcome = .ok value → next value = next' value) :
    (outcome >>= next) = outcome >>= next' := by
  cases outcome with
  | error fault => rfl
  | ok value => exact same value rfl

theorem bind_congr_of_map {ε β γ δ : Type} {outcome outcome' : Except ε β} {read : β → γ}
    {next next' : β → Except ε δ} (same : outcome'.map read = outcome.map read)
    (agree : ∀ value value', read value' = read value → next' value' = next value) :
    (outcome' >>= next') = outcome >>= next := by
  cases outcome <;> cases outcome' <;> simp only [Except.map, Except.error.injEq, Except.ok.injEq,
    reduceCtorEq] at same
  · rw [same]
    rfl
  · exact agree _ _ same

theorem toOption_eq_some_iff {outcome : Except ε β} {value : β} :
    outcome.toOption = some value ↔ outcome = .ok value := by
  cases outcome <;> simp [Except.toOption]

theorem exists_ok_of_map {outcome : Except ε β} {read : β → γ} {told : γ}
    (found : outcome.toOption.map read = some told) :
    ∃ value, outcome = .ok value ∧ read value = told := by
  cases outcome with
  | error fault => cases found
  | ok value => exact ⟨value, rfl, Option.some.inj found⟩

theorem whenReady_eq_ready_iff (outcome : Outcome reason β)
    (next : β → Except ε (Outcome reason γ)) (result : γ) :
    whenReady outcome next = .ok (.ready result) ↔
      ∃ value, outcome = .ready value ∧ next value = .ok (.ready result) := by
  cases outcome <;> simp [whenReady]

theorem whenReady_eq_ok_iff (outcome : Outcome reason β)
    (next : β → Except ε (Outcome reason γ)) (result : Outcome reason γ) :
    whenReady outcome next = .ok result ↔
      (∃ value, outcome = .ready value ∧ next value = .ok result) ∨
        ∃ cause, outcome = .notReady cause ∧ result = .notReady cause := by
  cases outcome <;> simp [whenReady, eq_comm]

theorem bind_whenReady_eq_notReady_iff {first : Except ε (Outcome reason β)}
    {next : β → Except ε (Outcome reason γ)} {cause : reason} :
    (first >>= fun outcome => whenReady outcome next) = .ok (.notReady cause) ↔
      first = .ok (.notReady cause) ∨
        ∃ value, first = .ok (.ready value) ∧ next value = .ok (.notReady cause) := by
  rcases first with fault | ⟨value⟩ | ⟨other⟩ <;> simp [bind, Except.bind, whenReady]

theorem waits_iff_of_bind {first : Except ε (Outcome reason β)}
    {next : β → Except ε (Outcome reason γ)} {result : Outcome reason γ} {short later : Prop}
    (done : (first >>= fun outcome => whenReady outcome next) = .ok result)
    (now : ∀ outcome, first = .ok outcome → (outcome.isReady = false ↔ short))
    (after : ∀ value, first = .ok (.ready value) → next value = .ok result →
      (result.isReady = false ↔ later)) :
    result.isReady = false ↔ short ∨ later := by
  obtain ⟨outcome, found, done⟩ := (bind_eq_ok_iff ..).mp done
  have here := now outcome found
  rcases (whenReady_eq_ok_iff ..).mp done with ⟨value, rfl, rest⟩ | ⟨cause, rfl, rfl⟩
  · have full : ¬ short := fun missing => by cases here.mpr missing
    rw [after value found rest, or_iff_right full]
  · simp only [Outcome.isReady, true_iff] at here ⊢
    exact .inl here

theorem Outcome.map_eq_ready_iff (outcome : Outcome reason β) (change : β → γ) (result : γ) :
    outcome.map change = .ready result ↔ ∃ value, outcome = .ready value ∧ change value = result := by
  cases outcome <;> simp [Outcome.map]

end ManeuverRanking
