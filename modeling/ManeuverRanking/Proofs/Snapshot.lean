import ManeuverRanking.Proofs.Window.View
import ManeuverRanking.Snapshot

/-!
What the operations of a snapshot do to the window of each stream.
-/

namespace ManeuverRanking

namespace PerStream

variable {family : Stream → Type}

theorem set_get (values : PerStream family) (stream : Stream) :
    values.set stream (values.get stream) = values := by
  cases stream <;> rfl

theorem set_set (values : PerStream family) (stream : Stream) (first second : family stream) :
    (values.set stream first).set stream second = values.set stream second := by
  cases stream <;> rfl

end PerStream

namespace Snapshot

variable {α : Type}

theorem create_eq_ok_iff (keys : StampKeys α) (clock span : Int) (fresh : Snapshot α) :
    create keys clock span = .ok fresh ↔
      0 ≤ span ∧ fresh = ⟨clock, .ofFn fun stream => Window.empty (keys stream) span.toNat⟩ := by
  unfold create
  split
  · simp only [reduceCtorEq, false_iff, not_and]
    omega
  · rename_i valid
    have valid : 0 ≤ span := by omega
    simp only [Except.ok.injEq, valid, true_and, eq_comm]

def put (snapshot : Snapshot α) (stream : Stream) (window : Window α (Payload α stream)) :
    Snapshot α :=
  { snapshot with windows := snapshot.windows.set stream window }

@[simp] theorem window_put_same (snapshot : Snapshot α) (stream : Stream)
    (window : Window α (Payload α stream)) : (snapshot.put stream window).window stream = window :=
  PerStream.get_set_same ..

theorem window_put_other (snapshot : Snapshot α) {stream other : Stream}
    (window : Window α (Payload α stream)) (distinct : other ≠ stream) :
    (snapshot.put stream window).window other = snapshot.window other :=
  PerStream.get_set_other _ _ distinct

theorem put_window (snapshot : Snapshot α) (stream : Stream) :
    snapshot.put stream (snapshot.window stream) = snapshot := by
  simp only [put, window, PerStream.set_get]

theorem put_put (snapshot : Snapshot α) (stream : Stream)
    (first second : Window α (Payload α stream)) :
    (snapshot.put stream first).put stream second = snapshot.put stream second := by
  simp only [put, PerStream.set_set]

theorem forall_window_put (holds : (stream : Stream) → Window α (Payload α stream) → Prop)
    {snapshot : Snapshot α} {stream : Stream} {window : Window α (Payload α stream)}
    (here : holds stream window)
    (others : ∀ other, other ≠ stream → holds other (snapshot.window other)) :
    ∀ other, holds other ((snapshot.put stream window).window other) := by
  intro other
  by_cases same : other = stream
  · subst other
    rw [window_put_same]
    exact here
  · rw [window_put_other _ _ same]
    exact others other same

theorem append_eq (snapshot : Snapshot α) (stream : Stream) (value : Payload α stream) :
    snapshot.append stream value =
      ((snapshot.window stream).append value).map fun placed =>
        (snapshot.put stream placed.1, placed.2) := by
  rw [append]
  cases (snapshot.window stream).append value <;> rfl

@[simp] theorem window_advance (snapshot : Snapshot α) (step : Int) (stream : Stream) :
    (snapshot.advance step).window stream =
      ((snapshot.window stream).evict (snapshot.clock + step)).1 := by
  simp only [advance, evict, window, PerStream.get_map]

theorem ext_window {left right : Snapshot α} (clock : left.clock = right.clock)
    (windows : ∀ stream, left.window stream = right.window stream) : left = right := by
  cases left
  cases right
  simp only at clock
  subst clock
  congr 1
  exact PerStream.ext_get windows

end Snapshot

end ManeuverRanking
