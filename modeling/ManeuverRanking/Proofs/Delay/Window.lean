import ManeuverRanking.Proofs.Delay.Record
import ManeuverRanking.Window

/-!
Windows whose records are stamped some time later. Every operation at a time that is as much later
finds, keeps and drops the same records.
-/

namespace ManeuverRanking

variable {α β : Type}

def Stamped.delay (time : Int) (change : β → β) (record : Stamped β) : Stamped β :=
  ⟨record.stamp + time, change record.value⟩

namespace Window

def delay (time : Int) (change : β → β) (window : Window α β) : Window α β :=
  { window with
    stamps := window.stamps.map (· + time)
    records := window.records.map (Stamped.delay time change) }

variable (time : Int) (change : β → β) (window : Window α β)

theorem countEarly_delay {early early' : Int → Bool}
    (same : ∀ stamp, early' (stamp + time) = early stamp) :
    (window.delay time change).countEarly early' = window.countEarly early := by
  have tests : (fun position : Nat => (window.stamps.map (· + time))[position]?.any early') =
      fun position : Nat => window.stamps[position]?.any early := by
    funext position
    rw [Array.getElem?_map, Option.any_map]
    congr 1
    funext stamp
    exact same stamp
  simp only [countEarly, delay, tests, Array.size_map]

theorem evict_delay (now : Int) :
    ((window.delay time change).evict (now + time)).1 =
      (window.evict now).1.delay time change := by
  have count : (window.delay time change).countEarly (fun stamp => decide (stamp < now + time)) =
      window.countEarly fun stamp => decide (stamp < now) := by
    apply countEarly_delay
    intro stamp
    exact decide_eq_decide.mpr (by omega)
  simp only [evict, evictWhere, count]
  simp only [delay, Array.map_extract, Array.size_map]

theorem queryAfter_delay (after : Int) :
    (window.delay time change).queryAfter (after + time) =
      (window.queryAfter after).map (Stamped.delay time change) := by
  have count : (window.delay time change).countEarly
      (fun stamp => !decide (after + time < stamp)) =
      window.countEarly fun stamp => !decide (after < stamp) := by
    apply countEarly_delay
    intro stamp
    exact congrArg not (decide_eq_decide.mpr (by omega))
  simp only [queryAfter, firstFrom, count]
  exact Array.getElem?_map

theorem isReady_delay : (window.delay time change).isReady = window.isReady := by
  simp only [isReady, delay, Array.getElem?_map, Array.back?_map]
  cases window.stamps[0]? with
  | none => rfl
  | some oldest =>
      cases window.stamps.back? with
      | none => rfl
      | some newest =>
          simp only [Option.map_some]
          exact decide_eq_decide.mpr (by omega)

theorem mayFollow_delay (stamp : Int) :
    Alike (fun _ _ => True) (window.mayFollow stamp)
      ((window.delay time change).mayFollow (stamp + time)) := by
  simp only [mayFollow, delay, Array.back?_map]
  cases window.stamps.back? with
  | none => trivial
  | some newest =>
      simp only [Option.map_some, Int.add_lt_add_iff_right]
      split
      · rfl
      · trivial

theorem append_delay (value : β)
    (timed : window.key (change value) = (window.key value).map (· + time)) :
    Alike (fun placed placed' =>
        placed' = (placed.1.delay time change, placed.2.delay time change))
      (window.append value) ((window.delay time change).append (change value)) := by
  have read : Alike (fun stamp stamp' => stamp' = stamp + time) (window.key value)
      ((window.delay time change).key (change value)) := by
    change Alike _ _ (window.key (change value))
    rw [timed]
    cases window.key value <;> rfl
  apply read.bind
  rintro stamp _ rfl
  apply (window.mayFollow_delay time change stamp).bind
  intro _ _ _
  simp only [pure, Except.pure, Alike, delay, Stamped.delay, Array.map_push]

theorem append_eq_ok {window next : Window α β} {value : β} {record : Stamped β}
    (appended : window.append value = .ok (next, record)) :
    record.value = value ∧ next.key = window.key ∧
      next.records = window.records.push record := by
  simp only [append, bind_eq_ok_iff, pure, Except.pure, Except.ok.injEq, Prod.mk.injEq] at appended
  obtain ⟨stamp, -, -, -, rfl, rfl⟩ := appended
  exact ⟨rfl, rfl, rfl⟩

end Window

end ManeuverRanking
