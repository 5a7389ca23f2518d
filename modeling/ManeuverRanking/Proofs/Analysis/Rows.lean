import ManeuverRanking.Analysis.Run

/-!
The rows of a run: every row tells the time of its tick. Changing the times of a table changes
nothing else, and rounding them changes nothing at all unless signed and unsigned words meet.
-/

namespace ManeuverRanking

variable {α : Type}

namespace Row

def mapTime (change : Int → Int) (row : Row α) : Row α :=
  row.map fun
    | (.timestamp, .integer time) => (.timestamp, .integer (change time))
    | entry => entry

theorem cell_cons (entry : Column × Cell α) (rest : Row α) (column : Column) :
    Row.cell (entry :: rest) column = if entry.1 = column then entry.2 else Row.cell rest column := by
  by_cases here : entry.1 = column <;> simp [Row.cell, here]

theorem mapTime_cons_other (change : Int → Int) {column : Column} (other : column ≠ .timestamp)
    (value : Cell α) (rest : Row α) :
    mapTime change ((column, value) :: rest) = (column, value) :: mapTime change rest := by
  cases column <;> first | rfl | exact absurd rfl other

theorem cell_mapTime_other (change : Int → Int) (row : Row α) {column : Column}
    (other : column ≠ .timestamp) : (row.mapTime change).cell column = row.cell column := by
  induction row with
  | nil => rfl
  | cons entry rest ih =>
      obtain ⟨name, value⟩ := entry
      by_cases time : name = .timestamp
      · subst time
        have skip := other.symm
        cases value <;>
          simp only [mapTime, List.map_cons, cell_cons, skip, if_false] <;> exact ih
      · rw [mapTime_cons_other change time, cell_cons, cell_cons, ih]

theorem cell_mapTime_timestamp (change : Int → Int) {row : Row α} {time : Int}
    (told : row.cell .timestamp = .integer time) :
    (row.mapTime change).cell .timestamp = .integer (change time) := by
  induction row with
  | nil => cases told
  | cons entry rest ih =>
      obtain ⟨name, value⟩ := entry
      rw [cell_cons] at told
      by_cases here : name = .timestamp
      · subst here
        rw [if_pos rfl] at told
        cases told
        rfl
      · rw [if_neg here] at told
        rw [mapTime_cons_other change here, cell_cons, if_neg here]
        exact ih told

theorem columns_mapTime (change : Int → Int) (row : Row α) :
    (row.mapTime change).map Prod.fst = row.map Prod.fst := by
  rw [mapTime, List.map_map]
  apply List.map_congr_left
  intro entry _
  simp only [Function.comp_apply]
  split <;> rfl

theorem mapTime_eq_self {change : Int → Int} (still : ∀ time, change time = time) (row : Row α) :
    row.mapTime change = row := by
  conv => rhs; rw [← List.map_id row]
  apply List.map_congr_left
  intro entry member
  split
  · rw [still]
    rfl
  · rfl

theorem holdTime_eq_mapTime [Scalar α] (kind : TimeKind) (row : Row α) :
    row.holdTime kind = row.mapTime (kind.hold α) :=
  rfl

end Row

namespace TimeKind

theorem joinAll_ofTime_shows_iff {shown : TimeKind}
    (single : shown = signed ∨ shown = unsigned ∨ shown = unbounded) (times : List Int) :
    (joinAll (times.map ofTime)).join shown = joinAll (times.map ofTime) ↔
      ∃ time ∈ times, (ofTime time).join shown = ofTime time := by
  have spreads : ∀ left right : TimeKind, (left.join right).join shown = left.join right ↔
      left.join shown = left ∨ right.join shown = right := by
    intro left right
    rcases single with rfl | rfl | rfl <;> cases left <;> cases right <;> decide
  have fold : ∀ start : TimeKind,
      ((times.map ofTime).foldl join start).join shown = (times.map ofTime).foldl join start ↔
        start.join shown = start ∨ ∃ time ∈ times, (ofTime time).join shown = ofTime time := by
    induction times with
    | nil =>
        intro start
        simp
    | cons time rest ih =>
        intro start
        rw [List.map_cons, List.foldl_cons, ih, spreads, or_assoc]
        simp
  have empty : nothing.join shown ≠ nothing := by
    rcases single with rfl | rfl | rfl <;> decide
  rw [joinAll, fold, or_iff_right empty]

theorem ofTime_of_word {time : Int} (word : -wordHalf ≤ time ∧ time < 2 * wordHalf) :
    ofTime time = if time < wordHalf then signed else unsigned := by
  unfold ofTime
  rw [if_neg (by omega), if_pos word.2]

theorem ofTime_eq_unbounded_iff (time : Int) :
    ofTime time = unbounded ↔ ¬ (-wordHalf ≤ time ∧ time < 2 * wordHalf) := by
  constructor
  · intro beyond word
    rw [ofTime_of_word word] at beyond
    split at beyond <;> cases beyond
  · intro beyond
    have positive : 0 < wordHalf := by decide
    unfold ofTime
    by_cases low : time < -wordHalf
    · rw [if_pos low]
    · rw [if_neg low, if_neg (by omega), if_neg (by omega)]

theorem joinAll_ofTime_eq_rounded_iff (times : List Int) :
    joinAll (times.map ofTime) = rounded ↔
      (∀ time ∈ times, -wordHalf ≤ time ∧ time < 2 * wordHalf) ∧
        (∃ time ∈ times, time < wordHalf) ∧ ∃ time ∈ times, wordHalf ≤ time := by
  -- A kind is told by the kinds that it absorbs.
  have parts : ∀ kind : TimeKind, kind = rounded ↔
      kind.join unbounded ≠ kind ∧ kind.join signed = kind ∧ kind.join unsigned = kind := by
    intro kind
    cases kind <;> decide
  have top : ∀ kind : TimeKind, kind.join unbounded = kind ↔ kind = unbounded := by
    intro kind
    cases kind <;> decide
  have within : (¬ ∃ time ∈ times, (ofTime time).join unbounded = ofTime time) ↔
      ∀ time ∈ times, -wordHalf ≤ time ∧ time < 2 * wordHalf := by
    constructor
    · intro none time member
      apply Classical.byContradiction
      intro beyond
      exact none ⟨time, member, (top _).mpr ((ofTime_eq_unbounded_iff time).mpr beyond)⟩
    · rintro words ⟨time, member, beyond⟩
      exact (ofTime_eq_unbounded_iff time).mp ((top _).mp beyond) (words time member)
  rw [parts, ne_eq, joinAll_ofTime_shows_iff (by simp), joinAll_ofTime_shows_iff (by simp),
    joinAll_ofTime_shows_iff (by simp), within]
  apply and_congr_right
  intro words
  have side : ∀ time ∈ times, ((ofTime time).join signed = ofTime time ↔ time < wordHalf) ∧
      ((ofTime time).join unsigned = ofTime time ↔ wordHalf ≤ time) := by
    intro time member
    rw [ofTime_of_word (words time member)]
    by_cases small : time < wordHalf
    · simp [small, join]
    · simp [small, join]
      omega
  apply and_congr
  · exact exists_congr fun time => and_congr_right fun member => (side time member).1
  · exact exists_congr fun time => and_congr_right fun member => (side time member).2

end TimeKind

theorem TimeKind.hold_eq_self [Scalar α] {kind : TimeKind} (exact : kind ≠ .rounded) (time : Int) :
    kind.hold α time = time := by
  cases kind <;> first | rfl | exact absurd rfl exact

theorem Row.holdTime_eq_self [Scalar α] {kind : TimeKind} (exact : kind ≠ .rounded) (row : Row α) :
    row.holdTime kind = row :=
  mapTime_eq_self (TimeKind.hold_eq_self exact) row

theorem Table.columns_ofRows_congr {rows rows' : List (Row α)}
    (same : rows.map (List.map Prod.fst) = rows'.map (List.map Prod.fst)) :
    (Table.ofRows rows).columns = (Table.ofRows rows').columns := by
  have fold : ∀ (rows : List (Row α)) (start : List Column),
      rows.foldl Table.joinColumns start = (rows.map (List.map Prod.fst)).foldl
        (fun columns added => columns ++ added.filter fun column => !columns.contains column)
        start := by
    intro rows start
    rw [List.foldl_map]
    rfl
  simp only [Table.ofRows, fold, same]

namespace RunTick

def Timely (tick : RunTick α) : Prop :=
  ∀ analysis, tick.outcome = .ready analysis → analysis.clock = tick.clock

theorem Timely.cell_timestamp [Scalar α] {tick : RunTick α} (timely : tick.Timely)
    {logName : String} {row : Row α} (member : row ∈ tick.rows logName) :
    row.cell .timestamp = .integer tick.clock := by
  obtain ⟨bare, inside, rfl⟩ := List.mem_map.mp member
  cases outcome : tick.outcome with
  | ready analysis =>
      simp only [outcome] at inside
      obtain ⟨place, -, rfl⟩ := List.mem_map.mp inside
      rw [← timely analysis outcome]
      rfl
  | notReady cause =>
      simp only [outcome, List.mem_singleton] at inside
      subst inside
      rfl

end RunTick

namespace Run

variable {α : Type}

def clocks (run : Run α) : List Int :=
  run.ticks.map RunTick.clock

/-- The times of a run fit words, but not all of them the same words. -/
def Straddles (run : Run α) : Prop :=
  (∀ clock ∈ run.clocks, -TimeKind.wordHalf ≤ clock ∧ clock < 2 * TimeKind.wordHalf) ∧
    (∃ clock ∈ run.clocks, clock < TimeKind.wordHalf) ∧
    ∃ clock ∈ run.clocks, TimeKind.wordHalf ≤ clock

theorem timeKind_eq_rounded_iff (run : Run α) : run.timeKind = .rounded ↔ run.Straddles := by
  have kind : run.timeKind = .joinAll (run.clocks.map TimeKind.ofTime) := by
    rw [timeKind, clocks, List.map_map]
    rfl
  rw [kind, TimeKind.joinAll_ofTime_eq_rounded_iff]
  rfl

end Run

end ManeuverRanking
