import Mathlib.Analysis.SpecialFunctions.Complex.Arg
import ManeuverRanking.Plan.Interpolation
import ManeuverRanking.Proofs.Scalar.Exact

/-!
Interpolation over the real numbers in a table whose abscissas ascend. The search finds the last
abscissa at or before the query, also among equal ones, and every column of the table is read at the
same place: so far between two neighbours, or exactly at an entry.
-/

namespace ManeuverRanking

section Search

variable {nodes : Array (Node ℝ)} {query : ℝ}

def Ascending (nodes : Array (Node ℝ)) : Prop :=
  ∀ (first second : Nat) (node next : Node ℝ), first ≤ second →
    nodes[first]? = some node → nodes[second]? = some next → node.abscissa ≤ next.abscissa

theorem reachedAt_eq_true_iff (position : Nat) :
    reachedAt nodes query position = true ↔
      ∃ node, nodes[position]? = some node ∧ node.abscissa ≤ query := by
  simp [reachedAt, Option.any_eq_true]

theorem reachedAt_of_le (ascending : Ascending nodes) {first second : Nat} (earlier : first ≤ second)
    (reached : reachedAt nodes query second = true) : reachedAt nodes query first = true := by
  obtain ⟨next, found, low⟩ := (reachedAt_eq_true_iff second).mp reached
  have inside : first < nodes.size :=
    Nat.lt_of_le_of_lt earlier (Array.getElem?_eq_some_iff.mp found).1
  have here : nodes[first]? = some nodes[first] := Array.getElem?_eq_getElem inside
  exact (reachedAt_eq_true_iff first).mpr
    ⟨nodes[first], here, (ascending first second _ _ earlier here found).trans low⟩

theorem behindAt_eq_not (position : Nat) (inside : position < nodes.size) :
    behindAt nodes query position = !reachedAt nodes query position := by
  rw [behindAt, reachedAt, Array.getElem?_eq_getElem inside, Option.any_some, Option.any_some,
    ← decide_not, decide_eq_decide, not_le]

theorem reachedAt_iff_of_edge (ascending : Ascending nodes) {last : Nat}
    (reached : reachedAt nodes query last = true) (missed : reachedAt nodes query (last + 1) = false)
    (position : Nat) : reachedAt nodes query position = true ↔ position ≤ last := by
  constructor
  · intro here
    by_contra beyond
    have next := reachedAt_of_le ascending (Nat.lt_of_not_le beyond) here
    rw [missed] at next
    exact Bool.false_ne_true next
  · intro before
    exact reachedAt_of_le ascending before reached

theorem edge_of_walk (start : reachedAt nodes query 0 = true) :
    let last := ((nodes.toList.drop 1).takeWhile fun node => decide (node.abscissa ≤ query)).length
    reachedAt nodes query last = true ∧ reachedAt nodes query (last + 1) = false := by
  intro last
  have stop : last = (nodes.toList.drop 1).findIdx fun node => !decide (node.abscissa ≤ query) := by
    change (List.takeWhile _ _).length = _
    rw [List.takeWhile_eq_take_findIdx_not, List.length_take_of_le List.findIdx_le_length]
  have shifted (position : Nat) : nodes[position + 1]? = (nodes.toList.drop 1)[position]? := by
    rw [List.getElem?_drop, Array.getElem?_toList, Nat.add_comm]
  constructor
  · cases walked : last with
    | zero => exact start
    | succ before =>
        have short : before < (nodes.toList.drop 1).findIdx fun node =>
            !decide (node.abscissa ≤ query) := by
          omega
        have passed := List.not_of_lt_findIdx short
        rw [Bool.not_eq_false', decide_eq_true_eq] at passed
        exact (reachedAt_eq_true_iff _).mpr
          ⟨_, (shifted before).trans (List.getElem?_eq_getElem _), passed⟩
  · rw [← Bool.not_eq_true, reachedAt_eq_true_iff]
    rintro ⟨node, found, low⟩
    rw [shifted, List.getElem?_eq_some_iff] at found
    obtain ⟨inside, rfl⟩ := found
    simp only [stop] at inside low
    have fails := List.findIdx_getElem (w := inside)
    rw [Bool.not_eq_true', decide_eq_false_iff_not] at fails
    exact fails low

theorem edge_of_halving (ascending : Ascending nodes) {high : Nat} (few : 4 ≤ high)
    (reached : reachedAt nodes query 3 = true) (missed : reachedAt nodes query high = false) :
    let last := partitionPoint (reachedAt nodes query) 3 high - 1
    reachedAt nodes query last = true ∧ reachedAt nodes query (last + 1) = false := by
  intro last
  obtain ⟨lower, -, before, behind⟩ := partitionPoint_splits (reachedAt nodes query)
    (fun first second earlier => reachedAt_of_le ascending earlier) 3 high (by omega)
    (fun position below => reachedAt_of_le ascending (Nat.le_of_lt below) reached)
    (fun position above => by
      rw [← Bool.not_eq_true]
      intro later
      rw [reachedAt_of_le ascending above later] at missed
      exact Bool.false_ne_true missed.symm)
  have past : 3 < partitionPoint (reachedAt nodes query) 3 high := by
    by_contra short
    have none := behind 3 (Nat.le_of_not_lt short)
    rw [reached] at none
    exact Bool.false_ne_true none.symm
  refine ⟨before last (by omega), behind (last + 1) (by omega)⟩

theorem reachedAt_iff_le_lastReached (ascending : Ascending nodes)
    (start : reachedAt nodes query 0 = true) (position : Nat) :
    reachedAt nodes query position = true ↔ position ≤ lastReached nodes query := by
  -- Every branch of the search stops at an edge, and there is one edge only.
  suffices edge : reachedAt nodes query (lastReached nodes query) = true ∧
      reachedAt nodes query (lastReached nodes query + 1) = false from
    reachedAt_iff_of_edge ascending edge.1 edge.2 position
  unfold lastReached
  split
  · exact edge_of_walk start
  · rename_i long
    have missed {position : Nat} (inside : position < nodes.size)
        (behind : behindAt nodes query position = true) :
        reachedAt nodes query position = false := by
      rwa [behindAt_eq_not position inside, Bool.not_eq_true'] at behind
    have reached {position : Nat} (inside : position < nodes.size)
        (before : ¬ behindAt nodes query position = true) :
        reachedAt nodes query position = true := by
      rwa [behindAt_eq_not position inside, Bool.not_eq_true', Bool.not_eq_false] at before
    split
    · exact ⟨start, missed (by omega) ‹_›⟩
    · split
      · exact ⟨reached (by omega) ‹_›, missed (by omega) ‹_›⟩
      · split
        · exact ⟨reached (by omega) ‹_›, missed (by omega) ‹_›⟩
        · dsimp only
          split
          · rename_i nine
            exact edge_of_halving ascending (by omega) (reached (by omega) ‹_›)
              (missed (by omega) nine.2)
          · apply edge_of_halving ascending (by omega) (reached (by omega) ‹_›)
            rw [reachedAt, Array.getElem?_eq_none (Nat.le_refl _)]
            rfl

end Search

section Table

variable {abscissas values : List ℝ} {query share : ℝ} {index : Nat}

noncomputable def blend (values : List ℝ) (index : Nat) (share : ℝ) : ℝ :=
  values.getD index 0 + share * (values.getD (index + 1) 0 - values.getD index 0)

/-- A query lies a share of the way from an entry of the abscissas to the next one. The entry is the
last one at or before the query, and from the last entry of all no way is left. -/
structure LiesAt (abscissas : List ℝ) (query : ℝ) (index : Nat) (share : ℝ) : Prop where
  inside : index < abscissas.length
  forward : 0 ≤ share
  short : share < 1
  atEnd : abscissas.length ≤ index + 1 → share = 0
  told : blend abscissas index share = query
  behind : ∀ later (bound : later < abscissas.length), index < later → query < abscissas[later]

theorem blend_eq_of_lt (share : ℝ) (next : index + 1 < values.length) :
    blend values index share =
      values[index] + share * (values[index + 1] - values[index]) := by
  simp only [blend, List.getD_eq_getElem?_getD, List.getElem?_eq_getElem next,
    List.getElem?_eq_getElem (Nat.lt_of_succ_lt next), Option.getD_some]

theorem blend_zero (inside : index < values.length) : blend values index 0 = values[index] := by
  simp [blend, List.getElem?_eq_getElem inside]

theorem getElem?_table (same : values.length = abscissas.length) (position : Nat) :
    (List.zipWith Node.mk abscissas values).toArray[position]? =
      if inside : position < abscissas.length then
        some ⟨abscissas[position], values[position]⟩
      else none := by
  rw [List.getElem?_toArray, List.getElem?_zipWith]
  by_cases inside : position < abscissas.length
  · rw [dif_pos inside, List.getElem?_eq_getElem inside, List.getElem?_eq_getElem (same ▸ inside)]
  · rw [dif_neg inside, List.getElem?_eq_none (Nat.le_of_not_lt inside)]

theorem ascending_table (same : values.length = abscissas.length)
    (ascending : abscissas.Pairwise (· ≤ ·)) :
    Ascending (List.zipWith Node.mk abscissas values).toArray := by
  intro first second node next earlier found found'
  rw [getElem?_table same] at found found'
  split at found
  · split at found'
    · cases found
      cases found'
      exact ascending.rel_get_of_le earlier
    · contradiction
  · contradiction

theorem reachedAt_table_iff (same : values.length = abscissas.length) (query : ℝ)
    (position : Nat) :
    reachedAt (List.zipWith Node.mk abscissas values).toArray query position = true ↔
      ∃ inside : position < abscissas.length, abscissas[position] ≤ query := by
  rw [reachedAt_eq_true_iff, getElem?_table same]
  split
  · rename_i inside
    simp [inside]
  · rename_i outside
    simp [outside]

theorem exists_liesAt (ascending : abscissas.Pairwise (· ≤ ·)) (some : 0 < abscissas.length)
    (low : abscissas[0] ≤ query) (high : query ≤ abscissas[abscissas.length - 1]) :
    ∃ index share, LiesAt abscissas query index share := by
  have start := (reachedAt_table_iff (rfl : abscissas.length = _) query 0).mpr ⟨some, low⟩
  have reached (position : Nat) :=
    (reachedAt_table_iff (rfl : abscissas.length = _) query position).symm.trans
      (reachedAt_iff_le_lastReached (ascending_table rfl ascending) start position)
  generalize lastReached (List.zipWith Node.mk abscissas abscissas).toArray query = index at reached
  obtain ⟨inside, here⟩ := (reached index).mpr (Nat.le_refl _)
  have behind (later : Nat) (bound : later < abscissas.length) (after : index < later) :
      query < abscissas[later] := by
    by_contra within
    exact Nat.not_le_of_lt after ((reached later).mp ⟨bound, not_lt.mp within⟩)
  by_cases next : index + 1 < abscissas.length
  · have beyond := behind (index + 1) next (Nat.lt_succ_self _)
    have way : 0 < abscissas[index + 1] - abscissas[index] := by linarith
    refine ⟨index, (query - abscissas[index]) / (abscissas[index + 1] - abscissas[index]),
      inside, div_nonneg (by linarith) way.le, (div_lt_one way).mpr (by linarith),
      fun last => absurd next (Nat.not_lt.mpr last), ?_, behind⟩
    rw [blend_eq_of_lt _ next, div_mul_cancel₀ _ way.ne']
    ring
  · have last : abscissas.length - 1 = index := by omega
    refine ⟨index, 0, inside, le_refl 0, zero_lt_one, fun _ => rfl, ?_, behind⟩
    rw [blend_zero inside]
    simp only [last] at high
    exact le_antisymm here high

namespace LiesAt

theorem way_pos (lies : LiesAt abscissas query index share) (next : index + 1 < abscissas.length) :
    0 < abscissas[index + 1] - abscissas[index] := by
  have beyond := lies.behind (index + 1) next (Nat.lt_succ_self _)
  have told := lies.told
  rw [blend_eq_of_lt share next] at told
  have left : 0 < (1 - share) * (abscissas[index + 1] - abscissas[index]) := by linarith
  exact pos_of_mul_pos_right left (by linarith [lies.short])

theorem entry_le (lies : LiesAt abscissas query index share) (inside : index < abscissas.length) :
    abscissas[index] ≤ query := by
  have told := lies.told
  by_cases next : index + 1 < abscissas.length
  · rw [blend_eq_of_lt share next] at told
    have passed := mul_nonneg lies.forward (lies.way_pos next).le
    linarith
  · rw [lies.atEnd (Nat.le_of_not_lt next), blend_zero inside] at told
    exact told.le

theorem lastReached_eq (lies : LiesAt abscissas query index share)
    (ascending : abscissas.Pairwise (· ≤ ·)) (same : values.length = abscissas.length) :
    lastReached (List.zipWith Node.mk abscissas values).toArray query = index := by
  have table := ascending_table same ascending
  have here := (reachedAt_table_iff same query index).mpr
    ⟨lies.inside, lies.entry_le lies.inside⟩
  have missed : reachedAt (List.zipWith Node.mk abscissas values).toArray query (index + 1) =
      false := by
    rw [← Bool.not_eq_true, reachedAt_table_iff same]
    rintro ⟨next, low⟩
    exact absurd (lies.behind _ next (Nat.lt_succ_self _)) (not_lt.mpr low)
  have start := reachedAt_of_le table (Nat.zero_le index) here
  have edge := reachedAt_iff_of_edge table here missed
  have search := reachedAt_iff_le_lastReached table start
  refine Nat.le_antisymm ?_ ?_
  · exact (edge _).mp ((search _).mpr (Nat.le_refl _))
  · exact (search _).mp ((edge _).mpr (Nat.le_refl _))

theorem valueFrom_eq (lies : LiesAt abscissas query index share)
    (same : values.length = abscissas.length) :
    valueFrom (List.zipWith Node.mk abscissas values).toArray query index =
      some (blend values index share) := by
  have inside := lies.inside
  have told := lies.told
  unfold valueFrom
  rw [getElem?_table same, getElem?_table same, dif_pos inside]
  by_cases next : index + 1 < abscissas.length
  · have way := lies.way_pos next
    rw [blend_eq_of_lt share next] at told
    rw [dif_pos next, blend_eq_of_lt share (same ▸ next)]
    simp only [Exact.sameAs_iff, Node.line, Exact.isUndefined_eq, Option.some.injEq]
    split
    · rename_i exact
      have none : share * (abscissas[index + 1] - abscissas[index]) = 0 := by linarith
      rw [(mul_eq_zero_iff_right way.ne').mp none]
      ring
    · rw [← told]
      simp only [Bool.false_eq_true, if_false]
      field_simp
      ring
  · rw [dif_neg next, lies.atEnd (Nat.le_of_not_lt next), blend_zero (same ▸ inside)]

/-- Every column of the table is read where the query lies. -/
theorem readOver_eq (lies : LiesAt abscissas query index share)
    (ascending : abscissas.Pairwise (· ≤ ·)) (same : values.length = abscissas.length) :
    readOver abscissas query values = .ok (blend values index share) := by
  have inside := lies.inside
  have first : (List.zipWith Node.mk abscissas values).toArray[0]? =
      some ⟨abscissas[0], values[0]⟩ := by
    rw [getElem?_table same, dif_pos (by omega)]
  have last : (List.zipWith Node.mk abscissas values).toArray.back? =
      some ⟨abscissas[abscissas.length - 1], values[abscissas.length - 1]⟩ := by
    have size : (List.zipWith Node.mk abscissas values).toArray.size = abscissas.length := by
      simp [same]
    rw [Array.back?_eq_getElem?, size, getElem?_table same, dif_pos (by omega)]
  have low : ¬ query < abscissas[0] := by
    have earlier : abscissas[0] ≤ abscissas[index] := ascending.rel_get_of_le (Nat.zero_le index)
    exact not_lt.mpr (earlier.trans (lies.entry_le inside))
  have high : ¬ abscissas[abscissas.length - 1] < query := by
    by_cases next : index < abscissas.length - 1
    · exact not_lt.mpr (lies.behind _ (by omega) next).le
    · have told := lies.told
      rw [lies.atEnd (by omega), blend_zero inside] at told
      have end_eq : abscissas.length - 1 = index := by omega
      simp only [end_eq, told, lt_irrefl, not_false_eq_true]
  simp only [readOver, interpolate?, first, last, Exact.isUndefined_eq, Bool.false_eq_true, if_false,
    if_neg low, if_neg high, lies.lastReached_eq ascending same, lies.valueFrom_eq same]

theorem blend_of_end (lies : LiesAt abscissas query index share)
    (same : values.length = abscissas.length) (some : values ≠ [])
    (beyond : ∀ (last : abscissas.length - 1 < abscissas.length),
      abscissas[abscissas.length - 1] ≤ query) :
    blend values index share = values.getLast some := by
  have inside := lies.inside
  have last : ¬ index < abscissas.length - 1 := by
    intro before
    exact absurd (lies.behind _ (by omega) before) (not_lt.mpr (beyond (by omega)))
  rw [lies.atEnd (by omega), blend_zero (by omega), List.getLast_eq_getElem]
  congr 1
  omega

theorem blend_nonneg (lies : LiesAt abscissas query index share)
    (nonneg : ∀ value ∈ values, 0 ≤ value) : 0 ≤ blend values index share := by
  have entry (position : Nat) : 0 ≤ values.getD position 0 := by
    rw [List.getD_eq_getElem?_getD]
    cases found : values[position]? with
    | none => exact le_refl 0
    | some value => exact nonneg value (List.mem_of_getElem? found)
  have left := mul_nonneg (sub_nonneg.mpr lies.short.le) (entry index)
  have right := mul_nonneg lies.forward (entry (index + 1))
  rw [blend]
  linarith

theorem blend_within (lies : LiesAt abscissas query index share)
    (same : values.length = abscissas.length) {low high : ℝ}
    (within : ∀ value ∈ values, low ≤ value ∧ value ≤ high) :
    low ≤ blend values index share ∧ blend values index share ≤ high := by
  have inside := lies.inside
  by_cases next : index + 1 < values.length
  · obtain ⟨above, below⟩ := within _ (List.getElem_mem (Nat.lt_of_succ_lt next))
    obtain ⟨above', below'⟩ := within _ (List.getElem_mem next)
    have rest := sub_nonneg.mpr lies.short.le
    have left := mul_nonneg rest (sub_nonneg.mpr above)
    have right := mul_nonneg lies.forward (sub_nonneg.mpr above')
    have left' := mul_nonneg rest (sub_nonneg.mpr below)
    have right' := mul_nonneg lies.forward (sub_nonneg.mpr below')
    rw [blend_eq_of_lt share next]
    constructor <;> linarith
  · rw [lies.atEnd (by omega), blend_zero (by omega)]
    exact within _ (List.getElem_mem _)

theorem blend_of_const (lies : LiesAt abscissas query index share)
    (same : values.length = abscissas.length) {constant : ℝ}
    (equal : ∀ value ∈ values, value = constant) : blend values index share = constant := by
  have inside := lies.inside
  by_cases next : index + 1 < values.length
  · rw [blend_eq_of_lt share next, equal _ (List.getElem_mem _), equal _ (List.getElem_mem _)]
    ring
  · rw [lies.atEnd (by omega), blend_zero (by omega)]
    exact equal _ (List.getElem_mem _)

end LiesAt

theorem blend_map_add_mul {β : Type} (entries : List β) (first second : β → ℝ) (a b : ℝ)
    (index : Nat) (share : ℝ) :
    blend (entries.map fun entry => first entry * a + second entry * b) index share =
      blend (entries.map first) index share * a + blend (entries.map second) index share * b := by
  have entry (position : Nat) :
      (entries.map fun entry => first entry * a + second entry * b).getD position 0 =
        (entries.map first).getD position 0 * a + (entries.map second).getD position 0 * b := by
    simp only [List.getD_eq_getElem?_getD, List.getElem?_map]
    cases entries[position]? with
    | none => simp
    | some entry => rfl
  simp only [blend, entry]
  ring

end Table

end ManeuverRanking
