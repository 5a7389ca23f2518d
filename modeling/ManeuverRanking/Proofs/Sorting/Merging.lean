import ManeuverRanking.Proofs.Sorting.Runs

/-!
Merges in order. Every merge, from either end, one by one or in stretches, takes next an entry that is
ahead of all that is left of both runs. So two neighbouring runs in order become one run in order.
-/

namespace ManeuverRanking

namespace Sorting

variable {β : Type} {before : β → β → Bool}

theorem Side.eq_or_eq_other (side side' : Side) : side' = side ∨ side' = side.other := by
  cases side <;> cases side' <;> decide

@[simp] theorem Side.other_other (side : Side) : side.other.other = side := by
  cases side <;> rfl

theorem mem_head?_of_mem_take_one {entries : List β} {entry : β} (inside : entry ∈ entries.take 1) :
    entry ∈ entries.head? := by
  rwa [List.take_one, Option.mem_toList] at inside

namespace Merging

def run (merging : Merging β) : Side → List β
  | .shorter => merging.shorter
  | .longer => merging.longer

def left (merging : Merging β) : Nat :=
  merging.longer.length + merging.shorter.length

/-- What is left of the runs is in order and behind all that was taken. The shorter run ends behind
all of the longer one. -/
structure Sound (before : β → β → Bool) (ahead : β → β → Prop) (mergeEnd : MergeEnd)
    (merging : Merging β) : Prop where
  sorted : ∀ side, (merging.run side).Pairwise ahead
  taken : merging.taken.Pairwise fun later earlier => ahead earlier later
  done : ∀ entry ∈ merging.taken, ∀ side, ∀ other ∈ merging.run side, ahead entry other
  decided : ∀ short ∈ merging.run .shorter, ∀ long ∈ merging.run .longer,
    Decides (longerWins before mergeEnd) ahead short long
  last : ∀ long ∈ merging.run .longer, ∀ short ∈ (merging.run .shorter).getLast?, ahead long short

section Take

variable (merging : Merging β) (side : Side) (count : Nat)

theorem run_take_self : (merging.take side count).run side = (merging.run side).drop count := by
  cases side <;> rfl

theorem run_take_other :
    (merging.take side count).run side.other = merging.run side.other := by
  cases side <;> rfl

theorem taken_take : (merging.take side count).taken =
    ((merging.run side).take count).reverse ++ merging.taken := by
  cases side <;> rfl

theorem run_take_suffix (side' : Side) :
    (merging.take side count).run side' <:+ merging.run side' := by
  cases side <;> cases side' <;> first | exact List.suffix_refl _ | exact List.drop_suffix _ _

end Take

section Count

variable (merging : Merging β)

theorem isOver_eq_false_iff :
    merging.isOver = false ↔ 0 < merging.longer.length ∧ 1 < merging.shorter.length := by
  simp only [isOver, Bool.or_eq_false_iff, decide_eq_false_iff_not, Nat.not_le,
    List.isEmpty_eq_false_iff, List.length_pos_iff]

theorem left_take_add (side : Side) (count : Nat) :
    (merging.take side count).left + min count (merging.run side).length = merging.left := by
  cases side <;> simp only [left, take, run, List.length_drop] <;> omega

theorem left_take_le (side : Side) (count : Nat) : (merging.take side count).left ≤ merging.left := by
  have whole := merging.left_take_add side count
  omega

theorem left_take_lt {side : Side} {count : Nat} (some : 0 < count)
    (filled : 0 < (merging.run side).length) : (merging.take side count).left < merging.left := by
  have whole := merging.left_take_add side count
  omega

variable {merging}

theorem length_run_pos (going : merging.isOver = false) (side : Side) :
    0 < (merging.run side).length := by
  obtain ⟨long, short⟩ := merging.isOver_eq_false_iff.mp going
  cases side
  · exact Nat.lt_trans Nat.zero_lt_one short
  · exact long

variable (before) (mergeEnd : MergeEnd)

theorem left_takeFirst_lt (going : merging.isOver = false) (shorterWins longerWins : Nat) :
    (merging.takeFirst before mergeEnd shorterWins longerWins).left < merging.left := by
  obtain ⟨long, short⟩ := merging.isOver_eq_false_iff.mp going
  unfold takeFirst
  split
  · split
    · exact merging.left_take_lt Nat.zero_lt_one (length_run_pos going .longer)
    · exact merging.left_take_lt Nat.zero_lt_one (length_run_pos going .shorter)
  · rename_i missing
    obtain ⟨first, others, longer⟩ := List.exists_cons_of_length_pos long
    obtain ⟨second, others', shorter⟩ :=
      List.exists_cons_of_length_pos (Nat.lt_trans Nat.zero_lt_one short)
    exact absurd shorter (missing first others second others' longer)

theorem left_quicken (merging : Merging β) : merging.quicken.left = merging.left := by
  unfold quicken
  split
  · split <;> rfl
  · rfl

theorem left_takeStretch_lt (going : merging.isOver = false) (side : Side) :
    (merging.takeStretch before mergeEnd side).left < merging.left := by
  unfold takeStretch
  dsimp only
  generalize merging.stretch before mergeEnd side = count
  split
  · rename_i ended
    have some : 0 < count := by
      refine Nat.pos_of_ne_zero ?_
      rintro rfl
      have same : (merging.take side 0).isOver = merging.isOver := by cases side <;> rfl
      rw [same, going] at ended
      exact Bool.false_ne_true ended
    exact merging.left_take_lt some (length_run_pos going side)
  · rename_i going'
    have filled := length_run_pos (Bool.eq_false_iff.mpr going') side.other
    exact Nat.lt_of_lt_of_le (left_take_lt _ Nat.zero_lt_one filled) (merging.left_take_le side count)

theorem left_takeStretches_lt (going : merging.isOver = false) :
    (merging.takeStretches before mergeEnd).left < merging.left := by
  let start : Merging β := { merging with threshold := max (merging.threshold - 1) 1 }
  have going' : start.isOver = false := going
  have first : (start.takeStretch before mergeEnd mergeEnd.firstSide).left < merging.left :=
    left_takeStretch_lt before mergeEnd going' mergeEnd.firstSide
  unfold takeStretches
  dsimp only
  split
  · exact first
  · rename_i further
    have second := left_takeStretch_lt before mergeEnd (Bool.eq_false_iff.mpr further)
      mergeEnd.firstSide.other
    split
    · exact Nat.lt_trans second first
    · split <;> exact Nat.lt_trans second first

theorem left_advance_lt (going : merging.isOver = false) :
    (merging.advance before mergeEnd).left < merging.left := by
  unfold advance
  split
  · rename_i shorterWins longerWins _
    have less := left_takeFirst_lt before mergeEnd going shorterWins longerWins
    dsimp only
    split
    · exact less
    · rwa [left_quicken]
  · exact left_takeStretches_lt before mergeEnd going

theorem isOver_finish {rounds : Nat} (enough : merging.left ≤ rounds) :
    (merging.finish before mergeEnd rounds).isOver = true := by
  induction rounds generalizing merging with
  | zero =>
      have none : merging.longer = [] := List.length_eq_zero_iff.mp (by rw [left] at enough; omega)
      rw [finish, isOver, none]
      rfl
  | succ rounds ih =>
      rw [finish]
      split
      · assumption
      · rename_i going
        have less := left_advance_lt before mergeEnd (Bool.eq_false_iff.mpr going)
        exact ih (by omega)

end Count

namespace Sound

variable {ahead : β → β → Prop} {mergeEnd : MergeEnd} {merging : Merging β}

theorem congr (sound : Sound before ahead mergeEnd merging) {other : Merging β}
    (left : other.run = merging.run) (taken : other.taken = merging.taken) :
    Sound before ahead mergeEnd other := by
  obtain ⟨sorted, gone, done, decided, last⟩ := sound
  rw [← left] at sorted done decided last
  rw [← taken] at gone done
  exact ⟨sorted, gone, done, decided, last⟩

theorem take (sound : Sound before ahead mergeEnd merging) (side : Side) (count : Nat)
    (first : ∀ entry ∈ (merging.run side).take count, ∀ other ∈ merging.run side.other,
      ahead entry other) : Sound before ahead mergeEnd (merging.take side count) := by
  have rest := merging.run_take_suffix side count
  have parts := sound.sorted side
  rw [← List.take_append_drop count (merging.run side), List.pairwise_append] at parts
  obtain ⟨front, -, across⟩ := parts
  constructor
  · exact fun side' => (sound.sorted side').sublist (rest side').sublist
  · rw [taken_take]
    refine List.pairwise_append.mpr ⟨List.pairwise_reverse.mpr front, sound.taken, ?_⟩
    intro later inside earlier inside'
    exact sound.done earlier inside' side later (List.mem_of_mem_take (List.mem_reverse.mp inside))
  · rw [taken_take]
    intro entry inside side' other behind
    rcases List.mem_append.mp inside with now | earlier
    · have now := List.mem_reverse.mp now
      -- Of its own side the rest is behind what is taken by order, of the other side by assumption.
      rcases Side.eq_or_eq_other side side' with rfl | rfl
      · rw [run_take_self] at behind
        exact across entry now other behind
      · exact first entry now other ((rest side.other).subset behind)
    · exact sound.done entry earlier side' other ((rest side').subset behind)
  · intro short inside long inside'
    exact sound.decided short ((rest .shorter).subset inside) long ((rest .longer).subset inside')
  · intro long inside short ends
    obtain ⟨before', whole⟩ := rest .shorter
    refine sound.last long ((rest .longer).subset inside) short ?_
    rw [← whole, List.getLast?_append, ends, Option.some_or]
    rfl

theorem quicken (sound : Sound before ahead mergeEnd merging) :
    Sound before ahead mergeEnd merging.quicken := by
  unfold Merging.quicken
  split
  · split
    · exact sound.congr rfl rfl
    · exact sound
  · exact sound

theorem pairwise_entries (sound : Sound before ahead mergeEnd merging)
    (ended : merging.isOver = true) : merging.entries.Pairwise ahead := by
  refine List.pairwise_append.mpr ⟨List.pairwise_reverse.mpr sound.taken,
    List.pairwise_append.mpr ⟨sound.sorted .longer, sound.sorted .shorter, ?_⟩, ?_⟩
  · intro long inside short inside'
    rw [isOver, Bool.or_eq_true, List.isEmpty_iff, decide_eq_true_eq] at ended
    rcases ended with none | few
    · exact absurd (none ▸ inside) List.not_mem_nil
    · -- The one entry that is left of the shorter run is its last one.
      obtain ⟨last, alone⟩ := List.length_eq_one_iff.mp
        (Nat.le_antisymm few (List.length_pos_of_mem inside'))
      refine sound.last long inside short ?_
      rw [alone, List.mem_singleton] at inside'
      simp [run, alone, inside']
  · intro entry inside other behind
    rcases List.mem_append.mp behind with long | short
    · exact sound.done entry (List.mem_reverse.mp inside) .longer other long
    · exact sound.done entry (List.mem_reverse.mp inside) .shorter other short

variable [IsStrictOrder β ahead]

theorem around_stretch (sound : Sound before ahead mergeEnd merging) (side : Side) :
    ∀ head ∈ (merging.run side.other).head?,
      Around ahead (merging.run side) head (merging.stretch before mergeEnd side) := by
  intro head front
  have inside := List.mem_of_mem_head? front
  have sorted := sound.sorted side
  cases side with
  | longer =>
      have found : merging.shorter.head? = some head := front
      have count : merging.stretch before mergeEnd .longer = gallop mergeEnd
          (fun position => merging.longer[position]?.any fun long =>
            longerWins before mergeEnd long head) merging.longer.length := by
        simp only [Merging.stretch, found]
      rw [count]
      exact around_gallop sorted (fun long => sound.decided head inside long) mergeEnd
  | shorter =>
      have found : merging.longer.head? = some head := front
      have count : merging.stretch before mergeEnd .shorter = gallop mergeEnd
          (fun position => merging.shorter[position]?.any fun short =>
            !longerWins before mergeEnd head short) merging.shorter.length := by
        simp only [Merging.stretch, found]
      rw [count]
      exact around_gallop sorted (fun short inside' => (sound.decided short inside' head inside).turned)
        mergeEnd

theorem takeStretch (sound : Sound before ahead mergeEnd merging) (side : Side) :
    Sound before ahead mergeEnd (merging.takeStretch before mergeEnd side) := by
  have around := sound.around_stretch side
  have next : Sound before ahead mergeEnd
      (merging.take side (merging.stretch before mergeEnd side)) :=
    sound.take _ _ fun entry inside => precedes_of_head? (sound.sorted _) fun head front =>
      (around head front).ahead entry inside
  unfold Merging.takeStretch
  dsimp only
  split
  · exact next
  · refine next.take _ _ fun entry inside other behind => ?_
    have front := mem_head?_of_mem_take_one inside
    rw [run_take_other] at front
    rw [Side.other_other, run_take_self] at behind
    exact (around entry front).behind other behind

theorem takeStretches (sound : Sound before ahead mergeEnd merging) :
    Sound before ahead mergeEnd (merging.takeStretches before mergeEnd) := by
  have start : Sound before ahead mergeEnd
      { merging with threshold := max (merging.threshold - 1) 1 } := sound.congr rfl rfl
  have first := start.takeStretch mergeEnd.firstSide
  have second := first.takeStretch mergeEnd.firstSide.other
  unfold Merging.takeStretches
  dsimp only
  split
  · exact first
  · split
    · exact second
    · split
      · exact second
      · exact second.congr rfl rfl

theorem takeHead (sound : Sound before ahead mergeEnd merging) (side : Side)
    (first : ∀ entry ∈ (merging.run side).head?, ∀ head ∈ (merging.run side.other).head?,
      ahead entry head) : Sound before ahead mergeEnd (merging.take side 1) :=
  sound.take side 1 fun entry inside => precedes_of_head? (sound.sorted side.other)
    fun head front => first entry (mem_head?_of_mem_take_one inside) head front

theorem takeFirst (sound : Sound before ahead mergeEnd merging) (shorterWins longerWins : Nat) :
    Sound before ahead mergeEnd
      (merging.takeFirst before mergeEnd shorterWins longerWins) := by
  unfold Merging.takeFirst
  split
  · rename_i long moreLong short moreShort longer shorter
    have frontLong : ∀ entry ∈ merging.longer.head?, entry = long := by simp [longer]
    have frontShort : ∀ entry ∈ merging.shorter.head?, entry = short := by simp [shorter]
    have decided := sound.decided short (List.mem_of_mem_head? (by simp [run, shorter])) long
      (List.mem_of_mem_head? (by simp [run, longer]))
    split
    · rename_i wins
      rw [Decides, if_pos wins] at decided
      refine (sound.takeHead .longer fun entry front head front' => ?_).congr rfl rfl
      rwa [frontLong entry front, frontShort head front']
    · rename_i loses
      rw [Decides, if_neg loses] at decided
      refine (sound.takeHead .shorter fun entry front head front' => ?_).congr rfl rfl
      rwa [frontShort entry front, frontLong head front']
  · exact sound

theorem advance (sound : Sound before ahead mergeEnd merging) :
    Sound before ahead mergeEnd (merging.advance before mergeEnd) := by
  unfold Merging.advance
  split
  · rename_i shorterWins longerWins _
    have next := sound.takeFirst shorterWins longerWins
    dsimp only
    split
    · exact next
    · exact next.quicken
  · exact sound.takeStretches

theorem finish (sound : Sound before ahead mergeEnd merging) (rounds : Nat) :
    Sound before ahead mergeEnd (merging.finish before mergeEnd rounds) := by
  induction rounds generalizing merging with
  | zero => exact sound
  | succ rounds ih =>
      rw [Merging.finish]
      split
      · exact sound
      · exact ih sound.advance

/-- A sound merge ends with all entries in order. -/
theorem pairwise_finish (sound : Sound before ahead mergeEnd merging) {rounds : Nat}
    (enough : merging.left ≤ rounds) :
    (merging.finish before mergeEnd rounds).entries.Pairwise ahead :=
  (sound.finish rounds).pairwise_entries (isOver_finish before mergeEnd enough)

end Sound

end Merging

section Merges

variable {precedes : β → β → Prop} [IsStrictOrder β precedes] {left right : List β}
  (sorted : left.Pairwise precedes) (sorted' : right.Pairwise precedes)
  (decided : ∀ earlier ∈ left, ∀ later ∈ right, Decides before precedes earlier later)

include sorted sorted' decided

theorem pairwise_mergeOverlap (threshold : Nat)
    (first : ∀ head ∈ right.head?, ∀ entry ∈ left, precedes head entry)
    (last : ∀ tail ∈ left.getLast?, ∀ entry ∈ right, precedes entry tail) :
    (mergeOverlap before threshold left right).values.Pairwise precedes := by
  unfold mergeOverlap
  dsimp only
  -- The first entry of the other run is known to go first, so it is taken before the rounds start.
  split
  · have start : Merging.Sound before precedes .front
        ⟨left, right, [], threshold, .steps 0 0⟩ := by
      refine ⟨fun side => ?_, .nil, nofun, decided, fun long inside tail ends => ?_⟩
      · cases side
        · exact sorted
        · exact sorted'
      · exact last tail ends long inside
    have next := start.take .longer 1 fun entry inside other behind =>
      first entry (mem_head?_of_mem_take_one inside) other behind
    refine next.pairwise_finish (Nat.le_trans (Merging.left_take_le ..) ?_)
    exact Nat.le_of_eq (Nat.add_comm ..)
  · -- From the back the order is turned round.
    have start : Merging.Sound before (Function.swap precedes) .back
        ⟨right.reverse, left.reverse, [], threshold, .steps 0 0⟩ := by
      refine ⟨fun side => ?_, .nil, nofun, fun short inside long inside' => ?_,
        fun long inside head front => ?_⟩
      · cases side
        · exact List.pairwise_reverse.mpr sorted'
        · exact List.pairwise_reverse.mpr sorted
      · exact decided long (List.mem_reverse.mp inside') short (List.mem_reverse.mp inside)
      · refine first head ?_ long (List.mem_reverse.mp inside)
        rwa [← List.getLast?_reverse]
    have next := start.take .longer 1 fun entry inside other behind => by
      refine last entry ?_ other (List.mem_reverse.mp behind)
      rw [← List.head?_reverse]
      exact mem_head?_of_mem_take_one inside
    refine List.pairwise_reverse.mpr
      (next.pairwise_finish (Nat.le_trans (Merging.left_take_le ..) ?_))
    simp only [Merging.left, List.length_reverse, Nat.le_refl]

omit sorted' in
theorem around_settledBefore : ∀ head ∈ right.head?,
    Around precedes left head (settledBefore before left right) := by
  intro head front
  have found : right.head? = some head := front
  have inside := List.mem_of_mem_head? front
  simp only [settledBefore, found]
  exact around_gallop sorted (fun value member => (decided value member head inside).turned) .front

omit sorted in
theorem around_settledBehind : ∀ tail ∈ left.getLast?,
    Around (Function.swap precedes) right.reverse tail (settledBehind before left right) := by
  intro tail ends
  have found : left.getLast? = some tail := ends
  have inside := List.mem_of_mem_getLast? ends
  simp only [settledBehind, found]
  rw [← List.length_reverse]
  exact around_gallop (List.pairwise_reverse.mpr sorted')
    (fun value member => (decided tail inside value (List.mem_reverse.mp member)).turned) .back

theorem pairwise_mergeRuns (threshold : Nat) :
    (mergeRuns before threshold left right).values.Pairwise precedes := by
  -- What settles before the right run and behind the left one stays; only the middle is merged.
  have around := around_settledBefore sorted decided
  unfold mergeRuns
  dsimp only
  generalize settledBefore before left right = settled at around ⊢
  have ahead : ∀ entry ∈ left.take settled, ∀ other ∈ right, precedes entry other :=
    fun entry inside => precedes_of_head? sorted' fun head front =>
      (around head front).ahead entry inside
  have parts := sorted
  rw [← List.take_append_drop settled left, List.pairwise_append] at parts
  obtain ⟨kept, sortedMiddle, beforeMiddle⟩ := parts
  split
  · exact List.pairwise_append.mpr ⟨kept, sorted', ahead⟩
  · have decidedMiddle : ∀ earlier ∈ left.drop settled, ∀ later ∈ right,
        Decides before precedes earlier later :=
      fun earlier inside => decided earlier (List.mem_of_mem_drop inside)
    have around' := around_settledBehind sorted' decidedMiddle
    generalize settledBehind before (left.drop settled) right = rest at around' ⊢
    have behind : ∀ entry ∈ left.drop settled, ∀ other ∈ right.drop (right.length - rest),
        precedes entry other := by
      intro entry inside other later
      refine precedes_of_getLast? sortedMiddle (fun tail ends => ?_) entry inside
      refine (around' tail ends).ahead other ?_
      rw [List.take_reverse]
      exact List.mem_reverse.mpr later
    have last : ∀ tail ∈ (left.drop settled).getLast?,
        ∀ entry ∈ right.take (right.length - rest), precedes entry tail := by
      intro tail ends entry inside
      refine (around' tail ends).behind entry ?_
      rw [List.drop_reverse]
      exact List.mem_reverse.mpr inside
    generalize right.length - rest = count at behind last ⊢
    have parts' := sorted'
    rw [← List.take_append_drop count right, List.pairwise_append] at parts'
    obtain ⟨sortedFront, sortedBack, across⟩ := parts'
    split
    · rename_i none
      rw [none, List.drop_zero] at behind
      refine List.pairwise_append.mpr ⟨sorted, sorted', fun entry inside other later => ?_⟩
      rw [← List.take_append_drop settled left] at inside
      rcases List.mem_append.mp inside with front | middle
      · exact ahead entry front other later
      · exact behind entry middle other later
    · rename_i some
      have merged := pairwise_mergeOverlap sortedMiddle sortedFront
        (fun earlier inside later inside' => decidedMiddle earlier inside later
          (List.mem_of_mem_take inside')) threshold
        (fun head front => by
          rw [List.head?_take, if_neg some] at front
          exact (around head front).behind) last
      have members : ∀ entry ∈
          (mergeOverlap before threshold (left.drop settled) (right.take count)).values,
          entry ∈ left.drop settled ∨ entry ∈ right.take count := fun entry inside =>
        List.mem_append.mp ((mergeOverlap_perm ..).mem_iff.mp inside)
      refine List.pairwise_append.mpr ⟨kept, List.pairwise_append.mpr ⟨merged, sortedBack, ?_⟩, ?_⟩
      · intro entry inside other later
        rcases members entry inside with middle | front
        · exact behind entry middle other later
        · exact across entry front other later
      · intro entry inside other later
        rcases List.mem_append.mp later with mixed | back
        · rcases members other mixed with middle | front
          · exact beforeMiddle entry inside other middle
          · exact ahead entry inside other (List.mem_of_mem_take front)
        · exact ahead entry inside other (List.mem_of_mem_drop back)

end Merges

end Sorting

end ManeuverRanking
