import Mathlib.Analysis.SpecialFunctions.Complex.Arg
import ManeuverRanking.Geometry.Polyline
import ManeuverRanking.Proofs.Scalar.Exact

/-!
Polylines over the real numbers. The progress along them ascends, and arc length determines where
one is: at each arc length a polyline passes one spot alone.
-/

namespace ManeuverRanking

theorem runningTotals_ascending (start : ℝ) {distances : List ℝ}
    (nonneg : ∀ distance ∈ distances, 0 ≤ distance) :
    (start :: runningTotals start distances).Pairwise (· ≤ ·) := by
  induction distances generalizing start with
  | nil => exact List.pairwise_singleton _ _
  | cons distance rest ih =>
      have step := nonneg distance List.mem_cons_self
      have later := ih (start + distance) fun other inside =>
        nonneg other (List.mem_cons_of_mem _ inside)
      refine List.pairwise_cons.mpr ⟨?_, later⟩
      intro total member
      rcases List.mem_cons.mp member with rfl | inside
      · linarith
      · have above := (List.pairwise_cons.mp later).1 total inside
        linarith

theorem getLastD_runningTotals (start default : ℝ) (distances : List ℝ) :
    (start :: runningTotals start distances).getLastD default = start + distances.sum := by
  induction distances generalizing start default with
  | nil => simp [runningTotals]
  | cons distance rest ih =>
      rw [runningTotals, List.getLastD_cons, ih, List.sum_cons, add_assoc]

theorem stepLengths_nonneg {β : Type} {distance : β → β → ℝ}
    (nonneg : ∀ start stop, 0 ≤ distance start stop) (points : List β) :
    ∀ length ∈ stepLengths distance points, 0 ≤ length := by
  induction points with
  | nil => nofun
  | cons first rest ih =>
      cases rest with
      | nil => nofun
      | cons second rest =>
          intro length member
          rcases List.mem_cons.mp member with rfl | inside
          · exact nonneg first second
          · exact ih length inside

namespace Vec2

noncomputable def toward (start stop : Vec2 ℝ) (share : ℝ) : Vec2 ℝ :=
  ⟨start.x + share * (stop.x - start.x), start.y + share * (stop.y - start.y)⟩

@[simp] theorem toward_zero (start stop : Vec2 ℝ) : start.toward stop 0 = start := by
  simp [toward]

@[simp] theorem toward_one (start stop : Vec2 ℝ) : start.toward stop 1 = stop := by
  simp [toward]

@[simp] theorem toward_self (start : Vec2 ℝ) (share : ℝ) : start.toward start share = start := by
  simp [toward]

end Vec2

namespace Segment

variable (piece : Segment ℝ)

theorem length_eq : piece.length = Real.sqrt piece.lengthSquared := by
  simp only [length, lengthSquared, Vec2.norm, Vec2.dot, Vec2.sub]
  congr 1
  ring

theorem length_nonneg : 0 ≤ piece.length :=
  Real.sqrt_nonneg _

theorem length_pos_iff : 0 < piece.length ↔ piece.start ≠ piece.stop := by
  rw [length_eq, ← Exact.norm_sub_pos_iff]
  rfl

theorem length_eq_zero_iff : piece.length = 0 ↔ piece.start = piece.stop := by
  rw [← not_iff_not, ← ne_eq, ← ne_eq, ← length_pos_iff]
  exact (piece.length_nonneg.lt_iff_ne').symm

theorem eq_of_length_eq_zero {start stop : Vec2 ℝ} (none : (Segment.mk start stop).length = 0) :
    start = stop :=
  (length_eq_zero_iff ⟨start, stop⟩).mp none

end Segment

inductive OnPolyline : List (Vec2 ℝ) → Vec2 ℝ → Prop
  | corner {spot : Vec2 ℝ} {rest : List (Vec2 ℝ)} : OnPolyline (spot :: rest) spot
  | between {start stop : Vec2 ℝ} {rest : List (Vec2 ℝ)} {share : ℝ} : 0 ≤ share → share ≤ 1 →
      OnPolyline (start :: stop :: rest) (start.toward stop share)
  | later {start spot : Vec2 ℝ} {rest : List (Vec2 ℝ)} : OnPolyline rest spot →
      OnPolyline (start :: rest) spot

theorem onPolyline_singleton_iff {point spot : Vec2 ℝ} : OnPolyline [point] spot ↔ spot = point := by
  constructor
  · intro on
    cases on with
    | corner => rfl
    | later on => nomatch on
  · rintro rfl
    exact .corner

noncomputable def sides (points : List (Vec2 ℝ)) : List ℝ :=
  stepLengths (fun start stop => (Segment.mk start stop).length) points

theorem sides_nonneg (points : List (Vec2 ℝ)) : ∀ side ∈ sides points, 0 ≤ side :=
  stepLengths_nonneg (fun start stop => Segment.length_nonneg ⟨start, stop⟩) points

/-- A polyline that starts at one arc length passes a spot at another one. -/
inductive Passes : ℝ → List (Vec2 ℝ) → ℝ → Vec2 ℝ → Prop
  | between {arc share : ℝ} {start stop : Vec2 ℝ} {rest : List (Vec2 ℝ)} : 0 ≤ share → share ≤ 1 →
      Passes arc (start :: stop :: rest) (arc + share * (Segment.mk start stop).length)
        (start.toward stop share)
  | later {arc place : ℝ} {start stop spot : Vec2 ℝ} {rest : List (Vec2 ℝ)} :
      Passes (arc + (Segment.mk start stop).length) (stop :: rest) place spot →
      Passes arc (start :: stop :: rest) place spot

namespace Passes

variable {arc place : ℝ} {points rest : List (Vec2 ℝ)} {start stop spot : Vec2 ℝ}

theorem cons_iff : Passes arc (start :: stop :: rest) place spot ↔
    (∃ share, 0 ≤ share ∧ share ≤ 1 ∧ place = arc + share * (Segment.mk start stop).length ∧
      spot = start.toward stop share) ∨
      Passes (arc + (Segment.mk start stop).length) (stop :: rest) place spot := by
  constructor
  · intro passes
    cases passes with
    | between forward short => exact .inl ⟨_, forward, short, rfl, rfl⟩
    | later passes => exact .inr passes
  · rintro (⟨share, forward, short, rfl, rfl⟩ | passes)
    · exact .between forward short
    · exact .later passes

theorem at_start (arc : ℝ) (start stop : Vec2 ℝ) (rest : List (Vec2 ℝ)) :
    Passes arc (start :: stop :: rest) arc start :=
  cons_iff.mpr (.inl ⟨0, le_refl 0, zero_le_one, by simp, by simp⟩)

theorem at_stop (arc : ℝ) (start stop : Vec2 ℝ) (rest : List (Vec2 ℝ)) :
    Passes arc (start :: stop :: rest) (arc + (Segment.mk start stop).length) stop :=
  cons_iff.mpr (.inl ⟨1, zero_le_one, le_refl 1, by simp, by simp⟩)

theorem onPolyline (passes : Passes arc points place spot) : OnPolyline points spot := by
  induction passes with
  | between forward short => exact .between forward short
  | later _ ih => exact .later ih

theorem two_le (passes : Passes arc points place spot) : 2 ≤ points.length := by
  cases passes <;> simp

theorem start_le (passes : Passes arc points place spot) : arc ≤ place := by
  induction passes with
  | @between arc share start stop _ forward _ =>
      linarith [mul_nonneg forward (Segment.length_nonneg ⟨start, stop⟩)]
  | @later _ _ start stop _ _ _ ih => linarith [Segment.length_nonneg ⟨start, stop⟩]

theorem le_end (passes : Passes arc points place spot) : place ≤ arc + (sides points).sum := by
  induction passes with
  | @between arc share start stop rest _ short =>
      have within := mul_le_of_le_one_left (Segment.length_nonneg ⟨start, stop⟩) short
      have after := List.sum_nonneg (sides_nonneg (stop :: rest))
      change _ ≤ arc + (_ + (sides (stop :: rest)).sum)
      linarith
  | @later arc _ start stop _ rest _ ih =>
      change _ ≤ arc + (_ + (sides (stop :: rest)).sum)
      rwa [← add_assoc]

theorem head?_eq (passes : Passes arc points place spot) (still : place ≤ arc) :
    points.head? = some spot := by
  induction passes with
  | @between arc share start stop _ forward _ =>
      have way : share * (Segment.mk start stop).length = 0 :=
        le_antisymm (by linarith) (mul_nonneg forward (Segment.length_nonneg _))
      rcases mul_eq_zero.mp way with none | none
      · rw [none, Vec2.toward_zero]
        rfl
      · rw [← Segment.eq_of_length_eq_zero none, Vec2.toward_self]
        rfl
  | @later arc place start stop spot _ passes ih =>
      have ahead := passes.start_le
      have length := Segment.length_nonneg ⟨start, stop⟩
      have same : start = stop := Segment.eq_of_length_eq_zero (by linarith)
      have head := ih (by linarith)
      rwa [← same] at head

theorem eq_toward {share : ℝ} (short : share ≤ 1)
    (passes : Passes (arc + (Segment.mk start stop).length) (stop :: rest)
      (arc + share * (Segment.mk start stop).length) spot) : spot = start.toward stop share := by
  have length := Segment.length_nonneg ⟨start, stop⟩
  have within := mul_le_of_le_one_left length short
  have head := passes.head?_eq (by linarith)
  obtain rfl : stop = spot := Option.some.inj head
  have ahead := passes.start_le
  have left : (1 - share) * (Segment.mk start stop).length = 0 :=
    le_antisymm (by linarith) (mul_nonneg (sub_nonneg.mpr short) length)
  rcases mul_eq_zero.mp left with whole | none
  · rw [← sub_eq_zero.mp whole, Vec2.toward_one]
  · rw [← Segment.eq_of_length_eq_zero none, Vec2.toward_self]

/-- At each arc length a polyline passes one spot alone. -/
theorem unique (passes : Passes arc points place spot) {other : Vec2 ℝ}
    (passes' : Passes arc points place other) : spot = other := by
  induction passes with
  | @between arc share start stop _ forward short =>
      rcases cons_iff.mp passes' with ⟨share', -, -, told, rfl⟩ | later
      · have same : (share - share') * (Segment.mk start stop).length = 0 := by linarith
        rcases mul_eq_zero.mp same with equal | none
        · rw [sub_eq_zero.mp equal]
        · rw [← Segment.eq_of_length_eq_zero none, Vec2.toward_self, Vec2.toward_self]
      · exact (later.eq_toward short).symm
  | later passes ih =>
      rcases cons_iff.mp passes' with ⟨share', -, short, rfl, rfl⟩ | later
      · exact passes.eq_toward short
      · exact ih later

end Passes

theorem OnPolyline.exists_passes {points : List (Vec2 ℝ)} {spot : Vec2 ℝ}
    (on : OnPolyline points spot) (two : 2 ≤ points.length) (arc : ℝ) :
    ∃ place, Passes arc points place spot := by
  induction on generalizing arc with
  | @corner spot rest =>
      match rest, two with
      | stop :: rest, _ => exact ⟨arc, .at_start arc spot stop rest⟩
  | between forward short => exact ⟨_, .between forward short⟩
  | @later start spot rest on ih =>
      match rest, two with
      | [stop], _ =>
          obtain rfl := onPolyline_singleton_iff.mp on
          exact ⟨_, .at_stop arc start spot []⟩
      | stop :: next :: rest, _ =>
          obtain ⟨place, passes⟩ := ih (by simp) (arc + (Segment.mk start stop).length)
          exact ⟨place, .later passes⟩

end ManeuverRanking
