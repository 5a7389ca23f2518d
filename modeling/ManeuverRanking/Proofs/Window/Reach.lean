import ManeuverRanking.Proofs.Window.View

/-!
How far the records of a window reach. A window whose old records are evicted is ready only if its
records reach further than its span behind the time of the eviction.
-/

namespace ManeuverRanking

theorem le_getLast_of_pairwise {β : Type} {stamp : β → Int} {values : List β}
    (sorted : values.Pairwise fun first second => stamp first ≤ stamp second) {last value : β}
    (found : values.getLast? = some last) (member : value ∈ values) : stamp value ≤ stamp last := by
  obtain ⟨before, rfl⟩ := List.getLast?_eq_some_iff.mp found
  rcases List.mem_append.mp member with earlier | same
  · exact (List.pairwise_append.mp sorted).2.2 value earlier last (List.mem_singleton_self _)
  · exact Int.le_of_eq (congrArg stamp (List.mem_singleton.mp same))

namespace Window

variable {α β : Type}

def Reaches (window : Window α β) (time : Int) : Prop :=
  ∃ record ∈ window.toList, time < record.stamp

def Since (window : Window α β) (time : Int) : Prop :=
  ∀ record ∈ window.toList, time ≤ record.stamp

theorem Reaches.earlier {window : Window α β} {time earlier : Int} (reaches : window.Reaches time)
    (before : earlier ≤ time) : window.Reaches earlier := by
  obtain ⟨record, member, later⟩ := reaches
  exact ⟨record, member, by omega⟩

namespace InOrder

variable {window : Window α β}

theorem isSome_queryAfter_iff (inOrder : window.InOrder) (time : Int) :
    (window.queryAfter time).isSome = true ↔ window.Reaches time := by
  rw [inOrder.queryAfter_eq_find?, List.find?_isSome]
  simp only [decide_eq_true_eq]
  rfl

theorem since_evict (inOrder : window.InOrder) (now : Int) : (window.evict now).1.Since now := by
  intro record member
  rw [inOrder.evict_toList] at member
  exact of_decide_eq_true (List.mem_filter.mp member).2

theorem oldest_le (inOrder : window.InOrder) {oldest record : Stamped β}
    (first : window.toList.head? = some oldest) (member : record ∈ window.toList) :
    oldest.stamp ≤ record.stamp := by
  obtain ⟨rest, listed⟩ := List.head?_eq_some_iff.mp first
  have sorted := inOrder.sorted
  rw [listed] at sorted member
  rcases List.mem_cons.mp member with rfl | later
  · exact Int.le_refl _
  · exact (List.pairwise_cons.mp sorted).1 record later

theorem reaches_of_isReady (inOrder : window.InOrder) (ready : window.isReady = true) {time : Int}
    (since : window.Since time) : window.Reaches (time + window.span) := by
  obtain ⟨oldest, newest, first, last, spread⟩ := inOrder.isReady_iff.mp ready
  have old := since oldest (List.mem_of_mem_head? first)
  exact ⟨newest, List.mem_of_mem_getLast? last, by omega⟩

theorem isReady_of_mem (inOrder : window.InOrder) {early late : Stamped β}
    (member : early ∈ window.toList) (member' : late ∈ window.toList)
    (spread : (window.span : Int) < late.stamp - early.stamp) : window.isReady = true := by
  have some : window.toList ≠ [] := List.ne_nil_of_mem member
  have first := List.head?_eq_some_head some
  have last := List.getLast?_eq_some_getLast some
  have lower := inOrder.oldest_le first member
  have upper := le_getLast_of_pairwise inOrder.sorted last member'
  exact inOrder.isReady_iff.mpr ⟨_, _, first, last, by omega⟩

end InOrder

end Window

end ManeuverRanking
