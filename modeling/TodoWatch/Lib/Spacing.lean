import Mathlib.Data.List.Perm.Subperm
import Mathlib.Data.List.Nodup

/-! # Recurrent events

Events of several sources, each source a period apart from itself. In a time as long as a period no source has two
events, so there are at most as many as sources, and exactly as many if none is missing. -/

namespace Spacing

variable {α : Type} (source time : α → Nat) (period : Nat)

/-- Events of one source are a period apart. -/
def Spaced (l : List α) : Prop := l.Pairwise fun a b => source a = source b → time a + period ≤ time b

/-- The events from `t` on, for a period. -/
def window (t : Nat) (l : List α) : List α := l.filter fun a => t ≤ time a ∧ time a < t + period

variable {source time period} {l : List α} {n t : Nat}

theorem mem_window {a : α} : a ∈ window time period t l ↔ a ∈ l ∧ t ≤ time a ∧ time a < t + period := by
  simp [window]

theorem nodup_window (h : Spaced source time period l) : ((window time period t l).map source).Nodup := by
  refine List.pairwise_map.mpr ((h.filter _).imp_of_mem fun {a b} ha hb hspaced heq => ?_)
  obtain ⟨-, hle, -⟩ := mem_window.mp ha
  obtain ⟨-, -, hlt⟩ := mem_window.mp hb
  have hapart := hspaced heq
  omega

theorem length_window_le (h : Spaced source time period l) (hsource : ∀ a ∈ l, source a < n) (t : Nat) :
    (window time period t l).length ≤ n := by
  have hsub : (window time period t l).map source ⊆ List.range n := fun i hi => by
    obtain ⟨a, ha, rfl⟩ := List.mem_map.mp hi
    exact List.mem_range.mpr (hsource a (mem_window.mp ha).1)
  have hle := ((nodup_window h).subperm hsub).length_le
  rwa [List.length_map, List.length_range] at hle

theorem le_length_window (h : ∀ i < n, ∃ a ∈ l, source a = i ∧ t ≤ time a ∧ time a < t + period) :
    n ≤ (window time period t l).length := by
  have hsub : List.range n ⊆ (window time period t l).map source := fun i hi => by
    obtain ⟨a, ha, hsource, hwithin⟩ := h i (List.mem_range.mp hi)
    exact List.mem_map.mpr ⟨a, mem_window.mpr ⟨ha, hwithin⟩, hsource⟩
  have hle := (List.nodup_range.subperm hsub).length_le
  rwa [List.length_map, List.length_range] at hle

end Spacing
