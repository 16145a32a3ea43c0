import Mathlib.Algebra.Order.ToIntervalMod

/-! # Arcs of a circle

A line on which the points a multiple of `p` apart are taken as one is a circle of circumference `p`. The arc
from `a` to `c` has the points that one meets from `a` upwards until one first meets `c`, so that the arc from a
point to itself is that point alone. -/

namespace Arcs

section Circle
variable {α : Type*} [AddCommGroup α] [LinearOrder α] [IsOrderedAddMonoid α] [Archimedean α] {p : α} (hp : 0 < p)

/-- How far up it is from `a` until one meets `b`. -/
noncomputable def distance (a b : α) : α := toIcoMod hp 0 (b - a)

def arc (a c : α) : Set α := {b | distance hp a b ≤ distance hp a c}

variable {o a b c : α}

/-- The distance is less than a turn, and it leads to `b`, however many turns away. -/
theorem distance_eq_iff {d : α} : distance hp a b = d ↔ (0 ≤ d ∧ d < p) ∧ ∃ z : ℤ, b = a + d + z • p := by
  rw [distance, toIcoMod_eq_iff, Set.mem_Ico, zero_add]
  refine and_congr_right fun _ => exists_congr fun z => ?_
  rw [sub_eq_iff_eq_add', add_assoc]

/-- Within one turn from `o`, a point below `a` is met only after the end of the turn. -/
theorem distance_eq (ha : a ∈ Set.Ico o (o + p)) (hb : b ∈ Set.Ico o (o + p)) :
    distance hp a b = if b < a then b - a + p else b - a := by
  obtain ⟨hoa, hap⟩ := ha
  obtain ⟨hob, hbp⟩ := hb
  split
  · rename_i hba
    have hlow : a ≤ b + p := hap.le.trans (add_le_add_left hob p)
    refine (distance_eq_iff hp).mpr ⟨by grind, -1, ?_⟩
    rw [neg_one_zsmul]
    abel
  · rename_i hba
    have hhigh : b < a + p := hbp.trans_le (add_le_add_left hoa p)
    refine (distance_eq_iff hp).mpr ⟨by grind, 0, ?_⟩
    rw [zero_zsmul]
    abel

/-- An arc within one turn is an interval, or what lies outside one. -/
theorem mem_arc_iff (ha : a ∈ Set.Ico o (o + p)) (hb : b ∈ Set.Ico o (o + p)) (hc : c ∈ Set.Ico o (o + p)) :
    b ∈ arc hp a c ↔ if c < a then a ≤ b ∨ b ≤ c else a ≤ b ∧ b ≤ c := by
  show distance hp a b ≤ distance hp a c ↔ _
  rw [distance_eq hp ha hb, distance_eq hp ha hc]
  have hbc : b < c + p := hb.2.trans_le (add_le_add_left hc.1 p)
  have hcb : c < b + p := hc.2.trans_le (add_le_add_left hb.1 p)
  split <;> split <;> grind

end Circle

section Integers
variable {n : ℤ} (hn : 0 < n) (a b c : ℤ)

theorem distance_int : distance hn a b = (b - a) % n := by
  refine (distance_eq_iff hn).mpr ⟨⟨Int.emod_nonneg _ hn.ne', Int.emod_lt_of_pos _ hn⟩, (b - a) / n, ?_⟩
  have hdiv := Int.emod_add_ediv_mul (b - a) n
  rw [smul_eq_mul]
  omega

theorem mem_arc_int : b ∈ arc hn a c ↔ (b - a) % n ≤ (c - a) % n := by
  show distance hn a b ≤ distance hn a c ↔ _
  rw [distance_int, distance_int]

end Integers

end Arcs
