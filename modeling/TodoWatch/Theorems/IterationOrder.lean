import TodoWatch.Theorems.DailySchedule
import Mathlib.Data.List.Pairwise

/-! # Does ranking depend on the order of the maps?

A `HashMap` iterates in one order, and the map that Gson restores in another. Where no two ranges of a map
overlap, at most one entry matches, so both orders find it. -/

namespace TodoWatch

/-- No point is in both rectangles. -/
def LocationRange.Disjoint (r r' : LocationRange) : Prop :=
  ∀ lat lng, ¬(r.isWithinRange lat lng = true ∧ r'.isWithinRange lat lng = true)

/-- No instant is in both ranges. -/
def TimeRange.Disjoint (r r' : TimeRange) : Prop :=
  ∀ now zone, ¬(r.isWithinRange now zone = true ∧ r'.isWithinRange now zone = true)

structure User.Disjoint (u : User) : Prop where
  locations : u.locationMap.Pairwise fun e e' => e.2.Disjoint e'.2
  times : u.timeMap.Pairwise fun e e' => e.2.Disjoint e'.2

namespace IterationOrder

section Mapper
variable {ρ β : Type} {within : ρ → Bool} {valueOf : String → Except JavaException β} {general : β}
  {map map' : Entries ρ}

theorem mapToContext_perm (hperm : map'.Perm map)
    (hdisjoint : map.Pairwise fun e e' => ¬(within e.2 = true ∧ within e'.2 = true)) :
    mapToContext within valueOf general map' = mapToContext within valueOf general map := by
  by_cases h : ∃ e ∈ map, within e.2 = true
  · obtain ⟨e, he, hw⟩ := h
    have huniq : ∀ e' ∈ map, within e'.2 = true → e' = e := by
      intro e' he' hw'
      by_contra hne
      have hsymm : Std.Symm fun e e' : String × ρ => ¬(within e.2 = true ∧ within e'.2 = true) :=
        ⟨fun _ _ hnot hboth => hnot hboth.symm⟩
      exact hdisjoint.forall he' he hne ⟨hw', hw⟩
    rw [mapToContext_of_unique he hw huniq, mapToContext_of_unique (hperm.mem_iff.mpr he) hw fun e' he' =>
      huniq e' (hperm.mem_iff.mp he')]
  · have hnone : ∀ e ∈ map, ¬within e.2 = true := fun e he hw => h ⟨e, he, hw⟩
    have hfind : map.find? (fun entry => within entry.2) = none := List.find?_eq_none.mpr hnone
    have hfind' : map'.find? (fun entry => within entry.2) = none :=
      List.find?_eq_none.mpr fun e he => hnone e (hperm.mem_iff.mp he)
    rw [mapToContext, mapToContext, hfind, hfind']

end Mapper

variable {u v : User} {item : TodoItem} {lat lng : ℚ} {time zone : Int}

theorem getItemScore_iterates (hdisjoint : u.Disjoint) (hv : u.Iterates v) :
    getItemScore item v lat lng time zone = getItemScore item u lat lng time zone := by
  have hplace : mapLocationToPlace v.locationMap lat lng = mapLocationToPlace u.locationMap lat lng :=
    mapToContext_perm hv.locationMap (hdisjoint.locations.imp fun h => h lat lng)
  have htime : mapTimeToContext v.timeMap time zone = mapTimeToContext u.timeMap time zone :=
    mapToContext_perm hv.timeMap (hdisjoint.times.imp fun h => h time zone)
  rw [getItemScore, hplace, htime]
  rfl

/-! ### The user of the activity -/

theorem disjoint_schedule {starts : List Nat} (hne : starts ≠ []) (hinc : starts.Pairwise (· < ·))
    (hday : ∀ n ∈ starts, n < 1440) : (Schedule.schedule starts).Pairwise TimeRange.Disjoint := by
  refine List.pairwise_iff_forall_sublist.mpr fun {r r'} hsub now zone ⟨hr, hr'⟩ => ?_
  -- Both would count.
  have hle := hsub.countP_le (p := (·.isWithinRange now zone))
  rw [@Schedule.countP_schedule now zone starts hne hinc hday] at hle
  simp [hr, hr'] at hle

theorem disjoint_of_longitude {r r' : LocationRange}
    (h : r.maxLongitude < r'.minLongitude ∨ r'.maxLongitude < r.minLongitude) : r.Disjoint r' := by
  intro lat lng ⟨hr, hr'⟩
  simp only [LocationRange.isWithinRange, Bool.and_eq_true, decide_eq_true_eq] at hr hr'
  rcases h with h | h
  · exact absurd (hr'.1.2.trans hr.2) (not_le_of_gt h)
  · exact absurd (hr.1.2.trans hr'.2) (not_le_of_gt h)

theorem disjoint_createUser (uuid : String) : (createUser none uuid).1.Disjoint where
  locations := by
    have hfar : (createUser none "").1.locationMap.Pairwise fun e e' =>
        e.2.maxLongitude < e'.2.minLongitude ∨ e'.2.maxLongitude < e.2.minLongitude := by decide +kernel
    exact hfar.imp disjoint_of_longitude
  times := by
    have h := @disjoint_schedule [420, 540, 1020, 1380] (by decide) (by decide) (by decide)
    rw [← Schedule.createUser_timeMap uuid] at h
    exact List.pairwise_map.mp h

end IterationOrder

open IterationOrder

/-- Where the ranges are disjoint, ranking gives the same list, or ends in the same exception, in whatever order the
    maps are iterated. -/
theorem sortNotDoneItems_iterates {u v : User} (hdisjoint : u.Disjoint) (hv : u.Iterates v) (items : List TodoItem)
    (lat lng : ℚ) (time zone : Int) :
    sortNotDoneItems items v lat lng time zone = sortNotDoneItems items u lat lng time zone := by
  have hscore : (fun item => getItemScore item v lat lng time zone) =
      fun item => getItemScore item u lat lng time zone :=
    funext fun item => getItemScore_iterates hdisjoint hv
  exact congrArg (fun score => Sorting.sortByKey (fun item => (score item).map (-·)) items) hscore

def restored : User :=
  { (createUser none "42").1 with
    locationMap := (createUser none "42").1.locationMap.reverse
    timeMap := (createUser none "42").1.timeMap.reverse }

/-- At noon at school the item for school comes first, whichever way the maps are iterated. -/
theorem sortNotDoneItems_restored :
    let items : List TodoItem := [⟨"Buy groceries", .low, .store, .working, false, ""⟩,
      ⟨"Submit next week's progress", .low, .school, .working, false, ""⟩]
    sortNotDoneItems items (createUser none "42").1 32.88 (-117.23) 43200000 0 = .ok items.reverse ∧
      sortNotDoneItems items restored 32.88 (-117.23) 43200000 0 = .ok items.reverse := by
  intro items
  have hrestored : (createUser none "42").1.Iterates restored :=
    ⟨rfl, rfl, List.reverse_perm _, List.reverse_perm _⟩
  have hsorted : sortNotDoneItems items (createUser none "42").1 32.88 (-117.23) 43200000 0 = .ok items.reverse := by
    decide +kernel
  exact ⟨hsorted, (sortNotDoneItems_iterates (disjoint_createUser "42") hrestored items _ _ _ _).trans hsorted⟩

end TodoWatch
