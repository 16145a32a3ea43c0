import TodoWatch.MainActivity
import TodoWatch.Sorter

/-! # When ranking throws

For the user that `createUser` builds, every place key is the name of a `Place`, and every time key but
`before_working` is the name of a `Time`: the enum calls that slot `BEFORE_WORK`. So ranking throws
exactly when it compares items between 7:00 and 8:59. -/

namespace TodoWatch
namespace RankingSafety

variable {u : User} {uuid : String} {lat lng : ℚ} {time zone : Int}

/-! ### The maps of the built user -/

theorem mem_locationMap (hu : (createUser none uuid).1.Iterates u) {e : String × LocationRange}
    (he : e ∈ u.locationMap) : e.1 = "home" ∨ e.1 = "school" ∨ e.1 = "store" := by
  have h := hu.locationMap.mem_iff.mp he
  simp only [createUser, UserPrefs.getUser, Entries.put] at h
  simp at h
  rcases h with rfl | rfl | rfl <;> simp

theorem mem_timeMap (hu : (createUser none uuid).1.Iterates u) {e : String × TimeRange} :
    e ∈ u.timeMap ↔ e = ("before_working", ⟨7, 0, 8, 59⟩) ∨ e = ("working", ⟨9, 0, 16, 59⟩) ∨
      e = ("rest", ⟨17, 0, 22, 59⟩) ∨ e = ("sleep", ⟨23, 0, 6, 59⟩) := by
  rw [hu.timeMap.mem_iff]
  simp [createUser, UserPrefs.getUser, Entries.put]

theorem place_valueOf (hu : (createUser none uuid).1.Iterates u) {e : String × LocationRange}
    (he : e ∈ u.locationMap) : ∃ place, Place.valueOf (toUpperCase e.1) = .ok place := by
  rcases mem_locationMap hu he with h | h | h <;> rw [h]
  · exact ⟨.home, by decide +kernel⟩
  · exact ⟨.school, by decide +kernel⟩
  · exact ⟨.store, by decide +kernel⟩

theorem time_valueOf (hu : (createUser none uuid).1.Iterates u) {e : String × TimeRange} (he : e ∈ u.timeMap)
    (hne : e ≠ ("before_working", ⟨7, 0, 8, 59⟩)) : ∃ context, Time.valueOf (toUpperCase e.1) = .ok context := by
  rcases (mem_timeMap hu).mp he with h | rfl | rfl | rfl
  · exact absurd h hne
  · exact ⟨.working, by decide +kernel⟩
  · exact ⟨.rest, by decide +kernel⟩
  · exact ⟨.sleep, by decide +kernel⟩

/-! ### The slots -/

theorem within_beforeWorking : (⟨7, 0, 8, 59⟩ : TimeRange).isWithinRange time zone = true ↔
    420 ≤ minuteOfDay time zone ∧ minuteOfDay time zone ≤ 539 := by
  rw [TimeRange.isWithinRange_iff]
  simp [toInt, Int.bmod]

theorem within_working : (⟨9, 0, 16, 59⟩ : TimeRange).isWithinRange time zone = true ↔
    540 ≤ minuteOfDay time zone ∧ minuteOfDay time zone ≤ 1019 := by
  rw [TimeRange.isWithinRange_iff]
  simp [toInt, Int.bmod]

theorem within_rest : (⟨17, 0, 22, 59⟩ : TimeRange).isWithinRange time zone = true ↔
    1020 ≤ minuteOfDay time zone ∧ minuteOfDay time zone ≤ 1379 := by
  rw [TimeRange.isWithinRange_iff]
  simp [toInt, Int.bmod]

theorem within_sleep : (⟨23, 0, 6, 59⟩ : TimeRange).isWithinRange time zone = true ↔
    1380 ≤ minuteOfDay time zone ∨ minuteOfDay time zone ≤ 419 := by
  rw [TimeRange.isWithinRange_iff]
  simp [toInt, Int.bmod]

theorem eq_beforeWorking (hu : (createUser none uuid).1.Iterates u)
    (hm : 420 ≤ minuteOfDay time zone ∧ minuteOfDay time zone ≤ 539) {e : String × TimeRange}
    (he : e ∈ u.timeMap) (hw : e.2.isWithinRange time zone = true) : e = ("before_working", ⟨7, 0, 8, 59⟩) := by
  rcases (mem_timeMap hu).mp he with h | rfl | rfl | rfl
  · exact h
  · have := within_working.mp hw
    omega
  · have := within_rest.mp hw
    omega
  · have := within_sleep.mp hw
    omega

/-! ### The two mappers -/

theorem mapLocationToPlace_ok (hu : (createUser none uuid).1.Iterates u) (lat lng : ℚ) :
    ∃ place, mapLocationToPlace u.locationMap lat lng = .ok place :=
  mapToContext_ok fun _ he _ => place_valueOf hu he

theorem mapTimeToContext_ok (hu : (createUser none uuid).1.Iterates u)
    (hm : ¬(420 ≤ minuteOfDay time zone ∧ minuteOfDay time zone ≤ 539)) :
    ∃ context, mapTimeToContext u.timeMap time zone = .ok context :=
  mapToContext_ok fun e he hw => time_valueOf hu he fun h => by
    subst h
    exact hm (within_beforeWorking.mp hw)

theorem mapTimeToContext_error (hu : (createUser none uuid).1.Iterates u)
    (hm : 420 ≤ minuteOfDay time zone ∧ minuteOfDay time zone ≤ 539) :
    mapTimeToContext u.timeMap time zone =
      .error (.illegalArgument "No enum constant com.example.wearos_gui.entity.Time.BEFORE_WORKING") := by
  have he : ("before_working", (⟨7, 0, 8, 59⟩ : TimeRange)) ∈ u.timeMap := (mem_timeMap hu).mpr (Or.inl rfl)
  unfold mapTimeToContext
  rw [mapToContext_of_unique he (within_beforeWorking.mpr hm) fun e' he' hw => eq_beforeWorking hu hm he' hw]
  decide

theorem iterates_refl (u : User) : u.Iterates u := ⟨rfl, rfl, .refl _, .refl _⟩

end RankingSafety

open RankingSafety

/-- For the built user, whatever the iteration order of its maps, the sort ends without an exception
    exactly for fewer than two items or outside 7:00 to 8:59, and every matching key names a constant
    exactly outside 7:00 to 8:59. -/
theorem sortNotDoneItems_createUser_iff {u : User} {uuid : String} (hu : (createUser none uuid).1.Iterates u)
    (items : List TodoItem) (lat lng : ℚ) (time zone : Int) :
    ((∃ sorted, sortNotDoneItems items u lat lng time zone = .ok sorted) ↔
        items.length < 2 ∨ ¬(420 ≤ minuteOfDay time zone ∧ minuteOfDay time zone ≤ 539)) ∧
      (((∀ e ∈ u.locationMap, e.2.isWithinRange lat lng = true →
            ∃ place, Place.valueOf (toUpperCase e.1) = .ok place) ∧
          ∀ e ∈ u.timeMap, e.2.isWithinRange time zone = true →
            ∃ context, Time.valueOf (toUpperCase e.1) = .ok context) ↔
        ¬(420 ≤ minuteOfDay time zone ∧ minuteOfDay time zone ≤ 539)) := by
  obtain ⟨place, hplace⟩ := mapLocationToPlace_ok hu lat lng
  refine ⟨⟨fun ⟨sorted, hs⟩ => ?_, ?_⟩, ⟨fun ⟨_, htime⟩ hm => ?_, fun hm => ⟨?_, ?_⟩⟩⟩
  · by_cases hl : items.length < 2
    · exact Or.inl hl
    · refine Or.inr fun hm => ?_
      rw [sortNotDoneItems_of_time_error hplace (mapTimeToContext_error hu hm) (by omega)] at hs
      cases hs
  · rintro (hl | hm)
    · exact ⟨items, sortNotDoneItems_of_length_lt hl⟩
    · exact sortNotDoneItems_of_scoringOk ⟨⟨place, hplace⟩, mapTimeToContext_ok hu hm⟩
  · obtain ⟨context, hc⟩ := htime _ ((mem_timeMap hu).mpr (Or.inl rfl)) (within_beforeWorking.mpr hm)
    have herr : Time.valueOf (toUpperCase "before_working") =
      .error (.illegalArgument "No enum constant com.example.wearos_gui.entity.Time.BEFORE_WORKING") := by decide +kernel
    rw [herr] at hc
    cases hc
  · exact fun e he _ => place_valueOf hu he
  · exact fun e he hw => time_valueOf hu he fun h => hm (by subst h; exact within_beforeWorking.mp hw)

/-- At noon the sort of two items ends, for the maps in the order in which `createUser` fills them. -/
theorem sortNotDoneItems_createUser_noon :
    ∃ sorted, sortNotDoneItems [.ofTitle "Buy groceries", .ofTitle "Buy battery"]
      (createUser none "42").1 32.88 (-117.23) 43200000 0 = .ok sorted :=
  (sortNotDoneItems_createUser_iff (iterates_refl _) _ _ _ _ _).1.mpr (Or.inr (by decide))

/-- At 7:30 the sort of two items throws: `before_working` names no constant. -/
theorem sortNotDoneItems_createUser_throws :
    sortNotDoneItems [.ofTitle "Buy groceries", .ofTitle "Buy battery"]
        (createUser none "42").1 32.88 (-117.23) 27000000 0 =
      .error (.illegalArgument "No enum constant com.example.wearos_gui.entity.Time.BEFORE_WORKING") := by
  decide +kernel

end TodoWatch
