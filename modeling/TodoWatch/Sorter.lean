import TodoWatch.Entity
import TodoWatch.Lib.Stability
import Mathlib.Algebra.Order.Ring.Rat

/-! # Scoring and sorting of items

The `mapper` package and `TodoSorter`. Both mappers scan a map of the user for the first range that
holds the current value and read its key as an enum constant; the score of an item compares its place
and time with the result. The weights are decimals in the source, where all sums that are equal as
rationals are equal as `double`s too (0.2 + 0.3 is 0.5), so a score is an exact rational here. -/

namespace TodoWatch

/-! ### Mappers -/

/-- The scan of both mappers: the first entry that is `within` decides, and its key is read by `valueOf`. -/
def mapToContext {ρ β : Type} (within : ρ → Bool) (valueOf : String → Except JavaException β) (general : β)
    (map : Entries ρ) : Except JavaException β :=
  match map.find? fun entry => within entry.2 with
  | some entry => valueOf (toUpperCase entry.1)
  | none => .ok general

def mapLocationToPlace (locationMap : Entries LocationRange) (latitude longitude : ℚ) :
    Except JavaException Place :=
  mapToContext (·.isWithinRange latitude longitude) Place.valueOf .general locationMap

def mapTimeToContext (timeMap : Entries TimeRange) (currentTimeMillis zone : Int) : Except JavaException Time :=
  mapToContext (·.isWithinRange currentTimeMillis zone) Time.valueOf .general timeMap

section Mapper
variable {ρ β : Type} {within : ρ → Bool} {valueOf : String → Except JavaException β} {general : β}
  {map : Entries ρ}

theorem mapToContext_ok (h : ∀ e ∈ map, within e.2 = true → ∃ b, valueOf (toUpperCase e.1) = .ok b) :
    ∃ b, mapToContext within valueOf general map = .ok b := by
  unfold mapToContext
  cases hf : map.find? fun entry => within entry.2 with
  | none => exact ⟨general, rfl⟩
  | some e => exact h e (List.mem_of_find?_eq_some hf) (by simpa using List.find?_some hf)

/-- The only entry that matches decides, wherever the iteration meets it. -/
theorem mapToContext_of_unique {e : String × ρ} (he : e ∈ map) (hw : within e.2 = true)
    (huniq : ∀ e' ∈ map, within e'.2 = true → e' = e) :
    mapToContext within valueOf general map = valueOf (toUpperCase e.1) := by
  unfold mapToContext
  cases hf : map.find? fun entry => within entry.2 with
  | none => exact absurd hw (by simpa using List.find?_eq_none.mp hf e he)
  | some e' =>
    obtain rfl := huniq e' (List.mem_of_find?_eq_some hf) (by simpa using List.find?_some hf)
    rfl

end Mapper

/-! ### Scores -/

def priorityWeight : ℚ := 0.5
def placeWeight : ℚ := 0.2
def timeWeight : ℚ := 0.3

/-- `TodoSorter.getItemScore`. The mappers run for every item, after its priority is scored. -/
def getItemScore (item : TodoItem) (user : User) (lat lng : ℚ) (time zone : Int) : Except JavaException ℚ := do
  let priorityScore : ℚ := match item.priority with
    | .medium => 0.5
    | .high => 1.0
    | .low => 0
  let curPlace ← mapLocationToPlace user.locationMap lat lng
  let placeScore : ℚ := if curPlace = item.place then 1 else 0
  let curTime ← mapTimeToContext user.timeMap time zone
  let timeScore : ℚ := if curTime = item.time then 1 else 0
  return priorityWeight * priorityScore + placeWeight * placeScore + timeWeight * timeScore

/-- `TodoSorter.sortNotDoneItems`: higher scores at the front, by a stable sort on the negated score. -/
def sortNotDoneItems (notDoneItems : List TodoItem) (user : User) (lat lng : ℚ) (time zone : Int) :
    Except JavaException (List TodoItem) :=
  Sorting.sortByKey (fun item => (getItemScore item user lat lng time zone).map (-·)) notDoneItems

/-- Scoring does not throw at this place and time, whatever the item. -/
def ScoringOk (user : User) (lat lng : ℚ) (time zone : Int) : Prop :=
  (∃ place, mapLocationToPlace user.locationMap lat lng = .ok place) ∧
    ∃ context, mapTimeToContext user.timeMap time zone = .ok context

section Scores
variable {item : TodoItem} {items : List TodoItem} {user : User} {lat lng : ℚ} {time zone : Int}

/-- Items that are sorted with their positions are sorted. -/
theorem sortNotDoneItems_map_fst (l : List (TodoItem × Nat)) :
    sortNotDoneItems (l.map Prod.fst) user lat lng time zone =
      (Sorting.sortByKey (fun item : TodoItem × Nat => (getItemScore item.1 user lat lng time zone).map (-·)) l).map
        (List.map Prod.fst) :=
  Sorting.sortByKey_map l

/-- The score of one item shows that every item has one. -/
theorem scoringOk_of_score {score : ℚ} (h : getItemScore item user lat lng time zone = .ok score) :
    ScoringOk user lat lng time zone := by
  unfold getItemScore at h
  cases hp : mapLocationToPlace user.locationMap lat lng with
  | error e =>
    rw [hp] at h
    cases h
  | ok place =>
    cases ht : mapTimeToContext user.timeMap time zone with
    | error e =>
      rw [hp, ht] at h
      cases h
    | ok context => exact ⟨⟨place, hp⟩, context, ht⟩

theorem scoringOk_iff : ScoringOk user lat lng time zone ↔
    ∀ item, ∃ score, getItemScore item user lat lng time zone = .ok score := by
  constructor
  · rintro ⟨⟨place, hp⟩, context, ht⟩ item
    exact ⟨_, by rw [getItemScore, hp, ht]; rfl⟩
  · intro h
    obtain ⟨score, hs⟩ := h (.ofTitle "")
    exact scoringOk_of_score hs

theorem sortNotDoneItems_of_score {score : TodoItem → ℚ}
    (h : ∀ item ∈ items, getItemScore item user lat lng time zone = .ok (score item)) :
    sortNotDoneItems items user lat lng time zone = .ok (items.insertionSort fun x y => -score x ≤ -score y) :=
  Sorting.sortByKey_of_ok (f := fun item => -score item) fun item hi => by rw [h item hi]; rfl

theorem getItemScore_of_time_error {e : JavaException} {place : Place}
    (hp : mapLocationToPlace user.locationMap lat lng = .ok place)
    (ht : mapTimeToContext user.timeMap time zone = .error e) :
    getItemScore item user lat lng time zone = .error e := by
  unfold getItemScore
  rw [hp, ht]
  rfl

theorem sortNotDoneItems_of_scoringOk (h : ScoringOk user lat lng time zone) :
    ∃ sorted, sortNotDoneItems items user lat lng time zone = .ok sorted := by
  choose score hscore using scoringOk_iff.mp h
  exact ⟨_, sortNotDoneItems_of_score fun item _ => hscore item⟩

theorem sortNotDoneItems_of_length_lt (h : items.length < 2) :
    sortNotDoneItems items user lat lng time zone = .ok items := Sorting.sortByKey_of_length_lt h

theorem sortNotDoneItems_of_time_error {e : JavaException} {place : Place}
    (hp : mapLocationToPlace user.locationMap lat lng = .ok place)
    (ht : mapTimeToContext user.timeMap time zone = .error e) (hl : 2 ≤ items.length) :
    sortNotDoneItems items user lat lng time zone = .error e :=
  Sorting.sortByKey_of_error (fun item _ => by rw [getItemScore_of_time_error hp ht]; rfl) hl

end Scores

end TodoWatch
