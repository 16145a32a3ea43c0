import TodoWatch.Lib.Stability
import TodoWatch.MainActivity
import TodoWatch.Sorter

/-! # Is ranking monotone?

Items are sorted by reference, so the rank of an item is that of its position in the list. An item that scores
more comes before at least the items that it came before, and the others compare as they did. -/

namespace TodoWatch

/-- `ordinal`, the place of the constant in its enum. -/
def Priority.ordinal : Priority → Nat
  | low => 0
  | medium => 1
  | high => 2

/-- The second item is the first with a higher priority, or at the current place or time where the first was not. -/
inductive Improves (place : Place) (context : Time) : TodoItem → TodoItem → Prop
  | priority (item : TodoItem) (priority : Priority) (h : item.priority.ordinal < priority.ordinal) :
      Improves place context item { item with priority }
  | place (item : TodoItem) (h : item.place ≠ place) : Improves place context item { item with place }
  | time (item : TodoItem) (h : item.time ≠ context) : Improves place context item { item with time := context }

/-- The positions of the items in the order that `sortNotDoneItems` gives them. -/
def ranking (items : List TodoItem) (user : User) (lat lng : ℚ) (time zone : Int) : Except JavaException (List Nat) :=
  (Sorting.sortByKey (fun item : TodoItem × Nat => (getItemScore item.1 user lat lng time zone).map (-·))
    items.zipIdx).map (List.map Prod.snd)

section Ranking
variable {items : List TodoItem} {item item' : TodoItem} {user : User} {lat lng : ℚ} {time zone : Int}
  {place : Place} {context : Time}

theorem sortNotDoneItems_eq_ranking : sortNotDoneItems items user lat lng time zone =
    (ranking items user lat lng time zone).map (List.filterMap (items[·]?)) := by
  have hmap := @sortNotDoneItems_map_fst user lat lng time zone items.zipIdx
  rw [List.zipIdx_map_fst] at hmap
  rw [hmap, ranking]
  cases hsorted : Sorting.sortByKey (fun item : TodoItem × Nat =>
      (getItemScore item.1 user lat lng time zone).map (-·)) items.zipIdx with
  | error e => rfl
  | ok sorted =>
    refine congrArg Except.ok ?_
    rw [List.filterMap_map, ← List.filterMap_eq_map]
    refine List.filterMap_congr fun x hx => ?_
    have hmem := (Sorting.perm_of_sortByKey hsorted).mem_iff.mp hx
    exact (List.mem_zipIdx_iff_getElem?.mp hmem).symm

/-! ### Scores -/

def priorityScore : Priority → ℚ
  | .medium => 0.5
  | .high => 1.0
  | .low => 0

def scoreIn (place : Place) (context : Time) (item : TodoItem) : ℚ :=
  priorityWeight * priorityScore item.priority + placeWeight * (if place = item.place then 1 else 0) +
    timeWeight * (if context = item.time then 1 else 0)

theorem getItemScore_eq (hplace : mapLocationToPlace user.locationMap lat lng = .ok place)
    (htime : mapTimeToContext user.timeMap time zone = .ok context) (item : TodoItem) :
    getItemScore item user lat lng time zone = .ok (scoreIn place context item) := by
  rw [getItemScore, hplace, htime]
  rfl

theorem priorityScore_le {p p' : Priority} (h : p.ordinal < p'.ordinal) : priorityScore p ≤ priorityScore p' := by
  cases p <;> cases p' <;> first | exact absurd h (by decide) | exact of_decide_eq_true (by decide +kernel)

theorem indicator_le_one {p : Prop} [Decidable p] : (if p then (1 : ℚ) else 0) ≤ 1 := by
  split
  · exact le_refl 1
  · exact zero_le_one

theorem Improves.score_le (h : Improves place context item item') :
    scoreIn place context item ≤ scoreIn place context item' := by
  have hpriority : 0 ≤ priorityWeight := by decide +kernel
  have hplace : 0 ≤ placeWeight := by decide +kernel
  have htime : 0 ≤ timeWeight := by decide +kernel
  unfold scoreIn
  cases h with
  | priority p h => gcongr; exact priorityScore_le h
  | place h =>
    gcongr
    rw [if_pos rfl]
    exact indicator_le_one
  | time h =>
    gcongr
    rw [if_pos rfl]
    exact indicator_le_one

/-! ### Ranks -/

/-- The key of a position: what the sort compares for the item there. -/
def keyAt (place : Place) (context : Time) (items : List TodoItem) (i : Nat) : ℚ :=
  (items[i]?).elim 0 fun item => -scoreIn place context item

theorem ranking_eq (hplace : mapLocationToPlace user.locationMap lat lng = .ok place)
    (htime : mapTimeToContext user.timeMap time zone = .ok context) (items : List TodoItem) :
    ranking items user lat lng time zone = .ok ((List.range items.length).insertionSort fun i j =>
      keyAt place context items i ≤ keyAt place context items j) := by
  have hsorted := @Sorting.sortByKey_of_ok _ _ _ _ _
    (fun item : TodoItem × Nat => (getItemScore item.1 user lat lng time zone).map (-·))
    (fun item => -scoreIn place context item.1) items.zipIdx fun item _ => by rw [getItemScore_eq hplace htime]; rfl
  have hkey : ∀ x ∈ items.zipIdx, keyAt place context items x.2 = -scoreIn place context x.1 := fun x hx => by
    rw [keyAt, List.mem_zipIdx_iff_getElem?.mp hx]
    rfl
  have hmap := List.map_insertionSort
    (fun x y : TodoItem × Nat => -scoreIn place context x.1 ≤ -scoreIn place context y.1)
    (fun i j => keyAt place context items i ≤ keyAt place context items j) Prod.snd items.zipIdx
    fun x hx y hy => by rw [hkey x hx, hkey y hy]
  rw [ranking, hsorted, List.range_eq_range', ← List.zipIdx_map_snd, ← hmap]
  rfl

end Ranking

/-- An item that improves does not fall in rank, and the other items keep their order. -/
theorem ranking_improves {items : List TodoItem} {i : Nat} {item item' : TodoItem} {user : User} {lat lng : ℚ}
    {time zone : Int} {place : Place} {context : Time} (hi : items[i]? = some item)
    (hplace : mapLocationToPlace user.locationMap lat lng = .ok place)
    (htime : mapTimeToContext user.timeMap time zone = .ok context) (himproves : Improves place context item item') :
    ∃ before after : List Nat,
      ranking items user lat lng time zone = .ok before ∧
      sortNotDoneItems items user lat lng time zone = .ok (before.filterMap (items[·]?)) ∧
      ranking (items.set i item') user lat lng time zone = .ok after ∧
      sortNotDoneItems (items.set i item') user lat lng time zone = .ok (after.filterMap ((items.set i item')[·]?)) ∧
      after.idxOf i ≤ before.idxOf i ∧ after.filter (· ≠ i) = before.filter (· ≠ i) := by
  have hlt := (List.getElem?_eq_some_iff.mp hi).1
  have hbefore := ranking_eq hplace htime items
  have hafter := ranking_eq hplace htime (items.set i item')
  rw [List.length_set] at hafter
  have hsame : ∀ j, j ≠ i → keyAt place context (items.set i item') j = keyAt place context items j := by
    intro j hj
    rw [keyAt, List.getElem?_set_ne (Ne.symm hj), keyAt]
  have hle : keyAt place context (items.set i item') i ≤ keyAt place context items i := by
    rw [keyAt, List.getElem?_set_self hlt, keyAt, hi]
    exact neg_le_neg himproves.score_le
  refine ⟨_, _, hbefore, by rw [sortNotDoneItems_eq_ranking, hbefore]; rfl, hafter,
    by rw [sortNotDoneItems_eq_ranking, hafter]; rfl, ?_, Sorting.filter_ne_insertionSort hsame⟩
  exact Sorting.idxOf_insertionSort_le (s := (· < ·)) (fun _ _ => lt_asymm) List.pairwise_lt_range
    (List.mem_range.mpr hlt) hle hsame

/-- At noon at school, the second of two equal items gets a high priority and comes first. -/
theorem ranking_improves_noon :
    let items : List TodoItem := [.ofTitle "Buy groceries", .ofTitle "Buy battery"]
    let urgent : TodoItem := { TodoItem.ofTitle "Buy battery" with priority := .high }
    ∃ before after : List Nat,
      ranking items (createUser none "42").1 32.88 (-117.23) 43200000 0 = .ok before ∧
      ranking (items.set 1 urgent) (createUser none "42").1 32.88 (-117.23) 43200000 0 = .ok after ∧
      after.idxOf 1 ≤ before.idxOf 1 ∧ after.filter (· ≠ 1) = before.filter (· ≠ 1) ∧
      before = [0, 1] ∧ after = [1, 0] := by
  intro items urgent
  obtain ⟨before, after, hbefore, -, hafter, -, hrank, hothers⟩ := @ranking_improves items 1 (.ofTitle "Buy battery") urgent
    (createUser none "42").1 32.88 (-117.23) 43200000 0 .school .working rfl (by decide +kernel) (by decide +kernel)
    (.priority (.ofTitle "Buy battery") .high (by decide))
  have hequal : ranking items (createUser none "42").1 32.88 (-117.23) 43200000 0 = .ok [0, 1] := by decide +kernel
  have hurgent : ranking (items.set 1 urgent) (createUser none "42").1 32.88 (-117.23) 43200000 0 = .ok [1, 0] := by
    decide +kernel
  exact ⟨before, after, hbefore, hafter, hrank, hothers, Except.ok.inj (hbefore.symm.trans hequal),
    Except.ok.inj (hafter.symm.trans hurgent)⟩

end TodoWatch
