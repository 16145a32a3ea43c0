import TodoWatch.Lib.Stability
import TodoWatch.MainActivity
import TodoWatch.Screen

/-! # What does a tick do to the order?

A redraw sorts the open items of the list from the beginning. The list itself is never sorted, and the sort is
stable, so items that become done leave the order of the others alone, also among equal scores. -/

namespace TodoWatch
namespace TickOrder

variable {D : Nat → Bool} {items : List TodoItem} {s : Screen} {f : Nat} {fragment : FilteredTodoFragment}
  {zone : Int → Int}

/-- The list after the items at the positions `D` have become done. -/
def becomeDone (D : Nat → Bool) (items : List TodoItem) : List TodoItem :=
  items.mapIdx fun i item => if D i then item.setDone true else item

/-- The open items with their positions, as `renderTodoList` collects them. -/
def openItems (items : List TodoItem) : List (TodoItem × Nat) := items.zipIdx.filter fun item => !item.1.isDone

theorem zipIdx_becomeDone : (becomeDone D items).zipIdx =
    items.zipIdx.map fun item => (if D item.2 then item.1.setDone true else item.1, item.2) := by
  refine List.ext_getElem? fun i => ?_
  simp only [becomeDone, List.getElem?_zipIdx, List.getElem?_mapIdx, List.getElem?_map, Nat.zero_add]
  cases items[i]? <;> rfl

theorem openItems_becomeDone : openItems (becomeDone D items) = (openItems items).filter fun item => !D item.2 := by
  rw [openItems, zipIdx_becomeDone, List.filter_map, openItems, List.filter_filter]
  have hopen : (items.zipIdx.filter ((fun item : TodoItem × Nat => !item.1.isDone) ∘ fun item =>
      (if D item.2 then item.1.setDone true else item.1, item.2))) =
        items.zipIdx.filter fun item => !D item.2 && !item.1.isDone := by
    refine List.filter_congr fun item _ => ?_
    cases hD : D item.2 <;> simp [TodoItem.setDone, hD]
  rw [hopen]
  -- The items that stay open are the same items.
  refine (List.map_congr_left fun item hitem => ?_).trans (List.map_id _)
  have hD : D item.2 = false := by simpa using (Bool.and_eq_true_iff.mp (List.mem_filter.mp hitem).2).1
  simp [hD]

/-- A redraw that does not throw shows the open items sorted. -/
theorem renderTodoList_of_ok {sorted : List (TodoItem × Nat)}
    (h : Sorting.sortByKey (fun item : TodoItem × Nat => (getItemScore item.1 fragment.user fragment.lat fragment.lng
      fragment.time (zone fragment.time)).map (-·)) (openItems (s.items fragment.allTodoItems)) = .ok sorted) :
    ∃ view : TodoListView,
      Screen.renderTodoList zone f fragment s = ⟨s.setFragment f { fragment with view := some view }, none⟩ ∧
      view.notDone = sorted.map fun item => { item := item.2, isChecked := item.1.isDone } := by
  unfold Screen.renderTodoList
  dsimp only
  unfold openItems at h
  rw [h]
  exact ⟨_, rfl, rfl⟩

end TickOrder

open TickOrder

/-- A redraw shows the open items as `sortNotDoneItems` orders them. Items that become done disappear from these, and
    the others keep their order: taking items away commutes with `sortNotDoneItems`. -/
theorem renderTodoList_becomeDone (zone : Int → Int) (f : Nat) (fragment : FilteredTodoFragment) (s s' : Screen)
    (D : Nat → Bool) (view : Option TodoListView)
    (hscoring : ScoringOk fragment.user fragment.lat fragment.lng fragment.time (zone fragment.time))
    (hitems : s'.items fragment.allTodoItems = becomeDone D (s.items fragment.allTodoItems)) :
    (∃ (sorted : List (TodoItem × Nat)) (before after : TodoListView),
      sorted.Perm (openItems (s.items fragment.allTodoItems)) ∧
      sortNotDoneItems ((openItems (s.items fragment.allTodoItems)).map Prod.fst) fragment.user fragment.lat fragment.lng
        fragment.time (zone fragment.time) = .ok (sorted.map Prod.fst) ∧
      before.notDone = sorted.map (fun item => { item := item.2, isChecked := item.1.isDone }) ∧
      Screen.renderTodoList zone f fragment s = ⟨s.setFragment f { fragment with view := some before }, none⟩ ∧
      Screen.renderTodoList zone f { fragment with view } s' =
        ⟨s'.setFragment f { fragment with view := some after }, none⟩ ∧
      after.notDone = before.notDone.filter fun box => !D box.item) ∧
    ∀ (items : List TodoItem) (p : TodoItem → Bool),
      sortNotDoneItems (items.filter p) fragment.user fragment.lat fragment.lng fragment.time (zone fragment.time) =
        (sortNotDoneItems items fragment.user fragment.lat fragment.lng fragment.time (zone fragment.time)).map
          (List.filter p) := by
  choose score hscore using scoringOk_iff.mp hscoring
  have hkey : ∀ item : TodoItem, (getItemScore item fragment.user fragment.lat fragment.lng fragment.time
      (zone fragment.time)).map (-·) = .ok (-score item) := fun item => by rw [hscore item]; rfl
  refine ⟨?_, fun items p => Sorting.sortByKey_filter (fun item _ => hkey item) p⟩
  have hsorted := Sorting.sortByKey_of_ok (f := fun item : TodoItem × Nat => -score item.1)
    (l := openItems (s.items fragment.allTodoItems)) fun item _ => hkey item.1
  have hfiltered := Sorting.sortByKey_filter (f := fun item : TodoItem × Nat => -score item.1)
    (l := openItems (s.items fragment.allTodoItems)) (fun item _ => hkey item.1) fun item => !D item.2
  have hfirst := @sortNotDoneItems_map_fst fragment.user fragment.lat fragment.lng fragment.time (zone fragment.time)
    (openItems (s.items fragment.allTodoItems))
  rw [hsorted] at hfirst
  rw [hsorted, ← openItems_becomeDone, ← hitems] at hfiltered
  obtain ⟨before, hbefore, hboxes⟩ := @renderTodoList_of_ok s f fragment zone _ hsorted
  obtain ⟨after, hafter, hboxes'⟩ := @renderTodoList_of_ok s' f { fragment with view } zone _ hfiltered
  refine ⟨_, before, after, Sorting.perm_of_sortByKey hsorted, hfirst, hboxes, hbefore, hafter, ?_⟩
  rw [hboxes, hboxes', List.filter_map]
  rfl

def atNoon : FilteredTodoFragment where
  filterStrategy := .allFilter
  allTodoItems := .personal
  todoDatabase := ItemList.database .personal
  user := (createUser none "42").1
  lat := 32.88
  lng := -117.23
  time := 43200000
  view := none

/-- The item for school comes first. When it becomes done, the other two stay in their order. -/
theorem renderTodoList_becomeDone_noon :
    let progress : TodoItem := ⟨"Submit next week's progress", .low, .school, .working, false, ""⟩
    let s := Screen.onCreate [.ofTitle "Buy groceries", .ofTitle "Buy battery", progress] [] (fun _ => none)
      (createUser none "42").1
    let s' := s.setItems .personal (becomeDone (· == 2) s.personalTodoItems)
    ∃ (sorted : List (TodoItem × Nat)) (before after : TodoListView),
      sorted.map Prod.fst = [progress, .ofTitle "Buy groceries", .ofTitle "Buy battery"] ∧
      before.notDone = sorted.map (fun item => { item := item.2, isChecked := item.1.isDone }) ∧
      Screen.renderTodoList (fun _ => 0) 0 atNoon s = ⟨s.setFragment 0 { atNoon with view := some before }, none⟩ ∧
      Screen.renderTodoList (fun _ => 0) 0 atNoon s' = ⟨s'.setFragment 0 { atNoon with view := some after }, none⟩ ∧
      after.notDone = before.notDone.filter fun box => box.item != 2 := by
  intro progress s s'
  obtain ⟨⟨sorted, before, after, -, hsorted, hboxes, hbefore, hafter, hnotDone⟩, -⟩ :=
    renderTodoList_becomeDone (fun _ => 0) 0 atNoon s s' (· == 2) none
      ⟨⟨.school, by decide +kernel⟩, .working, by decide +kernel⟩ rfl
  have hnoon : sortNotDoneItems ((openItems (s.items .personal)).map Prod.fst) (createUser none "42").1 32.88 (-117.23)
      43200000 0 = .ok [progress, .ofTitle "Buy groceries", .ofTitle "Buy battery"] := by decide +kernel
  exact ⟨sorted, before, after, Except.ok.inj (hsorted.symm.trans hnoon), hboxes, hbefore, hafter, hnotDone⟩

end TodoWatch
