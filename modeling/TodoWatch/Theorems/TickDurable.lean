import TodoWatch.Theorems.ScreenStorage
import TodoWatch.Theorems.TickOrder

/-! # Is a tick durable?

The listener of a checkbox changes the item in memory, redraws the list, and writes the store last. When the
redraw throws, in the scoring of the items that are still open, the store keeps the flag from before. -/

namespace TodoWatch
namespace TickDurable
open TickOrder

variable {gson : Gson} {zone : Int → Int} {s : Screen} {f : Nat} {fragment : FilteredTodoFragment} {list : ItemList}
  {items : List TodoItem} {item : TodoItem} {i : Nat}

/-- The store has the item at position `i` of the list under its title, with the same done flag. -/
def Durable (gson : Gson) (db : TodoDatabase) (list : ItemList) (i : Nat) (s : Screen) : Prop :=
  ∃ stored item entry, db.getAllTodos gson s.prefs = .ok stored ∧ (s.items list)[i]? = some item ∧
    stored.find? (·.title == item.title) = some entry ∧ entry.isDone = item.isDone

/-! ### Redraws that throw -/

theorem length_openItems : (openItems items).length = (items.filter fun item => !item.isDone).length := by
  have hmap := List.filter_map (p := fun item : TodoItem => !item.isDone) (f := Prod.fst) (l := items.zipIdx)
  rw [List.zipIdx_map_fst] at hmap
  rw [hmap, List.length_map]
  rfl

/-- A redraw throws exactly when it compares items and scoring throws. -/
theorem renderTodoList_thrown_iff : (Screen.renderTodoList zone f fragment s).thrown = none ↔
    ((s.items fragment.allTodoItems).filter fun item => !item.isDone).length < 2 ∨
      ScoringOk fragment.user fragment.lat fragment.lng fragment.time (zone fragment.time) := by
  rw [← length_openItems]
  constructor
  · intro h
    by_cases hl : (openItems (s.items fragment.allTodoItems)).length < 2
    · exact Or.inl hl
    · unfold Screen.renderTodoList at h
      dsimp only at h
      split at h
      · rename_i sorted hsorted
        obtain ⟨first, hfirst⟩ : ∃ first, first ∈ openItems (s.items fragment.allTodoItems) :=
          List.exists_mem_of_length_pos (by omega)
        obtain ⟨k, hk⟩ := Sorting.ok_of_sortByKey hsorted (Nat.le_of_not_lt hl) first hfirst
        obtain ⟨score, hscore, -⟩ := Sorting.map_eq_ok hk
        exact Or.inr (scoringOk_of_score hscore)
      · cases h
  · intro h
    obtain ⟨sorted, hsorted⟩ : ∃ sorted, Sorting.sortByKey (fun item : TodoItem × Nat =>
        (getItemScore item.1 fragment.user fragment.lat fragment.lng fragment.time (zone fragment.time)).map (-·))
          (openItems (s.items fragment.allTodoItems)) = .ok sorted := by
      rcases h with hl | hscoring
      · exact ⟨_, Sorting.sortByKey_of_length_lt hl⟩
      · choose score hscore using scoringOk_iff.mp hscoring
        exact ⟨_, Sorting.sortByKey_of_ok (f := fun item => -score item.1) fun item _ => by rw [hscore]; rfl⟩
    obtain ⟨view, hview, -⟩ := @renderTodoList_of_ok s f fragment zone sorted hsorted
    rw [hview]

/-! ### The listener -/

section Listener
variable {isChecked : Bool}

/-- The list after the item was ticked, before the redraw. -/
def ticked (s : Screen) (list : ItemList) (i : Nat) (item : TodoItem) : Screen :=
  s.setItems list ((s.items list).set i item)

theorem onCheckedChanged_eq : Screen.onCheckedChanged gson zone f fragment i item isChecked s =
    (Screen.renderTodoList zone f fragment (ticked s fragment.allTodoItems i (item.setDone isChecked))).andThen
      (Screen.updateTodo gson fragment.todoDatabase (item.setDone isChecked)) := rfl

theorem items_ticked : (ticked s list i item).items list = (s.items list).set i item := by
  rw [ticked, Screen.items_setItems, if_pos rfl]

theorem prefs_ticked : (ticked s list i item).prefs = s.prefs := Screen.prefs_setItems

theorem getElem?_ticked {before : TodoItem} (hi : (s.items list)[i]? = some before) :
    ((ticked s list i item).items list)[i]? = some item := by
  rw [items_ticked, List.getElem?_set_self (List.getElem?_eq_some_iff.mp hi).1]

/-- When the redraw ends, the item is written under its title. -/
theorem durable_of_drawn (hi : (s.items fragment.allTodoItems)[i]? = some item)
    (hstore : fragment.todoDatabase.getAllTodos gson s.prefs = .ok (s.items fragment.allTodoItems))
    (htitles : ((s.items fragment.allTodoItems).map TodoItem.title).Nodup)
    (hdrawn : (Screen.renderTodoList zone f fragment
      (ticked s fragment.allTodoItems i (item.setDone isChecked))).thrown = none) :
    Durable gson fragment.todoDatabase fragment.allTodoItems i
      (Screen.onCheckedChanged gson zone f fragment i item isChecked s).screen := by
  obtain ⟨view, hview⟩ := Screen.renderTodoList_screen zone f fragment
    (ticked s fragment.allTodoItems i (item.setDone isChecked))
  have hwrite := TodoDatabase.updateTodo_of_nodup hstore htitles hi (item.setDone_title isChecked)
  rw [onCheckedChanged_eq, Screen.Ended.andThen_of_none hdrawn, hview, Screen.updateTodo, Screen.prefs_setFragment, prefs_ticked,
    hwrite]
  refine ⟨_, item.setDone isChecked, item.setDone isChecked, TodoDatabase.getAllTodos_saveTodos, ?_, ?_, rfl⟩
  · rw [Screen.items_setPrefs, Screen.items_setFragment, getElem?_ticked hi]
  · refine Keyed.find?_of_nodup ?_ (List.mem_set (List.getElem?_eq_some_iff.mp hi).1 _)
    rwa [Keyed.map_set hi (item.setDone_title isChecked)]

/-- When the redraw throws, the store is left as it was. -/
theorem durable_iff_of_thrown (hi : (s.items fragment.allTodoItems)[i]? = some item)
    (hstore : fragment.todoDatabase.getAllTodos gson s.prefs = .ok (s.items fragment.allTodoItems))
    (htitles : ((s.items fragment.allTodoItems).map TodoItem.title).Nodup) {e : JavaException}
    (hthrown : (Screen.renderTodoList zone f fragment
      (ticked s fragment.allTodoItems i (item.setDone isChecked))).thrown = some e) :
    Durable gson fragment.todoDatabase fragment.allTodoItems i
        (Screen.onCheckedChanged gson zone f fragment i item isChecked s).screen ↔ item.isDone = isChecked := by
  obtain ⟨view, hview⟩ := Screen.renderTodoList_screen zone f fragment
    (ticked s fragment.allTodoItems i (item.setDone isChecked))
  have hkept := Keyed.find?_of_nodup htitles (List.mem_of_getElem? hi)
  rw [onCheckedChanged_eq, Screen.Ended.andThen_of_some hthrown, hview]
  constructor
  · rintro ⟨stored, item', entry, hstored, hi', hentry, hsame⟩
    rw [Screen.prefs_setFragment, prefs_ticked, hstore] at hstored
    obtain rfl := Except.ok.inj hstored
    rw [Screen.items_setFragment, getElem?_ticked hi] at hi'
    obtain rfl := Option.some.inj hi'
    rw [TodoItem.setDone_title, hkept] at hentry
    obtain rfl := Option.some.inj hentry
    exact hsame
  · intro hsame
    refine ⟨_, item.setDone isChecked, item, by rw [Screen.prefs_setFragment, prefs_ticked, hstore], ?_, hkept, hsame⟩
    rw [Screen.items_setFragment, getElem?_ticked hi]

end Listener

end TickDurable

open TickDurable TickOrder

/-- After the listener, the entry of the store has the done flag of the item in memory exactly when the redraw does
    not compare items whose scoring throws, or the tick does not change the flag. -/
theorem onCheckedChanged_durable_iff (gson : Gson) (zone : Int → Int) (f : Nat) (fragment : FilteredTodoFragment)
    (s : Screen) (i : Nat) (item : TodoItem) (isChecked : Bool)
    (hi : (s.items fragment.allTodoItems)[i]? = some item)
    (hstore : fragment.todoDatabase.getAllTodos gson s.prefs = .ok (s.items fragment.allTodoItems))
    (htitles : ((s.items fragment.allTodoItems).map TodoItem.title).Nodup) :
    Durable gson fragment.todoDatabase fragment.allTodoItems i
        (Screen.onCheckedChanged gson zone f fragment i item isChecked s).screen ↔
      (((s.items fragment.allTodoItems).set i (item.setDone isChecked)).filter fun item => !item.isDone).length < 2 ∨
        ScoringOk fragment.user fragment.lat fragment.lng fragment.time (zone fragment.time) ∨
        item.isDone = isChecked := by
  have hdrawn := @renderTodoList_thrown_iff zone (ticked s fragment.allTodoItems i (item.setDone isChecked)) f fragment
  rw [items_ticked] at hdrawn
  rw [← or_assoc, ← hdrawn]
  cases hthrown : (Screen.renderTodoList zone f fragment
      (ticked s fragment.allTodoItems i (item.setDone isChecked))).thrown with
  | none => exact iff_of_true (durable_of_drawn hi hstore htitles hthrown) (Or.inl rfl)
  | some e =>
    rw [durable_iff_of_thrown hi hstore htitles hthrown]
    exact ⟨Or.inr, fun h => h.resolve_left fun hnone => by cases hnone⟩

/-- Three items of a new user, with the store that equals them. -/
def threeItems : Screen :=
  Screen.onCreate [.ofTitle "Buy groceries", .ofTitle "Buy battery", .ofTitle "Buy milk"] []
    (TodoDatabase.saveTodos gson ⟨"personalTodoTemp"⟩ (fun _ => none)
      [.ofTitle "Buy groceries", .ofTitle "Buy battery", .ofTitle "Buy milk"])
    (createUser none "42").1

theorem onCheckedChanged_durable_noon :
    Durable gson atNoon.todoDatabase .personal 0
      (Screen.onCheckedChanged gson (fun _ => 0) 0 atNoon 0 (.ofTitle "Buy groceries") true threeItems).screen :=
  (onCheckedChanged_durable_iff gson (fun _ => 0) 0 atNoon threeItems 0 (.ofTitle "Buy groceries") true rfl
    TodoDatabase.getAllTodos_saveTodos (by decide)).mpr
      (Or.inr (Or.inl ⟨⟨.school, by decide +kernel⟩, .working, by decide +kernel⟩))

/-- At 7:30 the redraw of the two items that are left throws, and the store keeps the tick from before. -/
theorem onCheckedChanged_not_durable :
    let fragment := { atNoon with time := 27000000 }
    threeItems.personalTodoItems[0]? = some (.ofTitle "Buy groceries") ∧
      fragment.todoDatabase.getAllTodos gson threeItems.prefs = .ok threeItems.personalTodoItems ∧
      (threeItems.personalTodoItems.map TodoItem.title).Nodup ∧
      ¬Durable gson fragment.todoDatabase .personal 0
        (Screen.onCheckedChanged gson (fun _ => 0) 0 fragment 0 (.ofTitle "Buy groceries") true threeItems).screen := by
  intro fragment
  have hstore : fragment.todoDatabase.getAllTodos gson threeItems.prefs = .ok threeItems.personalTodoItems :=
    TodoDatabase.getAllTodos_saveTodos
  have htitles : (threeItems.personalTodoItems.map TodoItem.title).Nodup := by decide
  have hthrown : (Screen.renderTodoList (fun _ => 0) 0 fragment
      (ticked threeItems .personal 0 ((TodoItem.ofTitle "Buy groceries").setDone true))).thrown =
        some (.illegalArgument "No enum constant com.example.wearos_gui.entity.Time.BEFORE_WORKING") := by
    decide +kernel
  refine ⟨rfl, hstore, htitles, fun h => ?_⟩
  have hsame : (TodoItem.ofTitle "Buy groceries").isDone = true :=
    (durable_iff_of_thrown rfl hstore htitles hthrown).mp h
  cases hsame

end TodoWatch
