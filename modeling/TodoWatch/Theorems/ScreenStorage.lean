import TodoWatch.MainActivity
import TodoWatch.Screen
import TodoWatch.Lib.Runs

/-! # Do screen and storage stay in step?

A fragment takes its list and its database from the adapter, which always holds a list with its own
database, so a tick is written to the store of the list that the fragment shows. Titles are distinct and
never change, so the write replaces the item at the position of the tick. -/

namespace TodoWatch
namespace Screen

variable {gson : Gson} {zone : Int → Int} {s t : Screen} {e : Event} {f : Nat} {fragment : FilteredTodoFragment}
  {list : ItemList}

def InStep (gson : Gson) (s : Screen) : Prop :=
  ∀ list : ItemList, list.database.getAllTodos gson s.prefs = .ok (s.items list)

/-- A tick changes the store of the fragment's list at the position of the item, and nothing else. Other
    events change no store. -/
def Written (gson : Gson) (s : Screen) (e : Event) (t : Screen) : Prop :=
  match e with
  | .tick f box => ∃ fragment checkBox item, s.fragments[f]? = some fragment ∧
      s.attached fragment box = some (checkBox, item) ∧
      t.prefs = fragment.allTodoItems.database.saveTodos gson s.prefs
        ((s.items fragment.allTodoItems).set checkBox.item (item.setDone (!checkBox.isChecked)))
  | _ => t.prefs = s.prefs

/-- What holds at any time: the stores decode to the lists, titles are distinct, and whoever holds a list
    holds its database. -/
structure Inv (gson : Gson) (s : Screen) : Prop where
  inStep : InStep gson s
  titles : ∀ list, ((s.items list).map TodoItem.title).Nodup
  adapter : s.adapter.todoDatabase = s.adapter.todoItems.database
  fragments : ∀ fragment ∈ s.fragments, fragment.todoDatabase = fragment.allTodoItems.database

/-! ### Updates -/

theorem items_setItems {list' : ItemList} {items : List TodoItem} :
    (s.setItems list items).items list' = if list' = list then items else s.items list' := by
  cases list <;> cases list' <;> rfl

@[simp] theorem prefs_setItems {items : List TodoItem} : (s.setItems list items).prefs = s.prefs := by cases list <;> rfl

@[simp] theorem adapter_setItems {items : List TodoItem} : (s.setItems list items).adapter = s.adapter := by
  cases list <;> rfl

@[simp] theorem fragments_setItems {items : List TodoItem} : (s.setItems list items).fragments = s.fragments := by
  cases list <;> rfl

@[simp] theorem items_setFragment : (s.setFragment f fragment).items list = s.items list := by cases list <;> rfl

@[simp] theorem prefs_setFragment : (s.setFragment f fragment).prefs = s.prefs := rfl

@[simp] theorem items_setPrefs {prefs : Preferences} : (s.setPrefs prefs).items list = s.items list := by
  cases list <;> rfl

theorem mem_setFragment {x : FilteredTodoFragment} (h : x ∈ (s.setFragment f fragment).fragments) :
    x ∈ s.fragments ∨ x = fragment := List.mem_or_eq_of_mem_set h

/-- Redrawing changes a view and nothing else, whether it throws or not. -/
theorem renderTodoList_screen (zone : Int → Int) (f : Nat) (fragment : FilteredTodoFragment) (s : Screen) :
    ∃ view, (renderTodoList zone f fragment s).screen = s.setFragment f { fragment with view } := by
  unfold renderTodoList
  dsimp only
  split
  · exact ⟨_, rfl⟩
  · exact ⟨_, rfl⟩

theorem updateLocationAndTime_screen (zone : Int → Int) (f : Nat) (fragment : FilteredTodoFragment) (lat lng : ℚ)
    (curTime : Int) (s : Screen) :
    ∃ x, (updateLocationAndTime zone f fragment lat lng curTime s).screen = s.setFragment f x ∧
      x.todoDatabase = fragment.todoDatabase ∧ x.allTodoItems = fragment.allTodoItems := by
  unfold updateLocationAndTime
  dsimp only
  split
  · obtain ⟨view, hview⟩ := renderTodoList_screen zone f { fragment with lat, lng, time := curTime } s
    exact ⟨_, hview, rfl, rfl⟩
  · exact ⟨_, rfl, rfl, rfl⟩

theorem Ended.andThen_of_none {x : Ended} {next : Screen → Ended} (h : x.thrown = none) :
    x.andThen next = next x.screen := by
  unfold Ended.andThen
  rw [h]

theorem Ended.andThen_of_some {x : Ended} {next : Screen → Ended} {e : JavaException}
    (h : x.thrown = some e) : x.andThen next = x := by
  unfold Ended.andThen
  rw [h]

theorem Ended.andThen_eq {x : Ended} {next : Screen → Ended} {t : Screen} (h : x.andThen next = ⟨t, none⟩) :
    x.thrown = none ∧ next x.screen = ⟨t, none⟩ := by
  unfold Ended.andThen at h
  split at h
  · rename_i hthrown
    exact ⟨hthrown, h⟩
  · rename_i e hthrown
    rw [h] at hthrown
    cases hthrown

theorem Inv.setFragment (h : Inv gson s) (hx : fragment.todoDatabase = fragment.allTodoItems.database) :
    Inv gson (s.setFragment f fragment) where
  inStep list := by rw [prefs_setFragment, items_setFragment, h.inStep]
  titles list := by rw [items_setFragment]; exact h.titles list
  adapter := h.adapter
  fragments x hmem := by
    rcases mem_setFragment hmem with hmem | rfl
    · exact h.fragments x hmem
    · exact hx

/-! ### Ticks -/

theorem attached_eq_some {box : Nat} {x : CheckBox × TodoItem} (h : s.attached fragment box = some x) :
    (s.items fragment.allTodoItems)[x.1.item]? = some x.2 := by
  simp only [attached, bind, Option.bind_eq_some_iff] at h
  obtain ⟨view, -, checkBox, -, item, hitem, heq⟩ := h
  obtain rfl := Option.some.inj heq
  exact hitem

/-- What a tick of an item, which is `item` afterwards, comes to. -/
structure Ticked (gson : Gson) (s : Screen) (fragment : FilteredTodoFragment) (i : Nat) (item : TodoItem)
    (t : Screen) : Prop where
  items : ∀ list, t.items list =
    if list = fragment.allTodoItems then (s.items fragment.allTodoItems).set i item else s.items list
  prefs : t.prefs =
    fragment.allTodoItems.database.saveTodos gson s.prefs ((s.items fragment.allTodoItems).set i item)
  adapter : t.adapter = s.adapter
  fragments : ∀ x ∈ t.fragments, x ∈ s.fragments ∨ ∃ view, x = { fragment with view }

theorem onCheckedChanged_ends (h : Inv gson s) (hmem : fragment ∈ s.fragments) {i : Nat} {item : TodoItem}
    (hi : (s.items fragment.allTodoItems)[i]? = some item) {isChecked : Bool}
    (hs : onCheckedChanged gson zone f fragment i item isChecked s = ⟨t, none⟩) :
    Ticked gson s fragment i (item.setDone isChecked) t := by
  obtain ⟨-, hupdate⟩ := Ended.andThen_eq hs
  obtain ⟨view, hview⟩ := renderTodoList_screen zone f fragment
    (s.setItems fragment.allTodoItems ((s.items fragment.allTodoItems).set i (item.setDone isChecked)))
  have hwrite := TodoDatabase.updateTodo_of_nodup (h.inStep fragment.allTodoItems) (h.titles _) hi
    (item.setDone_title isChecked)
  rw [hview, updateTodo, prefs_setFragment, prefs_setItems, h.fragments fragment hmem, hwrite] at hupdate
  obtain rfl := congrArg Ended.screen hupdate
  refine ⟨fun list => ?_, rfl, adapter_setItems, fun x hx => ?_⟩
  · rw [items_setPrefs, items_setFragment, items_setItems]
  · rcases mem_setFragment hx with hx | rfl
    · rw [fragments_setItems] at hx
      exact Or.inl hx
    · exact Or.inr ⟨view, by rw [h.fragments fragment hmem]⟩

theorem database_key_ne {list' : ItemList} (h : list' ≠ list) : list'.database.key ≠ list.database.key := by
  cases list <;> cases list' <;> first | exact absurd rfl h | decide

theorem Ticked.inv (h : Inv gson s) (hmem : fragment ∈ s.fragments) {i : Nat} {item : TodoItem} {done : Bool}
    (hi : (s.items fragment.allTodoItems)[i]? = some item) (ht : Ticked gson s fragment i (item.setDone done) t) :
    Inv gson t where
  inStep list := by
    rw [ht.items, ht.prefs]
    by_cases hlist : list = fragment.allTodoItems
    · rw [if_pos hlist, hlist]
      exact TodoDatabase.getAllTodos_saveTodos
    · rw [if_neg hlist]
      exact (TodoDatabase.getAllTodos_saveTodos_of_ne (database_key_ne hlist)).trans (h.inStep list)
  titles list := by
    rw [ht.items]
    by_cases hlist : list = fragment.allTodoItems
    · rw [if_pos hlist, Keyed.map_set hi (item.setDone_title done)]
      exact h.titles _
    · rw [if_neg hlist]
      exact h.titles list
  adapter := by
    rw [ht.adapter]
    exact h.adapter
  fragments x hx := by
    rcases ht.fragments x hx with hx | ⟨view, rfl⟩
    · exact h.fragments x hx
    · exact h.fragments fragment hmem

/-! ### Steps -/

theorem step_eq_some (h : s.step gson zone e = some t) : s.handle gson zone e = some ⟨t, none⟩ := by
  unfold step at h
  split at h
  · rename_i screen heq
    rw [heq, Option.some.inj h]
  · cases h

theorem inv_step (h : Inv gson s) (hs : s.step gson zone e = some t) : Inv gson t ∧ Written gson s e t := by
  have hh := step_eq_some hs
  cases e with
  | onPageSelected position =>
    obtain rfl := congrArg Ended.screen (Option.some.inj hh)
    unfold onPageSelected
    split
    · exact ⟨⟨h.inStep, h.titles, rfl, h.fragments⟩, rfl⟩
    · exact ⟨⟨h.inStep, h.titles, rfl, h.fragments⟩, rfl⟩
  | createFragment position =>
    simp only [handle] at hh
    split at hh
    · rename_i x hx
      obtain rfl := congrArg Ended.screen (Option.some.inj hh)
      obtain ⟨-, filter, rfl⟩ := TodoPageAdapter.createFragment_eq_ok hx
      refine ⟨⟨h.inStep, h.titles, h.adapter, fun y hy => ?_⟩, rfl⟩
      rcases List.mem_append.mp hy with hy | hy
      · exact h.fragments y hy
      · obtain rfl := List.mem_singleton.mp hy
        exact h.adapter
    · cases congrArg Ended.thrown (Option.some.inj hh)
  | onViewCreated f =>
    obtain ⟨fragment, hf, hended⟩ := Option.map_eq_some_iff.mp hh
    obtain ⟨view, hview⟩ := renderTodoList_screen zone f fragment s
    rw [hended] at hview
    obtain rfl := hview
    exact ⟨h.setFragment (h.fragments fragment (List.mem_of_getElem? hf)), rfl⟩
  | updateLocationAndTime f lat lng curTime =>
    obtain ⟨fragment, hf, hended⟩ := Option.map_eq_some_iff.mp hh
    obtain ⟨x, hx, hdb, hitems⟩ := updateLocationAndTime_screen zone f fragment lat lng curTime s
    rw [hended] at hx
    obtain rfl := hx
    have hbound := h.fragments fragment (List.mem_of_getElem? hf)
    exact ⟨h.setFragment (by rw [hdb, hitems, hbound]), rfl⟩
  | tick f box =>
    simp only [handle, bind, Option.bind_eq_some_iff] at hh
    obtain ⟨fragment, hf, ⟨checkBox, item⟩, hattached, hended⟩ := hh
    have hmem := List.mem_of_getElem? hf
    have hi := attached_eq_some hattached
    have hticked := onCheckedChanged_ends h hmem hi (Option.some.inj hended)
    exact ⟨hticked.inv h hmem hi, fragment, checkBox, item, hf, hattached, hticked.prefs⟩

end Screen

/-- In every run of the screen, from two lists with distinct titles that equal their stores, the stores stay
    equal to the lists, and each step writes to the stores what its tick changed and nothing else. -/
theorem screen_inStep (gson : Gson) (zone : Int → Int) (personal group : List TodoItem) (prefs : Preferences)
    (user : User) (hpersonal : (ItemList.database .personal).getAllTodos gson prefs = .ok personal)
    (hgroup : (ItemList.database .group).getAllTodos gson prefs = .ok group)
    (hpersonalTitles : (personal.map TodoItem.title).Nodup) (hgroupTitles : (group.map TodoItem.title).Nodup)
    (events : List Screen.Event) :
    Runs.Always (Screen.step gson zone) (Screen.InStep gson) (Screen.onCreate personal group prefs user) events ∧
      Runs.Meets (Screen.step gson zone) (fun s e => ∀ t, s.step gson zone e = some t → Screen.Written gson s e t)
        (Screen.onCreate personal group prefs user) events := by
  have hstart : Screen.Inv gson (Screen.onCreate personal group prefs user) := by
    refine ⟨fun list => ?_, fun list => ?_, rfl, fun x hx => absurd hx List.not_mem_nil⟩
    · cases list with
      | personal => exact hpersonal
      | group => exact hgroup
    · cases list with
      | personal => exact hpersonalTitles
      | group => exact hgroupTitles
  constructor
  · exact (Runs.always_of_inv (fun _ _ _ h _ hs => (Screen.inv_step h hs).1) hstart Runs.meets_true).imp
      fun _ h => h.inStep
  · exact Runs.meets_of_inv (fun _ _ _ h hs => (Screen.inv_step h hs).1)
      (fun _ _ h _ hs => (Screen.inv_step h hs).2) hstart

/-- A tick of a personal item in the first page, after the group page was created, at noon. -/
theorem screen_inStep_tick :
    let personal : List TodoItem := [.ofTitle "Buy groceries"]
    let group : List TodoItem := [.ofTitle "Plan group presentation"]
    let prefs := (ItemList.database .group).saveTodos gson
      ((ItemList.database .personal).saveTodos gson (fun _ => none) personal) group
    let start := Screen.onCreate personal group prefs (createUser none "42").1
    let events : List Screen.Event := [.onPageSelected 0, .createFragment 0, .onPageSelected 1, .createFragment 1,
      .updateLocationAndTime 0 32.88 (-117.23) 43200000, .onViewCreated 0, .tick 0 0]
    (Runs.Always (Screen.step gson fun _ => 0) (Screen.InStep gson) start events ∧
      Runs.Meets (Screen.step gson fun _ => 0)
        (fun s e => ∀ t, s.step gson (fun _ => 0) e = some t → Screen.Written gson s e t) start events) ∧
      (Runs.run (Screen.step gson fun _ => 0) start events).map (·.personalTodoItems.map TodoItem.isDone) =
        some [true] := by
  refine ⟨screen_inStep gson (fun _ => 0) _ _ _ _ ?_ ?_ (by decide) (by decide) _, by decide +kernel⟩
  · exact (TodoDatabase.getAllTodos_saveTodos_of_ne (by decide)).trans TodoDatabase.getAllTodos_saveTodos
  · exact TodoDatabase.getAllTodos_saveTodos

end TodoWatch
