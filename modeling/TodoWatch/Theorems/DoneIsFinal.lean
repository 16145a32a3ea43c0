import TodoWatch.Theorems.ScreenStorage

/-! # Is done final?

The listener of a checkbox takes whatever checked state it is told. A view draws checkboxes for the open items
only, so each attached checkbox is unchecked, also when another fragment has ticked its item meanwhile, and a
tick can only say that its item is done. -/

namespace TodoWatch
namespace Screen

variable {gson : Gson} {zone : Int → Int} {s t u : Screen} {e : Event} {f : Nat} {fragment : FilteredTodoFragment}
  {list : ItemList}

/-- The items that are done in `s` are the same in `t`. -/
def DoneKept (s t : Screen) : Prop :=
  ∀ (list : ItemList) (i : Nat) (item : TodoItem),
    (s.items list)[i]? = some item → item.isDone = true → (t.items list)[i]? = some item

/-- The stores are left alone, or an item that is done is written to one. -/
def WritesDone (gson : Gson) (s t : Screen) : Prop :=
  t.prefs = s.prefs ∨
    ∃ (db : TodoDatabase) (item : TodoItem), item.isDone = true ∧ db.updateTodo gson s.prefs item = .ok t.prefs

def UncheckedView (view : TodoListView) : Prop := ∀ box ∈ view.notDone, box.isChecked = false

def Unchecked (s : Screen) : Prop :=
  ∀ fragment ∈ s.fragments, ∀ view, fragment.view = some view → UncheckedView view

/-! ### Drawing -/

/-- A drawn view has checkboxes of open items only, and none is checked. -/
theorem renderTodoList_unchecked (zone : Int → Int) (f : Nat) (fragment : FilteredTodoFragment) (s : Screen) :
    ∃ view, UncheckedView view ∧
      (renderTodoList zone f fragment s).screen = s.setFragment f { fragment with view := some view } := by
  unfold renderTodoList
  dsimp only
  split
  · rename_i notDoneItems hsorted
    refine ⟨_, fun box hbox => ?_, rfl⟩
    obtain ⟨item, hitem, rfl⟩ := List.mem_map.mp hbox
    have hopen := (Sorting.perm_of_sortByKey hsorted).mem_iff.mp hitem
    simpa using (List.mem_filter.mp hopen).2
  · exact ⟨_, fun box hbox => absurd hbox List.not_mem_nil, rfl⟩

theorem Unchecked.setFragment (h : Unchecked s)
    (hview : ∀ view, fragment.view = some view → UncheckedView view) : Unchecked (s.setFragment f fragment) := by
  intro x hx
  rcases mem_setFragment hx with hx | rfl
  · exact h x hx
  · exact hview

theorem Unchecked.render (h : Unchecked s) : Unchecked (renderTodoList zone f fragment s).screen := by
  obtain ⟨view, hunchecked, hscreen⟩ := renderTodoList_unchecked zone f fragment s
  rw [hscreen]
  exact h.setFragment fun view' hview' => Option.some.inj hview' ▸ hunchecked

theorem render_frame : (∀ list, (renderTodoList zone f fragment s).screen.items list = s.items list) ∧
    (renderTodoList zone f fragment s).screen.prefs = s.prefs := by
  obtain ⟨view, hscreen⟩ := renderTodoList_screen zone f fragment s
  rw [hscreen]
  exact ⟨fun _ => items_setFragment, rfl⟩

/-! ### Ticks -/

theorem attached_unchecked (h : Unchecked s) (hmem : fragment ∈ s.fragments) {box : Nat} {x : CheckBox × TodoItem}
    (hx : s.attached fragment box = some x) : x.1.isChecked = false := by
  simp only [attached, bind, Option.bind_eq_some_iff] at hx
  obtain ⟨view, hview, checkBox, hbox, item, -, heq⟩ := hx
  obtain rfl := Option.some.inj heq
  exact h fragment hmem view hview checkBox (List.mem_of_getElem? hbox)

theorem DoneKept.refl : DoneKept s s := fun _ _ _ h _ => h

theorem DoneKept.trans (h₁ : DoneKept s t) (h₂ : DoneKept t u) : DoneKept s u :=
  fun list i item hi hdone => h₂ list i item (h₁ list i item hi hdone) hdone

theorem DoneKept.of_items (h : ∀ list, t.items list = s.items list) : DoneKept s t :=
  fun list i item hi _ => by rw [h list]; exact hi

/-- An item that is ticked becomes done, or is done and stays as it is. -/
theorem doneKept_tick {i : Nat} {item : TodoItem} (hi : (s.items list)[i]? = some item) :
    DoneKept s (s.setItems list ((s.items list).set i (item.setDone true))) := by
  intro list' j x hj hdone
  rw [items_setItems]
  by_cases hlist : list' = list
  · subst hlist
    rw [if_pos rfl]
    by_cases hji : j = i
    · subst hji
      obtain rfl := Option.some.inj (hi.symm.trans hj)
      have hsame : item.setDone true = item := by
        unfold TodoItem.setDone
        rw [← hdone]
      rw [hsame, List.getElem?_set_self (List.getElem?_eq_some_iff.mp hi).1]
    · rwa [List.getElem?_set_ne (Ne.symm hji)]
  · rwa [if_neg hlist]

/-- The listener that is told that the box is checked. -/
theorem onCheckedChanged_done (h : Unchecked s) {i : Nat} {item : TodoItem}
    (hi : (s.items fragment.allTodoItems)[i]? = some item)
    (ht : (onCheckedChanged gson zone f fragment i item true s).screen = t) :
    Unchecked t ∧ DoneKept s t ∧ WritesDone gson s t := by
  subst ht
  obtain ⟨drawn, hdrawn⟩ : ∃ drawn, drawn = s.setItems fragment.allTodoItems
    ((s.items fragment.allTodoItems).set i (item.setDone true)) := ⟨_, rfl⟩
  have hunchecked : Unchecked drawn := by
    unfold Unchecked
    rw [hdrawn, fragments_setItems]
    exact h
  obtain ⟨hitems, hprefs⟩ := @render_frame zone drawn f fragment
  have hkept : DoneKept s (renderTodoList zone f fragment drawn).screen :=
    (hdrawn ▸ doneKept_tick hi).trans (.of_items hitems)
  have hsame : (renderTodoList zone f fragment drawn).screen.prefs = s.prefs := by
    rw [hprefs, hdrawn, prefs_setItems]
  unfold onCheckedChanged Ended.andThen
  dsimp only
  rw [← hdrawn]
  split
  · unfold updateTodo
    split
    · rename_i prefs hupdate
      refine ⟨hunchecked.render, hkept.trans (.of_items fun _ => items_setPrefs), Or.inr ⟨fragment.todoDatabase, item.setDone true, rfl, ?_⟩⟩
      rw [← hsame]
      exact hupdate
    · exact ⟨hunchecked.render, hkept, Or.inl hsame⟩
  · exact ⟨hunchecked.render, hkept, Or.inl hsame⟩

/-! ### Steps -/

theorem unchecked_next (h : Unchecked s) (hs : s.next gson zone e = some t) :
    Unchecked t ∧ DoneKept s t ∧ WritesDone gson s t := by
  obtain ⟨ended, hh, rfl⟩ := Option.map_eq_some_iff.mp hs
  cases e with
  | onPageSelected position =>
    obtain rfl := Option.some.inj hh
    unfold onPageSelected
    dsimp only
    split
    · exact ⟨h, .of_items fun list => (by cases list <;> rfl), Or.inl rfl⟩
    · exact ⟨h, .of_items fun list => (by cases list <;> rfl), Or.inl rfl⟩
  | createFragment position =>
    simp only [handle] at hh
    split at hh
    · rename_i x hx
      obtain rfl := Option.some.inj hh
      obtain ⟨-, filter, rfl⟩ := TodoPageAdapter.createFragment_eq_ok hx
      refine ⟨fun y hy => ?_, .of_items fun list => (by cases list <;> rfl), Or.inl rfl⟩
      rcases List.mem_append.mp hy with hy | hy
      · exact h y hy
      · -- A new fragment has no view.
        obtain rfl := List.mem_singleton.mp hy
        intro view hview
        cases hview
    · obtain rfl := Option.some.inj hh
      exact ⟨h, .refl, Or.inl rfl⟩
  | onViewCreated f =>
    obtain ⟨fragment, -, rfl⟩ := Option.map_eq_some_iff.mp hh
    exact ⟨h.render, .of_items render_frame.1, Or.inl render_frame.2⟩
  | updateLocationAndTime f lat lng curTime =>
    obtain ⟨fragment, hf, rfl⟩ := Option.map_eq_some_iff.mp hh
    have hmem := List.mem_of_getElem? hf
    unfold updateLocationAndTime
    dsimp only
    split
    · exact ⟨h.render, .of_items render_frame.1, Or.inl render_frame.2⟩
    · exact ⟨h.setFragment fun view hview => h fragment hmem view hview, .of_items fun _ => items_setFragment, Or.inl rfl⟩
  | tick f box =>
    simp only [handle, bind, Option.bind_eq_some_iff] at hh
    obtain ⟨fragment, hf, ⟨checkBox, item⟩, hattached, hended⟩ := hh
    obtain rfl := Option.some.inj hended
    have hunchecked := attached_unchecked h (List.mem_of_getElem? hf) hattached
    have hi := attached_eq_some hattached
    dsimp only at hunchecked hi
    rw [hunchecked]
    exact onCheckedChanged_done h hi rfl

theorem unchecked_run {before : List Event} (h : Unchecked s) (hrun : Runs.run (next gson zone) s before = some t) :
    Unchecked t :=
  (Runs.always_of_inv (fun _ _ _ h _ hs => (unchecked_next h hs).1) h Runs.meets_true).last hrun

end Screen

/-- In every run of the screen, whether its handlers throw or not: what is done at any moment is done ever
    after, and whatever is written to a store is done. -/
theorem screen_doneFinal (gson : Gson) (zone : Int → Int) (personal group : List TodoItem) (prefs : Preferences)
    (user : User) (before after : List Screen.Event) (s : Screen)
    (hrun : Runs.run (Screen.next gson zone) (Screen.onCreate personal group prefs user) before = some s) :
    Runs.Always (Screen.next gson zone) (Screen.DoneKept s) s after ∧
      Runs.Meets (Screen.next gson zone) (fun u e => ∀ t, u.next gson zone e = some t → Screen.WritesDone gson u t)
        s after := by
  have hstart : Screen.Unchecked (Screen.onCreate personal group prefs user) :=
    fun x hx => absurd hx List.not_mem_nil
  have hs := Screen.unchecked_run hstart hrun
  constructor
  · refine (Runs.always_of_inv (fun u e t (h : Screen.Unchecked u ∧ Screen.DoneKept s u) _ ht => ?_) ⟨hs, .refl⟩
      Runs.meets_true).imp fun _ h => h.2
    obtain ⟨hunchecked, hkept, -⟩ := Screen.unchecked_next h.1 ht
    exact ⟨hunchecked, h.2.trans hkept⟩
  · exact Runs.meets_of_inv (fun _ _ _ h ht => (Screen.unchecked_next h ht).1)
      (fun _ _ h _ ht => (Screen.unchecked_next h ht).2.2) hs

/-- Two fragments show one list: an item is ticked in the first, and then in the stale view of the second. -/
theorem screen_doneFinal_stale :
    let start := Screen.onCreate [.ofTitle "Buy groceries"] [] (fun _ => none) (createUser none "42").1
    let before : List Screen.Event := [.createFragment 0, .createFragment 1, .onViewCreated 0, .onViewCreated 1, .tick 0 0]
    ∃ s, Runs.run (Screen.next gson fun _ => 0) start before = some s ∧
      s.personalTodoItems.map TodoItem.isDone = [true] ∧
      (Runs.Always (Screen.next gson fun _ => 0) (Screen.DoneKept s) s [.tick 1 0] ∧
        Runs.Meets (Screen.next gson fun _ => 0)
          (fun u e => ∀ t, u.next gson (fun _ => 0) e = some t → Screen.WritesDone gson u t) s [.tick 1 0]) ∧
      (Runs.run (Screen.next gson fun _ => 0) s [.tick 1 0]).isSome = true := by
  intro start before
  have hcheck : (Runs.run (Screen.next gson fun _ => 0) start before).any (fun s =>
      decide (s.personalTodoItems.map TodoItem.isDone = [true]) &&
        (Runs.run (Screen.next gson fun _ => 0) s [.tick 1 0]).isSome) = true := by decide +kernel
  obtain ⟨s, hs, hrest⟩ := (Option.any_eq_true _ _).mp hcheck
  simp only [Bool.and_eq_true, decide_eq_true_eq] at hrest
  exact ⟨s, hs, hrest.1, screen_doneFinal gson (fun _ => 0) _ _ _ _ before [.tick 1 0] s hs, hrest.2⟩

end TodoWatch
