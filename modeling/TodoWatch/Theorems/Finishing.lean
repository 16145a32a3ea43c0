import TodoWatch.Theorems.FirstInstant
import TodoWatch.Theorems.ViewContents

/-! # Can everything be finished?

In a time zone in which a page can be drawn before a fix, the app never gets stuck: from any moment on each item that
is open can be ticked, whatever came before, and the ticks can reach the disk. -/

namespace TodoWatch
open RankingSafety
open Runs (Reaches)

/-- The page that shows the list. -/
def ItemList.position : ItemList → Nat
  | personal => 0
  | group => 1

/-! ### Screens -/

namespace Screen
variable {gson : Gson} {zone : Int → Int} {s t : Screen} {f i : Nat} {fragment : FilteredTodoFragment} {list : ItemList}
  {item : TodoItem}

/-- Selecting the page of a list and creating its fragment. -/
theorem createFragment_position (s : Screen) (list : ItemList) : ∃ filter,
    (s.onPageSelected list.position).adapter.createFragment list.position =
      .ok ((s.onPageSelected list.position).adapter.newFragment filter) := by
  cases list <;> exact ⟨_, rfl⟩

theorem onPageSelected_position (s : Screen) (list : ItemList) : (s.onPageSelected list.position).adapter.todoItems = list ∧
    (s.onPageSelected list.position).adapter.user = s.adapter.user ∧
    (∀ list', (s.onPageSelected list.position).items list' = s.items list') ∧
    (s.onPageSelected list.position).fragments = s.fragments := by
  cases list <;> exact ⟨rfl, rfl, fun list' => by cases list' <;> rfl, rfl⟩

/-- Outside that slot, scoring before a fix does not throw. -/
theorem scoringOk_start (hzone : ¬StartsBeforeWorking zone) {user : User} (hu : ∃ uuid, user = (createUser none uuid).1)
    (lat lng : ℚ) : ScoringOk user lat lng 0 (zone 0) := by
  obtain ⟨uuid, rfl⟩ := hu
  exact ⟨mapLocationToPlace_ok (iterates_refl _) lat lng, mapTimeToContext_ok (iterates_refl _) hzone⟩

theorem onViewCreated_step (hf : s.fragments[f]? = some fragment)
    (hscoring : ScoringOk fragment.user fragment.lat fragment.lng fragment.time (zone fragment.time)) :
    ∃ view, s.step gson zone (.onViewCreated f) = some (s.setFragment f { fragment with view := some view }) ∧
      view.Shows zone fragment (s.items fragment.allTodoItems) := by
  have hthrown := (@TickDurable.renderTodoList_thrown_iff zone s f fragment).mpr (Or.inr hscoring)
  have hended : renderTodoList zone f fragment s = ⟨(renderTodoList zone f fragment s).screen, none⟩ := by rw [← hthrown]
  obtain ⟨view, hview, hshows⟩ := renderTodoList_shows hended
  refine ⟨view, ?_, hshows⟩
  rw [step, handle, hf, Option.map_some, hended, hview]

/-- The listener ends when scoring does not throw. -/
theorem onCheckedChanged_of_scoringOk (h : Inv gson s) (hmem : fragment ∈ s.fragments)
    (hi : (s.items fragment.allTodoItems)[i]? = some item) (isChecked : Bool)
    (hscoring : ScoringOk fragment.user fragment.lat fragment.lng fragment.time (zone fragment.time)) :
    ∃ t, onCheckedChanged gson zone f fragment i item isChecked s = ⟨t, none⟩ := by
  have hthrown := (@TickDurable.renderTodoList_thrown_iff zone
    (TickDurable.ticked s fragment.allTodoItems i (item.setDone isChecked)) f fragment).mpr (Or.inr hscoring)
  have hwrite := TodoDatabase.updateTodo_of_nodup (h.inStep fragment.allTodoItems) (h.titles _) hi
    (item.setDone_title isChecked)
  obtain ⟨view, hview⟩ := renderTodoList_screen zone f fragment
    (TickDurable.ticked s fragment.allTodoItems i (item.setDone isChecked))
  exact ⟨_, by rw [TickDurable.onCheckedChanged_eq, Ended.andThen_of_none hthrown, hview, updateTodo, prefs_setFragment,
    TickDurable.prefs_ticked, h.fragments fragment hmem, hwrite]⟩

/-- A view has a checkbox for each open item. -/
theorem exists_box {view : TodoListView} {items : List TodoItem} (h : view.Shows zone fragment items)
    (hi : items[i]? = some item) (hopen : item.isDone = false) :
    ∃ (box : Nat) (checkBox : CheckBox), view.notDone[box]? = some checkBox ∧ checkBox.item = i := by
  have hmem : i ∈ view.notDone.map CheckBox.item ++ view.done :=
    h.each.mem_iff.mpr (List.mem_range.mpr (List.getElem?_eq_some_iff.mp hi).1)
  rcases List.mem_append.mp hmem with hmem | hmem
  · obtain ⟨checkBox, hbox, rfl⟩ := List.mem_map.mp hmem
    obtain ⟨box, hget⟩ := List.mem_iff_getElem?.mp hbox
    exact ⟨box, checkBox, hget, rfl⟩
  · obtain ⟨item', hitem', hdone⟩ := h.done i hmem
    obtain rfl := Option.some.inj (hi.symm.trans hitem')
    rw [hopen] at hdone
    cases hdone

/-- On a screen without pages, the page of a list can be selected and created. -/
theorem reaches_created (hnil : s.fragments = []) (list : ItemList) : ∃ t fragment, Reaches (step gson zone) s t ∧
    t.fragments = [fragment] ∧ fragment.allTodoItems = list ∧ fragment.user = s.adapter.user ∧ fragment.time = 0 ∧
    fragment.view = none ∧ ∀ list', t.items list' = s.items list' := by
  obtain ⟨hlist, huser, hitems, hfragments⟩ := onPageSelected_position s list
  obtain ⟨filter, hcreate⟩ := createFragment_position s list
  have hcreated : (s.onPageSelected list.position).step gson zone (.createFragment list.position) =
      some { s.onPageSelected list.position with
        fragments := [(s.onPageSelected list.position).adapter.newFragment filter] } := by
    rw [step, handle, hcreate, hfragments, hnil]
    rfl
  have hselected : s.step gson zone (.onPageSelected list.position) = some (s.onPageSelected list.position) := rfl
  exact ⟨_, _, .head hselected (.head hcreated (.refl _)), rfl, hlist, huser, rfl, rfl, hitems⟩

/-- An open item of a page can be ticked, after the page is drawn. -/
theorem reaches_ticked (h : Inv gson s) (hunchecked : Unchecked s) (hf : s.fragments[f]? = some fragment)
    (hscoring : ScoringOk fragment.user fragment.lat fragment.lng fragment.time (zone fragment.time))
    (hi : (s.items fragment.allTodoItems)[i]? = some item) (hopen : item.isDone = false) :
    ∃ t, Reaches (step gson zone) s t ∧ ∀ list, t.items list =
      if list = fragment.allTodoItems then (s.items list).set i (item.setDone true) else s.items list := by
  obtain ⟨view, hdraw, hshows⟩ := @onViewCreated_step gson zone s f fragment hf hscoring
  obtain ⟨box, checkBox, hbox, rfl⟩ := exists_box hshows hi hopen
  obtain ⟨hinv, -⟩ := inv_step h hdraw
  have hnext : s.next gson zone (.onViewCreated f) = some (s.setFragment f { fragment with view := some view }) := by
    rw [next, step_eq_some hdraw]
    rfl
  have hf' : (s.setFragment f { fragment with view := some view }).fragments[f]? =
      some { fragment with view := some view } := List.getElem?_set_self (List.getElem?_eq_some_iff.mp hf).1
  have hmem := List.mem_of_getElem? hf'
  have hi' : ((s.setFragment f { fragment with view := some view }).items fragment.allTodoItems)[checkBox.item]? =
      some item := by rw [items_setFragment, hi]
  have hattached : (s.setFragment f { fragment with view := some view }).attached { fragment with view := some view } box =
      some (checkBox, item) := by
    simp only [attached, bind, Option.bind_some, hbox, hi']
    rfl
  have hfalse : checkBox.isChecked = false := attached_unchecked (unchecked_next hunchecked hnext).1 hmem hattached
  obtain ⟨t, ht⟩ := @onCheckedChanged_of_scoringOk gson zone _ f checkBox.item _ item hinv hmem hi' true hscoring
  have htick : (s.setFragment f { fragment with view := some view }).step gson zone (.tick f box) = some t := by
    have hhandle : (s.setFragment f { fragment with view := some view }).handle gson zone (.tick f box) =
        some ⟨t, none⟩ := by
      simp only [handle, bind, hf', Option.bind_some, hattached, hfalse]
      exact congrArg some ht
    rw [step, hhandle]
  refine ⟨t, .head hdraw (.head htick (.refl t)), fun list => ?_⟩
  rw [(onCheckedChanged_ends hinv hmem hi' ht).items]
  split
  · rename_i hlist
    rw [items_setFragment, hlist]
  · exact items_setFragment

/-- On a screen without pages, any open item can be ticked. -/
theorem reaches_ticked_first (hzone : ¬StartsBeforeWorking zone) (h : Inv gson s) (hnil : s.fragments = [])
    (hu : ∃ uuid, s.adapter.user = (createUser none uuid).1) (hi : (s.items list)[i]? = some item)
    (hopen : item.isDone = false) : ∃ t, Reaches (step gson zone) s t ∧ ∀ list', t.items list' =
      if list' = list then (s.items list').set i (item.setDone true) else s.items list' := by
  obtain ⟨created, fragment, hcreated, hfragments, rfl, huser, htime, hnone, hitems⟩ :=
    @reaches_created gson zone s hnil list
  have hinv : Inv gson created := hcreated.inv (fun _ _ _ h hs => (inv_step h hs).1) h
  have hunchecked : Unchecked created := fun x hx view hview => by
    rw [hfragments] at hx
    rw [List.mem_singleton.mp hx, hnone] at hview
    cases hview
  have hscoring : ScoringOk fragment.user fragment.lat fragment.lng fragment.time (zone fragment.time) := by
    rw [htime]
    exact scoringOk_start hzone (huser ▸ hu) _ _
  obtain ⟨t, hticked, hlists⟩ := @reaches_ticked gson zone created 0 i fragment item hinv hunchecked
    (by rw [hfragments]; rfl) hscoring (by rw [hitems, hi]) hopen
  exact ⟨t, hcreated.trans hticked, fun list' => by rw [hlists, hitems]⟩

end Screen

/-! ### The app -/

namespace Watch
variable {gson : Gson} {isTestMode : Bool} {zone : Int → Int} {w w' : Watch} {s t : Screen} {list : ItemList}
  {l : List TodoItem} {item : TodoItem} {i : Nat}

/-- A run of the screen in which no handler throws is a run of the app. -/
theorem reaches_screen (hinv : Inv gson w) (hs : w.screen = some s) (h : Reaches (Screen.step gson zone) s t) :
    ∃ w', Reaches (step gson isTestMode zone) w w' ∧ Inv gson w' ∧ w'.files.user = w.files.user ∧ w'.screen = some t := by
  obtain ⟨events, hrun⟩ := h
  induction events generalizing w s with
  | nil =>
    obtain rfl := Option.some.inj hrun
    exact ⟨w, .refl w, hinv, rfl, hs⟩
  | cons e events ih =>
    obtain ⟨u, hu, hrun⟩ := Runs.run_cons.mp hrun
    have hstep : w.step gson isTestMode zone (.onScreen e) =
        some { w with files := w.files.apply u.prefs, screen := some u } := by
      rw [step, hs, Option.bind_some, onScreen, Screen.step_eq_some hu]
      rfl
    obtain ⟨w', hreach, hinv', huser, hscreen⟩ := ih (hinv.screens hs hu) rfl hrun
    exact ⟨w', .head hstep hreach, hinv', huser, hscreen⟩

/-- The app after a launch, with both stores filled. -/
structure Usable (gson : Gson) (w : Watch) : Prop where
  inv : Inv gson w
  users : w.BuiltUsers
  stocked : ∀ list : ItemList, list.database.getAllTodos gson w.files.prefs ≠ .ok []

/-- The number of items of the list that are open. -/
def openCount (gson : Gson) (w : Watch) (list : ItemList) : Nat :=
  match list.database.getAllTodos gson w.files.prefs with
  | .ok l => l.countP fun item => !item.isDone
  | .error _ => 0

theorem openCount_of_ok (hl : list.database.getAllTodos gson w.files.prefs = .ok l) :
    openCount gson w list = l.countP fun item => !item.isDone := by rw [openCount, hl]

theorem countP_set_done (hi : l[i]? = some item) (hopen : item.isDone = false) :
    (l.set i (item.setDone true)).countP (fun item => !item.isDone) < l.countP fun item => !item.isDone := by
  obtain ⟨hlt, rfl⟩ := List.getElem?_eq_some_iff.mp hi
  have hpos : 0 < l.countP fun item => !item.isDone := List.countP_pos_iff.mpr ⟨_, List.getElem_mem hlt, by rw [hopen]; rfl⟩
  rw [List.countP_set hlt, hopen]
  simp only [TodoItem.setDone, Bool.not_false, if_true, Bool.not_true, Bool.false_eq_true, if_false]
  omega

/-- Each open item can be ticked, and the other items stay as they are. -/
theorem reaches_ticked (hzone : ¬StartsBeforeWorking zone) (h : Usable gson w)
    (hl : list.database.getAllTodos gson w.files.prefs = .ok l) (hi : l[i]? = some item) (hopen : item.isDone = false) :
    ∃ w', Reaches (step gson isTestMode zone) w w' ∧ Usable gson w' ∧
      ∀ (list' : ItemList) l', list'.database.getAllTodos gson w.files.prefs = .ok l' →
        list'.database.getAllTodos gson w'.files.prefs =
          .ok (if list' = list then l'.set i (item.setDone true) else l') := by
  obtain ⟨launch, s, hlaunch, hinv, -, -, hscreen, hstock⟩ := launch_spec h.inv ""
  have hstep : w.step gson isTestMode zone (.launch "") = some launch := by rw [step, hlaunch]
  have husers := builtUsers_step h.users hstep
  have hnil : s.fragments = [] := by
    obtain ⟨s', hscreen', hnil⟩ := (launched hlaunch).screen
    rwa [Option.some.inj (hscreen.symm.trans hscreen')]
  have hitems : ∀ (list' : ItemList) l', list'.database.getAllTodos gson w.files.prefs = .ok l' → s.items list' = l' :=
    fun list' l' hl' => by
      rw [hstock list' l' hl', stock, if_neg]
      rintro rfl
      exact h.stocked list' hl'
  have hu : ∃ uuid, s.adapter.user = (createUser none uuid).1 := by
    obtain ⟨u, hu, hadapter, -⟩ := (hinv.screen s hscreen).user
    exact hadapter ▸ husers u (hu ▸ WriteBack.memory_mem _)
  obtain ⟨t, hticked, hlists⟩ := @Screen.reaches_ticked_first gson zone s i list item hzone (hinv.screen s hscreen).inv hnil
    hu (by rw [hitems list l hl, hi]) hopen
  obtain ⟨w', hreach, hinv', huser, hscreen'⟩ := @reaches_screen gson isTestMode zone launch s t hinv hscreen hticked
  refine ⟨w', .head hstep hreach, ⟨hinv', fun u hu => husers u (huser ▸ hu), fun list' hnone => ?_⟩,
    fun list' l' hl' => ?_⟩
  · exact (hinv'.screen t hscreen').stocked list' (Except.ok.inj ((hinv'.items hscreen' list').symm.trans hnone))
  · rw [hinv'.items hscreen' list', hlists, hitems list' l' hl']

/-- The number of items that are open, in both stores. -/
def remaining (gson : Gson) (w : Watch) : Nat := openCount gson w .personal + openCount gson w .group

theorem reaches_less (hzone : ¬StartsBeforeWorking zone) (h : Usable gson w) (hopen : remaining gson w ≠ 0) :
    ∃ w', Reaches (step gson isTestMode zone) w w' ∧ Usable gson w' ∧ remaining gson w' < remaining gson w := by
  obtain ⟨list, hlist⟩ : ∃ list, openCount gson w list ≠ 0 := by
    by_contra hnone
    push Not at hnone
    exact hopen (by rw [remaining, hnone, hnone])
  obtain ⟨-, l, -, hl, -⟩ := h.inv.todos.reads list
  rw [openCount_of_ok hl, Ne, List.countP_eq_zero, not_forall] at hlist
  obtain ⟨item, hitem⟩ := hlist
  simp only [not_forall, not_not, Bool.not_eq_true'] at hitem
  obtain ⟨hmem, hitemOpen⟩ := hitem
  obtain ⟨i, hi⟩ := List.mem_iff_getElem?.mp hmem
  obtain ⟨w', hreach, husable, hreads⟩ := @reaches_ticked gson isTestMode zone w list l item i hzone h hl hi hitemOpen
  refine ⟨w', hreach, husable, ?_⟩
  have hless : openCount gson w' list < openCount gson w list := by
    rw [openCount_of_ok hl, openCount_of_ok (hreads list l hl), if_pos rfl]
    exact countP_set_done hi hitemOpen
  have hsame : ∀ list' ≠ list, openCount gson w' list' = openCount gson w list' := fun list' hne => by
    obtain ⟨-, l', -, hl', -⟩ := h.inv.todos.reads list'
    rw [openCount_of_ok hl', openCount_of_ok (hreads list' l' hl'), if_neg hne]
  unfold remaining
  cases list with
  | personal => rw [hsame .group (by decide)]; omega
  | group => rw [hsame .personal (by decide)]; omega

/-- What a store has in memory can be written to the disk. -/
theorem reaches_saved (w : Watch) (key : String) : ∃ w', Reaches (step gson isTestMode zone) w w' ∧
    w'.files.prefs = w.files.prefs ∧ w'.files.onDisk key = w.files.prefs key ∧
    ∀ key' ≠ key, w'.files.onDisk key' = w.files.onDisk key' := by
  by_cases hnil : (w.files.todos key).queue = []
  · refine ⟨w, .refl w, rfl, ?_, fun _ _ => rfl⟩
    simp only [Files.onDisk, Files.prefs, WriteBack.memory, WriteBack.values, hnil, List.getLast_singleton]
  · obtain ⟨n, file, hfile, hdisk⟩ := WriteBack.exists_flush hnil
    have hstep : w.step gson isTestMode zone (.flushTodos key n) =
        some { w with files := { w.files with todos := Function.update w.files.todos key file } } := by
      rw [step, hfile]
      rfl
    refine ⟨_, .head hstep (.refl _), ?_, ?_, fun key' hne => ?_⟩
    · funext key'
      simp only [Files.prefs]
      by_cases hkey : key' = key
      · subst hkey
        rw [Function.update_self, WriteBack.memory_flush hfile]
      · rw [Function.update_of_ne hkey]
    · simp only [Files.onDisk, Files.prefs, Function.update_self, hdisk]
    · simp only [Files.onDisk, Function.update_of_ne hne]

/-- Every item of both stores is done on disk, and there are items. -/
def Finished (gson : Gson) (w : Watch) : Prop := ∀ list : ItemList, ∃ l,
  list.database.getAllTodos gson w.files.onDisk = .ok l ∧ l ≠ [] ∧ ∀ item ∈ l, item.isDone = true

theorem reaches_finished (hzone : ¬StartsBeforeWorking zone) (h : Usable gson w) :
    ∃ w', Reaches (step gson isTestMode zone) w w' ∧ Finished gson w' := by
  obtain ⟨done, hdone, husable, hzero⟩ := @Runs.exists_reaches_of_measure _ _ (step gson isTestMode zone)
    (Usable gson) w (remaining gson) (fun _ h hopen => reaches_less hzone h hopen) h
  obtain ⟨w₁, hreach₁, hprefs₁, hdisk₁, -⟩ := @reaches_saved gson isTestMode zone done (ItemList.database .personal).key
  obtain ⟨w₂, hreach₂, hprefs₂, hdisk₂, hothers₂⟩ := @reaches_saved gson isTestMode zone w₁ (ItemList.database .group).key
  refine ⟨w₂, (hdone.trans hreach₁).trans hreach₂, fun list => ?_⟩
  have hsaved : w₂.files.onDisk list.database.key = done.files.prefs list.database.key := by
    cases list with
    | personal => rw [hothers₂ _ (by decide), hdisk₁]
    | group => rw [hdisk₂, hprefs₁]
  obtain ⟨-, l, -, hl, -⟩ := husable.inv.todos.reads list
  refine ⟨l, by rw [TodoDatabase.getAllTodos, hsaved]; exact hl, fun hnil => husable.stocked list (hnil ▸ hl), ?_⟩
  have hcount : l.countP (fun item => !item.isDone) = 0 := by
    rw [← openCount_of_ok hl]
    unfold remaining at hzero
    cases list <;> omega
  intro item hitem
  simpa using List.countP_eq_zero.mp hcount item hitem

end Watch

open Watch

/-- In such a time zone, from any moment of any run, a continuation of the run ends with all items of both stores done
    on disk. -/
theorem watch_canFinish (gson : Gson) (isTestMode : Bool) (zone : Int → Int) (hzone : ¬StartsBeforeWorking zone)
    (events : List Watch.Event) :
    Runs.Always (Watch.step gson isTestMode zone)
      (fun w => ∃ w', Reaches (Watch.step gson isTestMode zone) w w' ∧ Finished gson w') installed events := by
  refine (Runs.always_of_inv (fun u _ _ (h : Inv gson u ∧ u.BuiltUsers) _ hs =>
    ⟨(step_spec h.1 hs).1, builtUsers_step h.2 hs⟩) ⟨inv_installed gson, (stuck_installed gson).users⟩
    Runs.meets_true).imp fun w h => ?_
  obtain ⟨t, s, hlaunch, hinv, -, -, hscreen, -⟩ := launch_spec h.1 ""
  have hstep : w.step gson isTestMode zone (.launch "") = some t := by rw [step, hlaunch]
  have husable : Usable gson t := by
    refine ⟨hinv, builtUsers_step h.2 hstep, fun list hnone => ?_⟩
    exact (hinv.screen s hscreen).stocked list (Except.ok.inj ((hinv.items hscreen list).symm.trans hnone))
  obtain ⟨w', hreach, hfinished⟩ := @reaches_finished gson isTestMode zone t hzone husable
  exact ⟨w', .head hstep hreach, hfinished⟩

/-- In Greenwich, after the process has died in the middle of the first launch. -/
theorem watch_canFinish_greenwich :
    Runs.Always (Watch.step gson true fun _ => 0)
      (fun w => ∃ w', Reaches (Watch.step gson true fun _ => 0) w w' ∧ Finished gson w') installed
      [.launch "42", .flushTodos "personalTodoTemp" 0, .killed] :=
  watch_canFinish gson true (fun _ => 0) (by decide) _

end TodoWatch
