import TodoWatch.Theorems.WatchInv
import TodoWatch.Theorems.WatchSteps

/-! # A first launch that is cut short

The first launch inserts the built-in items one at a time, and each insertion is an `apply` of its own. If the
process dies when only some of them have reached the disk, the next launch finds a store that is not empty and
takes it as it is. No step adds an item to such a store, so the rest never comes. -/

namespace TodoWatch

/-! ### What each list of a file has -/

namespace Files
variable {gson : Gson} {files files' : Files} {prefs : Preferences} {db : TodoDatabase} {list : ItemList}
  {l items mock : List TodoItem} {key : String} {P : List TodoItem → Prop}

/-- Whatever value of its file a store may come back with, it decodes to a list that has the property. -/
def Each (gson : Gson) (list : ItemList) (P : List TodoItem → Prop) (files : Files) : Prop :=
  ∀ a ∈ (files.todos list.database.key).values, ∃ l, gson.fromJson (a.getD "[]") = .ok l ∧ P l

theorem Each.of_eq (h : files.Each gson list P)
    (heq : files'.todos list.database.key = files.todos list.database.key) : files'.Each gson list P := by
  unfold Each
  rw [heq]
  exact h

theorem Each.crash (h : files.Each gson list P) : files.crash.Each gson list P := fun a ha => by
  obtain rfl := List.mem_singleton.mp ha
  exact h _ (WriteBack.disk_mem _)

theorem each_crash (hl : list.database.getAllTodos gson files.onDisk = .ok l) (hP : P l) :
    files.crash.Each gson list P := fun a ha => by
  obtain rfl := List.mem_singleton.mp ha
  exact ⟨l, hl, hP⟩

theorem Each.inMemory (h : files.Each gson list P) (hl : list.database.getAllTodos gson files.prefs = .ok l) : P l := by
  obtain ⟨l', hl', hP⟩ := h _ (WriteBack.memory_mem _)
  obtain rfl := Except.ok.inj (hl'.symm.trans hl)
  exact hP

theorem Each.onDisk (h : files.Each gson list P) (hl : list.database.getAllTodos gson files.onDisk = .ok l) : P l := by
  obtain ⟨l', hl', hP⟩ := h _ (WriteBack.disk_mem _)
  obtain rfl := Except.ok.inj (hl'.symm.trans hl)
  exact hP

theorem Each.flush (h : files.Each gson list P) {m : Nat} {file : WriteBack (Option String)}
    (hf : (files.todos key).flush m = some file) :
    Each gson list P { files with todos := Function.update files.todos key file } := by
  by_cases hk : list.database.key = key
  · subst hk
    unfold Each
    simp only [Function.update_self]
    intro a ha
    exact h a (by rw [WriteBack.values_flush hf]; exact List.mem_append_right _ ha)
  · exact h.of_eq (Function.update_of_ne hk _ _)

theorem Each.apply (h : files.Each gson list P) (hl : list.database.getAllTodos gson prefs = .ok l) (hP : P l) :
    (files.apply prefs).Each gson list P := by
  unfold Each
  simp only [Files.apply]
  split
  · exact h
  · rw [WriteBack.values_write]
    intro a ha
    rcases List.mem_append.mp ha with ha | ha
    · exact h a ha
    · rw [List.mem_singleton.mp ha]
      exact ⟨l, hl, hP⟩

/-! ### Launches -/

theorem values_save (hl : db.getAllTodos gson files.prefs = .ok l) (item : TodoItem) :
    ((files.apply (db.saveTodos gson files.prefs (l ++ [item]))).todos db.key).values =
      (files.todos db.key).values ++ [some (gson.toJson (l ++ [item]))] := by
  have htext : db.saveTodos gson files.prefs (l ++ [item]) db.key = some (gson.toJson (l ++ [item])) :=
    Function.update_self _ _ _
  have hne : some (gson.toJson (l ++ [item])) ≠ (files.todos db.key).memory := fun heq => by
    -- The text in memory decodes to the shorter list.
    have hread : gson.fromJson (gson.toJson (l ++ [item])) = .ok l := by
      rw [← hl, TodoDatabase.getAllTodos, Files.prefs, ← heq]
      rfl
    have hsame := congrArg List.length (Except.ok.inj ((gson.fromJson_toJson _).symm.trans hread))
    simp at hsame
  simp only [Files.apply, htext, if_neg hne, WriteBack.values_write]

/-- Each insertion queues the list so far. -/
theorem values_insertTodos (hl : db.getAllTodos gson files.prefs = .ok l)
    (h : files.insertTodos gson db items = .ok files') :
    (files'.todos db.key).values = (files.todos db.key).values ++
      (List.range items.length).map fun k => some (gson.toJson (l ++ items.take (k + 1))) := by
  induction items generalizing files l with
  | nil =>
    rw [← Except.ok.inj h]
    simp
  | cons item items ih =>
    rw [insertTodos, TodoDatabase.insertTodo_of_ok hl] at h
    have hnext : db.getAllTodos gson (files.apply (db.saveTodos gson files.prefs (l ++ [item]))).prefs =
        .ok (l ++ [item]) := by rw [prefs_apply, TodoDatabase.getAllTodos_saveTodos]
    rw [ih hnext h, values_save hl, List.length_cons, List.range_succ_eq_map]
    simp [Function.comp_def]

/-- An empty store gets the built-in items, the first one, the first two, and so on. -/
theorem values_fetch (hl : list.database.getAllTodos gson files.prefs = .ok [])
    (hfetch : files.fetchTodos gson list.database list.mock [] = .ok (l, files')) :
    (files'.todos list.database.key).values = (files.todos list.database.key).values ++
      (List.range list.mock.length).map fun k => some (gson.toJson (list.mock.take (k + 1))) := by
  obtain ⟨todos, htodos, hinsert⟩ := fetchTodos_eq_ok hfetch
  obtain rfl := Except.ok.inj (htodos.symm.trans hl)
  rw [if_pos rfl, List.append_nil] at hinsert
  exact values_insertTodos hl hinsert

/-- Nothing is fetched for a store that is not empty. -/
theorem Each.fetch (h : files.Each gson list P) (hmock : P [] → ∀ n, P (list.mock.take n))
    (hfetch : files.fetchTodos gson list.database list.mock [] = .ok (l, files')) : files'.Each gson list P := by
  obtain ⟨todos, htodos, hinsert⟩ := fetchTodos_eq_ok hfetch
  by_cases hnil : todos = []
  · subst hnil
    intro a ha
    rw [values_fetch htodos hfetch] at ha
    rcases List.mem_append.mp ha with ha | ha
    · exact h a ha
    · obtain ⟨k, -, rfl⟩ := List.mem_map.mp ha
      exact ⟨_, gson.fromJson_toJson _, hmock (h.inMemory htodos) _⟩
  · rw [if_neg hnil] at hinsert
    rwa [← Except.ok.inj hinsert]

end Files

namespace Screen
variable {gson : Gson} {zone : Int → Int} {s t : Screen} {e : Event} {list : ItemList}

/-- A list only changes by a tick in a view of it, at the position of the checkbox. -/
theorem items_step (h : Inv gson s) (hs : s.step gson zone e = some t) (list : ItemList) : t.items list = s.items list ∨
    ∃ fragment ∈ s.fragments, ∃ box checkBox item, fragment.allTodoItems = list ∧
      s.attached fragment box = some (checkBox, item) ∧
      t.items list = (s.items list).set checkBox.item (item.setDone (!checkBox.isChecked)) := by
  obtain ⟨hinv, hwritten⟩ := inv_step h hs
  have reads : ∀ l, list.database.getAllTodos gson t.prefs = .ok l → t.items list = l := fun l hl =>
    Except.ok.inj ((hinv.inStep list).symm.trans hl)
  cases e with
  | tick f box =>
    obtain ⟨fragment, checkBox, item, hf, hattached, hprefs⟩ := hwritten
    by_cases hlist : list = fragment.allTodoItems
    · subst hlist
      exact Or.inr ⟨fragment, List.mem_of_getElem? hf, box, checkBox, item, rfl, hattached,
        reads _ (by rw [hprefs, TodoDatabase.getAllTodos_saveTodos])⟩
    · refine Or.inl (reads _ ?_)
      rw [hprefs, TodoDatabase.getAllTodos_saveTodos_of_ne (database_key_ne hlist), h.inStep]
  | onPageSelected position | createFragment position | onViewCreated f | updateLocationAndTime f lat lng curTime =>
    have hprefs : t.prefs = s.prefs := hwritten
    exact Or.inl (reads _ (by rw [hprefs, h.inStep]))

theorem length_items (h : Inv gson s) (hs : s.step gson zone e = some t) :
    (t.items list).length = (s.items list).length := by
  rcases items_step h hs list with heq | ⟨_, _, _, _, _, _, _, heq⟩
  · rw [heq]
  · rw [heq, List.length_set]

end Screen

namespace Watch
variable {gson : Gson} {isTestMode : Bool} {zone : Int → Int} {w w' : Watch} {list : ItemList} {l : List TodoItem}
  {uuid : String} {n : Nat} {P : List TodoItem → Prop}

theorem each_launch (h : w.files.Each gson list P) (hmock : P [] → ∀ n, P (list.mock.take n))
    (hlaunch : w.launch gson uuid = .ok w') : w'.files.Each gson list P := by
  obtain ⟨start, files, id, personal, group, hstart, hpersonal, hgroup⟩ := (launched hlaunch).fetched
  have hsame : start.Each gson list P := h.of_eq (by rw [hstart])
  cases list with
  | personal =>
    have hfetched : files.Each gson .personal P := hsame.fetch hmock hpersonal
    exact hfetched.of_eq ((Files.fetchTodos_same hgroup).todos _ (by decide))
  | group =>
    have hkept : files.Each gson .group P := hsame.of_eq ((Files.fetchTodos_same hpersonal).todos _ (by decide))
    exact hkept.fetch hmock hgroup

/-- A handler of the screen leaves what it wrote. -/
theorem each_handle {s t : Screen} {e : Screen.Event} (h : w.files.Each gson list P) (hs : ScreenOk gson w.files s)
    (ht : s.step gson zone e = some t) (hP : P (t.items list)) : (w.files.apply t.prefs).Each gson list P :=
  h.apply ((Screen.inv_step hs.inv ht).1.inStep list) hP

/-- No step of the app adds an item to a store that is not empty, or takes one away. -/
theorem ofLength_step {e : Event} (h : w.files.Each gson list (·.length = n)) (hinv : Inv gson w) (hn : n ≠ 0)
    (hs : w.step gson isTestMode zone e = some w') : w'.files.Each gson list (·.length = n) := by
  cases step_moves hs with
  | launch hlaunch => exact each_launch h (fun hnil => absurd hnil.symm hn) hlaunch
  | handle hscreen hstep heq =>
    have hok := hinv.screen _ hscreen
    rw [heq]
    refine each_handle h hok hstep ?_
    rw [Screen.length_items hok.inv hstep]
    exact h.inMemory (hinv.items hscreen list)
  | die hfiles =>
    rw [hfiles]
    exact h.crash
  | flush hfile heq =>
    rw [heq]
    exact h.flush hfile
  | keep htodos => exact h.of_eq (by rw [htodos])

/-- The list has `n` items wherever it is: on disk, in memory, on the screen. -/
structure HasLength (gson : Gson) (list : ItemList) (n : Nat) (w : Watch) : Prop where
  onDisk : ∃ l, list.database.getAllTodos gson w.files.onDisk = .ok l ∧ l.length = n
  prefs : ∃ l, list.database.getAllTodos gson w.files.prefs = .ok l ∧ l.length = n
  shown : ∀ s, w.screen = some s → (s.items list).length = n

theorem Inv.hasLength (hinv : Inv gson w) (h : w.files.Each gson list (·.length = n)) : HasLength gson list n w where
  onDisk := h _ (WriteBack.disk_mem _)
  prefs := h _ (WriteBack.memory_mem _)
  shown _ hs := h.inMemory (hinv.items hs list)

theorem always_hasLength (hinv : Inv gson w) (h : w.files.Each gson list (·.length = n)) (hn : n ≠ 0)
    (events : List Event) : Runs.Always (step gson isTestMode zone) (HasLength gson list n) w events :=
  (Runs.always_of_inv (fun u _ _ (h : Inv gson u ∧ u.files.Each gson list (·.length = n)) _ hs =>
    ⟨(step_spec h.1 hs).1, ofLength_step h.2 h.1 hn hs⟩) ⟨hinv, h⟩ Runs.meets_true).imp
      fun _ h => h.1.hasLength h.2

/-- The first launch leaves the built-in items in the queue: the first one, the first two, and so on. -/
theorem queue_launch (h : installed.launch gson uuid = .ok w) (list : ItemList) :
    (w.files.todos list.database.key).queue =
      (List.range list.mock.length).map fun k => some (gson.toJson (list.mock.take (k + 1))) := by
  obtain ⟨start, files, id, P, G, hstart, hpersonal, hgroup⟩ := (launched h).fetched
  have hempty : ∀ key, start.todos key = .saved none := fun key => by rw [hstart]; rfl
  cases list with
  | personal =>
    have hkept : w.files.todos ItemList.personal.database.key = files.todos ItemList.personal.database.key :=
      (Files.fetchTodos_same hgroup).todos _ (by decide)
    have hnone : ItemList.personal.database.getAllTodos gson start.prefs = .ok [] := by
      rw [TodoDatabase.getAllTodos, Files.prefs, hempty]
      exact gson.fromJson_empty
    have hvalues := Files.values_fetch hnone hpersonal
    rw [hempty] at hvalues
    rw [hkept]
    exact (List.cons.inj hvalues).2
  | group =>
    have hkept : files.todos ItemList.group.database.key = start.todos ItemList.group.database.key :=
      (Files.fetchTodos_same hpersonal).todos _ (by decide)
    have hnone : ItemList.group.database.getAllTodos gson files.prefs = .ok [] := by
      rw [TodoDatabase.getAllTodos, Files.prefs, hkept, hempty]
      exact gson.fromJson_empty
    have hvalues := Files.values_fetch hnone hgroup
    rw [hkept, hempty] at hvalues
    exact (List.cons.inj hvalues).2

/-- Any number of the insertions can have reached the disk when the process dies. -/
theorem run_cutShort (uuid : String) (hn : n < list.mock.length) : ∃ w,
    Runs.run (step gson isTestMode zone) installed [.launch uuid, .flushTodos list.database.key n, .killed] = some w.die ∧
      Inv gson w ∧ list.database.getAllTodos gson w.files.onDisk = .ok (list.mock.take (n + 1)) := by
  obtain ⟨t, s, hlaunch, hinv, -⟩ := launch_spec (inv_installed gson) uuid
  have hqueued : (t.files.todos list.database.key).queue[n]? = some (some (gson.toJson (list.mock.take (n + 1)))) := by
    rw [queue_launch hlaunch, List.getElem?_map, List.getElem?_range hn]
    rfl
  obtain ⟨file, hfile, hdisk⟩ : ∃ file, (t.files.todos list.database.key).flush n = some file ∧
      file.disk = some (gson.toJson (list.mock.take (n + 1))) := ⟨_, by rw [WriteBack.flush, hqueued]; rfl, rfl⟩
  refine ⟨_, ?_, (flushTodos_spec hinv hfile).1, ?_⟩
  · simp only [Runs.run, step, hlaunch, Option.bind_some, hfile, Option.map_some]
  · simp only [TodoDatabase.getAllTodos, Files.onDisk, Function.update_self, hdisk]
    exact gson.fromJson_toJson _

end Watch

open Watch

/-- A list that is not empty on disk when the process dies keeps the number of its items from then on. -/
theorem watch_keepsLength (gson : Gson) (isTestMode : Bool) (zone : Int → Int) (before after : List Watch.Event) :
    Runs.Always (Watch.step gson isTestMode zone) (fun w => ∀ (list : ItemList) l,
        list.database.getAllTodos gson w.files.onDisk = .ok l → l ≠ [] →
          Runs.Always (Watch.step gson isTestMode zone) (HasLength gson list l.length) w.die after)
      installed before := by
  refine (Runs.always_of_inv (fun _ _ _ h _ hs => (step_spec h hs).1) (inv_installed gson) Runs.meets_true).imp
    fun w hw list l hl hne => ?_
  exact always_hasLength hw.die (Files.each_crash hl rfl) (by simpa using hne) after

/-- The process can die with any number of the built-in items on disk, and the rest of them never comes, whatever
    is done with the app after that. -/
theorem watch_cutShort (gson : Gson) (isTestMode : Bool) (zone : Int → Int) (uuid : String) (list : ItemList) (n : Nat)
    (hn : n < list.mock.length) : ∃ w,
    Runs.run (Watch.step gson isTestMode zone) installed [.launch uuid, .flushTodos list.database.key n, .killed] = some w ∧
      list.database.getAllTodos gson w.files.onDisk = .ok (list.mock.take (n + 1)) ∧
      ∀ events, Runs.Always (Watch.step gson isTestMode zone) (HasLength gson list (n + 1)) w events := by
  obtain ⟨w, hrun, hinv, hdisk⟩ := run_cutShort uuid hn
  have hlength : (list.mock.take (n + 1)).length = n + 1 := by rw [List.length_take]; omega
  exact ⟨w.die, hrun, hdisk, always_hasLength hinv.die (Files.each_crash hdisk hlength) (Nat.succ_ne_zero n)⟩

/-- Only the first personal item has reached the disk: the other two never come. -/
theorem watch_cutShort_first : ∃ w, Runs.run (Watch.step gson false fun _ => 0) installed
      [.launch "42", .flushTodos "personalTodoTemp" 0, .killed] = some w ∧
    (ItemList.database .personal).getAllTodos gson w.files.onDisk =
      .ok [⟨"Buy concert ticket", .medium, .general, .general, false, ""⟩] ∧
    ∀ events, Runs.Always (Watch.step gson false fun _ => 0) (HasLength gson .personal 1) w events :=
  watch_cutShort gson false (fun _ => 0) "42" .personal 0 (by decide)

end TodoWatch
