import TodoWatch.Theorems.DoneIsFinal
import TodoWatch.Theorems.StoreFiles

/-! # What holds of an installed app

The invariant of the app from its installation on, over launches, ticks, services and deaths of the process, and
what each step does to the disk. -/

namespace TodoWatch

/-! ### The user of a screen -/

namespace Screen
variable {gson : Gson} {zone : Int → Int} {s t : Screen} {e : Event} {f : Nat} {fragment : FilteredTodoFragment}

/-- The fragments rank for the user of the adapter. -/
def OneUser (s : Screen) (user : User) : Prop :=
  s.adapter.user = user ∧ ∀ fragment ∈ s.fragments, fragment.user = user

theorem OneUser.setFragment {user : User} (h : s.OneUser user) (hx : fragment.user = user) :
    (s.setFragment f fragment).OneUser user := by
  refine ⟨h.1, fun x hmem => ?_⟩
  rcases mem_setFragment hmem with hmem | rfl
  · exact h.2 x hmem
  · exact hx

theorem OneUser.render {user : User} (h : s.OneUser user) (hx : fragment.user = user) :
    (renderTodoList zone f fragment s).screen.OneUser user := by
  obtain ⟨view, hview⟩ := renderTodoList_screen zone f fragment s
  rw [hview]
  exact h.setFragment hx

theorem OneUser.tick {user : User} (h : s.OneUser user) (hx : fragment.user = user) (i : Nat) (item : TodoItem)
    (isChecked : Bool) : (onCheckedChanged gson zone f fragment i item isChecked s).screen.OneUser user := by
  have hset : (s.setItems fragment.allTodoItems ((s.items fragment.allTodoItems).set i (item.setDone isChecked))).OneUser
      user := by
    unfold OneUser
    rw [adapter_setItems, fragments_setItems]
    exact h
  unfold onCheckedChanged Ended.andThen updateTodo
  dsimp only
  split
  · split <;> exact hset.render hx
  · exact hset.render hx

theorem oneUser_next {user : User} (h : s.OneUser user) (hs : s.next gson zone e = some t) : t.OneUser user := by
  obtain ⟨ended, hh, rfl⟩ := Option.map_eq_some_iff.mp hs
  cases e with
  | onPageSelected position =>
    obtain rfl := Option.some.inj hh
    unfold onPageSelected
    dsimp only
    split <;> exact h
  | createFragment position =>
    simp only [handle] at hh
    split at hh
    · rename_i x hx
      obtain rfl := Option.some.inj hh
      obtain ⟨-, filter, rfl⟩ := TodoPageAdapter.createFragment_eq_ok hx
      refine ⟨h.1, fun y hy => ?_⟩
      rcases List.mem_append.mp hy with hy | hy
      · exact h.2 y hy
      · rw [List.mem_singleton.mp hy]
        exact h.1
    · obtain rfl := Option.some.inj hh
      exact h
  | onViewCreated f =>
    obtain ⟨fragment, hf, rfl⟩ := Option.map_eq_some_iff.mp hh
    exact h.render (h.2 fragment (List.mem_of_getElem? hf))
  | updateLocationAndTime f lat lng curTime =>
    obtain ⟨fragment, hf, rfl⟩ := Option.map_eq_some_iff.mp hh
    have hx := h.2 fragment (List.mem_of_getElem? hf)
    unfold updateLocationAndTime
    dsimp only
    split
    · exact h.render hx
    · exact h.setFragment hx
  | tick f box =>
    simp only [handle, bind, Option.bind_eq_some_iff] at hh
    obtain ⟨fragment, hf, ⟨checkBox, item⟩, -, hended⟩ := hh
    obtain rfl := Option.some.inj hended
    exact h.tick (h.2 fragment (List.mem_of_getElem? hf)) _ _ _

end Screen

namespace Watch
open Runs (Growth)

variable {gson : Gson} {isTestMode : Bool} {zone : Int → Int} {w w' : Watch} {files : Files} {s t : Screen}

/-! ### Files -/

/-- A user that was saved stays. -/
def userGrowth : Growth UserPrefs where
  grows a b := ∀ u, a = some u → b = some u
  refl _ _ := id
  trans h h' u hu := h' u (h u hu)

/-- What is on disk is followed by later lists and the same user. -/
def diskGrowth (gson : Gson) : Growth Watch where
  grows w w' := (∀ list : ItemList,
      (textGrowth gson).grows (w.files.onDisk list.database.key) (w'.files.onDisk list.database.key)) ∧
    userGrowth.grows w.files.user.disk w'.files.user.disk
  refl _ := ⟨fun _ => (textGrowth gson).refl _, userGrowth.refl _⟩
  trans h h' := ⟨fun list => (textGrowth gson).trans (h.1 list) (h'.1 list), userGrowth.trans h.2 h'.2⟩

theorem diskGrowth_of_eq (htodos : w'.files.onDisk = w.files.onDisk) (huser : w'.files.user.disk = w.files.user.disk) :
    (diskGrowth gson).grows w w' := by
  refine ⟨fun list => ?_, ?_⟩
  · rw [htodos]
    exact (textGrowth gson).refl _
  · rw [huser]
    exact userGrowth.refl _

/-! ### The invariant -/

/-- The screen of the activity goes with the files. -/
structure ScreenOk (gson : Gson) (files : Files) (s : Screen) : Prop where
  inv : Screen.Inv gson s
  unchecked : s.Unchecked
  prefs : s.prefs = files.prefs
  stocked : ∀ list, s.items list ≠ []
  user : ∃ u, files.user.memory = some u ∧ s.OneUser u

/-- The service lives, or has a check pending. -/
def Live (p : Reminder.Process) (i : Nat) : Prop := p.service = some i ∨ i ∈ p.pending

/-- The static `instance` makes both databases of a service the personal one. -/
structure ServicesOk (w : Watch) : Prop where
  todoDatabase : w.todoDatabase = none ∨ w.todoDatabase = some (ItemList.database .personal)
  databases : ∀ x ∈ w.services, x.personalTodoDatabase = ItemList.database .personal ∧
    x.groupTodoDatabase = ItemList.database .personal
  created : w.process.created = w.services.length
  users : ∀ i x u, Live w.process i → w.services[i]? = some x → x.user = some u → w.files.user.memory = some u

structure Inv (gson : Gson) (w : Watch) : Prop where
  todos : FilesOk gson w.files
  user : w.files.user.Ascends userGrowth fun _ => True
  screen : ∀ s, w.screen = some s → ScreenOk gson w.files s
  userManager : ∀ u, w.userManager = some u → w.files.user.memory = some u
  services : ServicesOk w

theorem inv_installed (gson : Gson) : Inv gson installed where
  todos := .installed gson
  user := .of_saved trivial
  screen s hs := by cases hs
  userManager u hu := by cases hu
  services := ⟨Or.inl rfl, fun x hx => absurd hx List.not_mem_nil, rfl, fun i x u _ hx => by cases hx⟩

theorem Inv.items (h : Inv gson w) (hs : w.screen = some s) (list : ItemList) :
    list.database.getAllTodos gson w.files.prefs = .ok (s.items list) := by
  have hok := h.screen s hs
  rw [← hok.prefs, hok.inv.inStep]

/-- Files with the same values in memory. -/
theorem Inv.rewrites (h : Inv gson w) (files : Files) (htodos : FilesOk gson files)
    (huser : files.user.Ascends userGrowth fun _ => True)
    (hprefs : files.prefs = w.files.prefs) (hmemory : files.user.memory = w.files.user.memory) :
    Inv gson { w with files } := by
  obtain ⟨hinstance, hdatabases, hnumbers, husers⟩ := h.services
  refine ⟨htodos, huser, fun s hs => ?_, fun u hu => hmemory.trans (h.userManager u hu),
    ⟨hinstance, hdatabases, hnumbers, fun i x u hi hx hu => hmemory.trans (husers i x u hi hx hu)⟩⟩
  obtain ⟨hinv, hunchecked, hsame, hstocked, u, hu, hone⟩ := h.screen s hs
  exact ⟨hinv, hunchecked, hsame.trans hprefs.symm, hstocked, u, hmemory.trans hu, hone⟩

theorem not_live_die (p : Reminder.Process) (i : Nat) : ¬Live p.die i := by
  rintro (h | h)
  · cases h
  · cases h

/-- Death leaves what is on disk. -/
theorem Inv.dies (h : Inv gson w) {process : Reminder.Process} (hcreated : process.created = w.process.created)
    (hlive : ∀ i, ¬Live process i) : Inv gson { w.die with process } where
  todos := h.todos.crash
  user := h.user.crash
  screen s hs := by cases hs
  userManager u hu := by cases hu
  services := ⟨Or.inl rfl, h.services.databases, hcreated.trans h.services.created,
    fun i x u hi => absurd hi (hlive i)⟩

theorem Inv.die (h : Inv gson w) : Inv gson w.die := @Inv.dies gson w h w.process.die rfl (not_live_die _)

/-! ### Launches -/

/-- A launch has the saved user, or saves a new one. -/
theorem createUser_saved (prefs : UserPrefs) (uuid : String) :
    ∃ u, createUser prefs uuid = (u, some u) ∧ userGrowth.grows prefs (some u) := by
  cases prefs with
  | none => exact ⟨_, rfl, fun v hv => by cases hv⟩
  | some u => exact ⟨u, rfl, fun _ => id⟩

theorem memory_applyUser (prefs : UserPrefs) : (files.applyUser prefs).user.memory = prefs := by
  unfold Files.applyUser
  dsimp only
  split
  · rename_i h
    exact h.symm
  · exact WriteBack.memory_write _ _

theorem disk_applyUser (prefs : UserPrefs) : (files.applyUser prefs).user.disk = files.user.disk := by
  unfold Files.applyUser
  dsimp only
  split <;> rfl

theorem ascends_applyUser {prefs : UserPrefs} (h : files.user.Ascends userGrowth fun _ => True)
    (hgrows : userGrowth.grows files.user.memory prefs) : (files.applyUser prefs).user.Ascends userGrowth fun _ => True := by
  unfold Files.applyUser
  dsimp only
  split
  · exact h
  · exact h.write hgrows trivial

theorem screenOk_onCreate {personal group : List TodoItem} {u : User} (h : FilesOk gson files)
    (hpersonal : (ItemList.database .personal).getAllTodos gson files.prefs = .ok personal)
    (hgroup : (ItemList.database .group).getAllTodos gson files.prefs = .ok group) (hpersonal' : personal ≠ [])
    (hgroup' : group ≠ []) (hu : files.user.memory = some u) :
    ScreenOk gson files (Screen.onCreate personal group files.prefs u) where
  inv := by
    have hreads : ∀ list : ItemList, list.database.getAllTodos gson files.prefs =
        .ok ((Screen.onCreate personal group files.prefs u).items list) := fun list => by
      cases list with
      | personal => exact hpersonal
      | group => exact hgroup
    refine ⟨hreads, fun list => ?_, rfl, fun x hx => absurd hx List.not_mem_nil⟩
    obtain ⟨-, l, -, hl, -, hseed, -⟩ := h.reads list
    obtain rfl := Except.ok.inj (hl.symm.trans (hreads list))
    exact hseed.titles
  unchecked x hx := absurd hx List.not_mem_nil
  prefs := rfl
  stocked list := by
    cases list with
    | personal => exact hpersonal'
    | group => exact hgroup'
  user := ⟨u, hu, rfl, fun x hx => absurd hx List.not_mem_nil⟩

/-- What a launch shows: the lists of the stores, or the built-in ones of a store that was empty. -/
def stock (list : ItemList) (l : List TodoItem) : List TodoItem := if l = [] then list.mock else l

theorem stock_ne_nil (list : ItemList) (l : List TodoItem) : stock list l ≠ [] := by
  unfold stock
  split
  · cases list <;> decide
  · assumption

/-- A launch does not throw. -/
theorem launch_spec (h : Inv gson w) (uuid : String) : ∃ t s, w.launch gson uuid = .ok t ∧ Inv gson t ∧
    (diskGrowth gson).grows w t ∧ t.reminded = w.reminded ∧ t.screen = some s ∧
    ∀ list l, list.database.getAllTodos gson w.files.prefs = .ok l → s.items list = stock list l := by
  obtain ⟨u, hcreate, hgrows⟩ := createUser_saved w.files.user.memory uuid
  obtain ⟨-, P, -, hP, -, -, -⟩ := h.todos.reads .personal
  obtain ⟨-, G, -, hG, -, -, -⟩ := h.todos.reads .group
  have huser : FilesOk gson (w.files.applyUser (some u)) := h.todos
  obtain ⟨files, hpersonal, hgrew⟩ := fetchTodos_of_seeds huser .personal hP u.id
  obtain ⟨files', hgroup, hgrew'⟩ := fetchTodos_of_seeds hgrew.ok .group
    ((hgrew.others .group (by decide)).trans hG) "Group 4"
  have hmemory : files'.user.memory = some u := by rw [hgrew'.user, hgrew.user, memory_applyUser]
  have hdisk : files'.onDisk = w.files.onDisk := hgrew'.onDisk.trans hgrew.onDisk
  have hscreen : ScreenOk gson files' (Screen.onCreate (stock .personal P) (stock .group G) files'.prefs u) :=
    screenOk_onCreate hgrew'.ok ((hgrew'.others .personal (by decide)).trans hgrew.reads) hgrew'.reads
      (stock_ne_nil _ _) (stock_ne_nil _ _) hmemory
  have hlaunch : w.launch gson uuid = .ok { w with
      files := files'
      userManager := some u
      screen := some (Screen.onCreate (stock .personal P) (stock .group G) files'.prefs u) } := by
    unfold launch
    rw [hcreate]
    show (Files.fetchPersonalTodos gson u.id (w.files.applyUser (some u)) >>= _) = _
    rw [show Files.fetchPersonalTodos gson u.id (w.files.applyUser (some u)) = _ from hpersonal]
    show (Files.fetchGroupTodos gson "Group 4" files >>= _) = _
    rw [show Files.fetchGroupTodos gson "Group 4" files = _ from hgroup]
    rfl
  refine ⟨_, _, hlaunch, ⟨hgrew'.ok, ?_, fun s hs => ?_, fun v hv => ?_, ?_⟩, diskGrowth_of_eq hdisk ?_, rfl, rfl,
    fun list l hl => ?_⟩
  · rw [hgrew'.user, hgrew.user]
    exact ascends_applyUser h.user hgrows
  · obtain rfl := Option.some.inj hs
    exact hscreen
  · exact hmemory.trans hv
  · refine ⟨h.services.todoDatabase, h.services.databases, h.services.created, fun i x v hi hx hv => ?_⟩
    rw [hmemory, hgrows v (h.services.users i x v hi hx hv)]
  · rw [hgrew'.user, hgrew.user, disk_applyUser]
  · cases list with
    | personal =>
      obtain rfl := Except.ok.inj (hP.symm.trans hl)
      rfl
    | group =>
      obtain rfl := Except.ok.inj (hG.symm.trans hl)
      rfl

/-! ### Screens -/

/-- A handler that does not throw has changed one store at most, and no item is lost from it. -/
theorem grew_of_step {e : Screen.Event} (h : FilesOk gson files) (hs : ScreenOk gson files s)
    (ht : s.step gson zone e = some t) :
    ∃ list l, l ≠ [] ∧ GrewTo gson list l files (files.apply t.prefs) := by
  obtain ⟨-, hwritten⟩ := Screen.inv_step hs.inv ht
  have hreads : ∀ list : ItemList, list.database.getAllTodos gson files.prefs = .ok (s.items list) := fun list => by
    rw [← hs.prefs, hs.inv.inStep]
  have unchanged : t.prefs = s.prefs → ∃ list l, l ≠ [] ∧ GrewTo gson list l files (files.apply t.prefs) := fun heq =>
    ⟨.personal, _, hs.stocked _, by
      rw [heq, hs.prefs, Files.apply_prefs]
      exact .refl h (hreads _)⟩
  cases e with
  | onPageSelected position => exact unchanged hwritten
  | createFragment position => exact unchanged hwritten
  | onViewCreated f => exact unchanged hwritten
  | updateLocationAndTime f lat lng curTime => exact unchanged hwritten
  | tick f box =>
    obtain ⟨fragment, checkBox, item, hf, hattached, hprefs⟩ := hwritten
    have hunchecked := Screen.attached_unchecked hs.unchecked (List.mem_of_getElem? hf) hattached
    have hi := Screen.attached_eq_some hattached
    dsimp only at hunchecked hi
    obtain ⟨-, l, -, hl, -, hseed, -⟩ := h.reads fragment.allTodoItems
    obtain rfl := Except.ok.inj (hl.symm.trans (hreads _))
    rw [hprefs, hunchecked, hs.prefs]
    refine ⟨fragment.allTodoItems, _, ?_, h.save hl (later_set hi) (hseed.set hi)⟩
    exact fun hnil => hs.stocked _ ((List.set_eq_nil_iff _ _).mp hnil)

theorem screenOk_step {e : Screen.Event} (h : FilesOk gson files) (hs : ScreenOk gson files s)
    (ht : s.step gson zone e = some t) : ScreenOk gson (files.apply t.prefs) t := by
  obtain ⟨hinv, -⟩ := Screen.inv_step hs.inv ht
  have hnext : s.next gson zone e = some t := by rw [Screen.next, Screen.step_eq_some ht]; rfl
  obtain ⟨list, l, hl, hgrew⟩ := grew_of_step h hs ht
  refine ⟨hinv, (Screen.unchecked_next hs.unchecked hnext).1, Files.prefs_apply.symm, fun list' => ?_, ?_⟩
  · have hitems := hinv.inStep list'
    by_cases hlist : list' = list
    · subst hlist
      have hreads := hgrew.reads
      rw [Files.prefs_apply, hitems] at hreads
      rwa [Except.ok.inj hreads]
    · have hothers := hgrew.others list' hlist
      rw [Files.prefs_apply, hitems, ← hs.prefs, hs.inv.inStep] at hothers
      rw [Except.ok.inj hothers]
      exact hs.stocked list'
  · obtain ⟨u, hu, hone⟩ := hs.user
    exact ⟨u, hu, Screen.oneUser_next hone hnext⟩

theorem Inv.screens (h : Inv gson w) {e : Screen.Event} (hs : w.screen = some s) (ht : s.step gson zone e = some t) :
    Inv gson { w with files := w.files.apply t.prefs, screen := some t } := by
  obtain ⟨list, l, -, hgrew⟩ := grew_of_step h.todos (h.screen s hs) ht
  obtain ⟨hinstance, hdatabases, hcreated, husers⟩ := h.services
  refine ⟨hgrew.ok, h.user, fun t' ht' => ?_, h.userManager, ⟨hinstance, hdatabases, hcreated, husers⟩⟩
  obtain rfl := Option.some.inj ht'
  exact screenOk_step h.todos (h.screen s hs) ht

/-! ### Services -/

/-- Only `onCreate` makes a service live. -/
theorem live_of_step {p p' : Reminder.Process} {e : Reminder.Event} (hs : p.step e = some p') (he : e ≠ .onCreate) :
    p'.created = p.created ∧ ∀ i, Live p' i → Live p i := by
  cases e with
  | onCreate => exact absurd rfl he
  | onStartCommand =>
    obtain ⟨owner, howner, rfl⟩ := Option.map_eq_some_iff.mp hs
    refine ⟨rfl, fun i hi => ?_⟩
    rcases hi with hi | hi
    · exact Or.inl hi
    · rcases List.mem_append.mp hi with hi | hi
      · exact Or.inr hi
      · rw [List.mem_singleton.mp hi]
        exact Or.inl howner
  | run j throws =>
    obtain ⟨owner, howner, rfl⟩ := Option.map_eq_some_iff.mp hs
    unfold Reminder.Process.check
    cases throws with
    | true => exact ⟨rfl, fun i hi => absurd hi (not_live_die _ i)⟩
    | false =>
      refine ⟨rfl, fun i hi => ?_⟩
      rcases hi with hi | hi
      · exact Or.inl hi
      · -- The check has posted itself again.
        rcases List.mem_append.mp hi with hi | hi
        · exact Or.inr (List.mem_of_mem_eraseIdx hi)
        · rw [List.mem_singleton.mp hi]
          exact Or.inr (List.mem_of_getElem? howner)
  | onDestroy =>
    obtain ⟨owner, -, rfl⟩ := Option.map_eq_some_iff.mp hs
    exact ⟨rfl, fun i hi => hi.elim (fun hi => by cases hi) Or.inr⟩
  | killed =>
    obtain rfl := Option.some.inj hs
    exact ⟨rfl, fun i hi => absurd hi (not_live_die p i)⟩

theorem Inv.process (h : Inv gson w) {process : Reminder.Process} {e : Reminder.Event} (hs : w.process.step e = some process)
    (he : e ≠ .onCreate) : Inv gson { w with process } := by
  obtain ⟨hcreated, hlive⟩ := live_of_step hs he
  obtain ⟨hinstance, hdatabases, hnumbers, husers⟩ := h.services
  exact ⟨h.todos, h.user, h.screen, h.userManager,
    ⟨hinstance, hdatabases, hcreated.trans hnumbers, fun i x u hi => husers i x u (hlive i hi)⟩⟩

/-- A new service takes the user of the process, and its databases are the personal one. -/
theorem Inv.creates (h : Inv gson w) {process : Reminder.Process} (hs : w.process.step .onCreate = some process) :
    Inv gson { w.onCreate with process } := by
  have hprocess : process = w.process.onCreate := by
    unfold Reminder.Process.step at hs
    dsimp only at hs
    split at hs
    · exact (Option.some.inj hs).symm
    · cases hs
  subst hprocess
  obtain ⟨hinstance, hdatabases, hnumbers, husers⟩ := h.services
  have hnew : w.onCreate = { w with
      todoDatabase := some (ItemList.database .personal)
      services := w.services ++
        [⟨ItemList.database .personal, ItemList.database .personal, 0, 0, w.userManager⟩] } := by
    unfold onCreate
    rcases hinstance with hinstance | hinstance <;> rw [hinstance] <;> rfl
  rw [hnew]
  refine ⟨h.todos, h.user, h.screen, h.userManager, ⟨Or.inr rfl, fun x hx => ?_, ?_, fun i x u hi hx hu => ?_⟩⟩
  · rcases List.mem_append.mp hx with hx | hx
    · exact hdatabases x hx
    · rw [List.mem_singleton.mp hx]
      exact ⟨rfl, rfl⟩
  · rw [List.length_append, List.length_singleton, ← hnumbers]
    rfl
  · dsimp only at hx
    by_cases hlt : i < w.services.length
    · rw [List.getElem?_append_left hlt] at hx
      refine husers i x u ?_ hx hu
      rcases hi with hi | hi
      · -- The new service has the next number.
        have hi' : w.process.created = i := Option.some.inj hi
        omega
      · exact Or.inr hi
    · rw [List.getElem?_append_right (by omega)] at hx
      have hx' := List.mem_singleton.mp (List.mem_of_getElem? hx)
      rw [hx'] at hu
      exact h.userManager u hu

/-- A fix changes where a service ranks, and nothing else. -/
theorem Inv.locates (h : Inv gson w) {i : Nat} {x : TodoNotificationService} (hx : w.services[i]? = some x) (lat lng : ℚ) :
    Inv gson { w with services := w.services.set i (x.located lat lng) } := by
  obtain ⟨hinstance, hdatabases, hnumbers, husers⟩ := h.services
  refine ⟨h.todos, h.user, h.screen, h.userManager, ⟨hinstance, fun y hy => ?_, ?_, fun j y u hj hy hu => ?_⟩⟩
  · rcases List.mem_or_eq_of_mem_set hy with hy | rfl
    · exact hdatabases y hy
    · exact hdatabases x (List.mem_of_getElem? hx)
  · rw [List.length_set]
    exact hnumbers
  · dsimp only at hy
    by_cases hij : i = j
    · subst hij
      rw [List.getElem?_set_self (List.getElem?_eq_some_iff.mp hx).1] at hy
      obtain rfl := Option.some.inj hy
      exact husers i x u hj hx hu
    · rw [List.getElem?_set_ne hij] at hy
      exact husers j y u hj hy hu

/-! ### Checks -/

theorem Inv.reminds (h : Inv gson w) (reminded : List Reminded) : Inv gson { w with reminded } := by
  obtain ⟨hinstance, hdatabases, hnumbers, husers⟩ := h.services
  exact ⟨h.todos, h.user, h.screen, h.userManager, ⟨hinstance, hdatabases, hnumbers, husers⟩⟩

/-- A reminder of an open item of the personal store in memory, for the saved user if for any. -/
structure Reminds (gson : Gson) (w : Watch) (r : Reminded) : Prop where
  item : ∃ l, (ItemList.database .personal).getAllTodos gson w.files.prefs = .ok l ∧ r.item ∈ l
  isOpen : r.item.isDone = false
  user : ∀ u, r.user = some u → w.files.user.memory = some u

theorem mem_of_firstBest {service : TodoNotificationService} {items : List TodoItem} {now z : Int} {top : TodoItem}
    (h : service.FirstBest items now z top) : top ∈ items := by
  rcases h with rfl | ⟨-, -, -, -, before, after, rfl, -⟩
  · exact List.mem_singleton_self _
  · exact List.mem_append_right _ List.mem_cons_self

theorem run_spec (h : Inv gson w) {i : Nat} {x : Surroundings} (hr : w.run gson isTestMode zone i x = some w') :
    Inv gson w' ∧ (diskGrowth gson).grows w w' ∧
      (w'.reminded = w.reminded ∨ ∃ r, w'.reminded = w.reminded ++ [r] ∧ Reminds gson w r) := by
  simp only [run, bind, Option.bind_eq_some_iff] at hr
  obtain ⟨owner, howner, service, hservice, hr⟩ := hr
  split at hr
  · rename_i r hcheck
    obtain ⟨process, hprocess, heq⟩ := Option.bind_eq_some_iff.mp hr
    obtain rfl := Option.some.inj heq
    refine ⟨?_, diskGrowth_of_eq rfl rfl, ?_⟩
    · have hwritten := (h.process hprocess (by simp)).rewrites (w.files.applyNotified r.cache) h.todos h.user rfl rfl
      exact hwritten.reminds r.reminded
    · have hstep : Reminders.step gson isTestMode ⟨w.files.notified.memory, w.reminded⟩ (w.moment zone service x) = some r := by
        rw [Reminders.step, hcheck]
      rcases Reminders.step_cases hstep with ⟨top, ⟨-, ⟨items, ⟨P, G, hP, hG, rfl⟩, hbest⟩, -⟩, rfl⟩ | ⟨-, rfl⟩
      · refine Or.inr ⟨_, rfl, ?_⟩
        obtain ⟨hpersonal, hgroup⟩ := h.services.databases service (List.mem_of_getElem? hservice)
        obtain ⟨hmem, hopen⟩ := List.mem_filter.mp (mem_of_firstBest hbest)
        rw [show (w.moment zone service x).service = service from rfl, hpersonal] at hP
        rw [show (w.moment zone service x).service = service from rfl, hgroup] at hG
        obtain rfl := Except.ok.inj (hP.symm.trans hG)
        refine ⟨⟨P, hP, (List.mem_append.mp hmem).elim id id⟩, by simpa using hopen, fun u hu => ?_⟩
        exact h.services.users owner service u (Or.inr (List.mem_of_getElem? howner)) hservice hu
      · exact Or.inl rfl
  · obtain ⟨process, hprocess, heq⟩ := Option.bind_eq_some_iff.mp hr
    obtain rfl := Option.some.inj heq
    have hdead : process = ({ w.process with
        pending := w.process.pending.eraseIdx i
        late := if w.process.service = some owner then w.process.late else w.process.late + 1 } : Reminder.Process).die := by
      obtain ⟨owner', howner', rfl⟩ := Option.map_eq_some_iff.mp hprocess
      obtain rfl := Option.some.inj (howner.symm.trans howner')
      rfl
    refine ⟨h.dies (by rw [hdead]; rfl) (by rw [hdead]; exact not_live_die _), diskGrowth_of_eq rfl rfl, Or.inl rfl⟩

/-! ### Steps -/

theorem diskGrowth_die (w : Watch) : (diskGrowth gson).grows w w.die := diskGrowth_of_eq rfl rfl

theorem flushTodos_spec (h : Inv gson w) {key : String} {n : Nat} {file : WriteBack (Option String)}
    (hf : (w.files.todos key).flush n = some file) :
    Inv gson { w with files := { w.files with todos := Function.update w.files.todos key file } } ∧
      (diskGrowth gson).grows w { w with files := { w.files with todos := Function.update w.files.todos key file } } := by
  constructor
  · refine h.rewrites _ (h.todos.flush hf) h.user ?_ rfl
    funext k
    simp only [Files.prefs]
    by_cases hk : k = key
    · subst hk
      rw [Function.update_self]
      exact WriteBack.memory_flush hf
    · rw [Function.update_of_ne hk]
  · refine ⟨fun list => ?_, userGrowth.refl _⟩
    simp only [Files.onDisk]
    by_cases hk : list.database.key = key
    · subst hk
      rw [Function.update_self]
      exact ((h.todos list).flush hf).2
    · rw [Function.update_of_ne hk]
      exact (textGrowth gson).refl _

theorem onScreen_spec (h : Inv gson w) {e : Screen.Event} (hscreen : w.screen = some s)
    (hs : w.onScreen gson zone s e = some w') :
    Inv gson w' ∧ (diskGrowth gson).grows w w' ∧ w'.reminded = w.reminded := by
  obtain ⟨⟨t, thrown⟩, hhandle, rfl⟩ := Option.map_eq_some_iff.mp hs
  cases thrown with
  | none =>
    have hstep : s.step gson zone e = some t := by rw [Screen.step, hhandle]
    exact ⟨h.screens hscreen hstep, diskGrowth_of_eq Files.onDisk_apply rfl, rfl⟩
  | some x => exact ⟨h.die, diskGrowth_die w, rfl⟩

/-- Each step keeps the invariant and what is on disk, and reminds of an open item at most. -/
theorem step_spec (h : Inv gson w) {e : Event} (hs : w.step gson isTestMode zone e = some w') :
    Inv gson w' ∧ (diskGrowth gson).grows w w' ∧
      (w'.reminded = w.reminded ∨ ∃ r, w'.reminded = w.reminded ++ [r] ∧ Reminds gson w r) := by
  cases e with
  | launch uuid =>
    obtain ⟨t, s, hlaunch, hinv, hdisk, hreminded, -, -⟩ := launch_spec h uuid
    rw [step, hlaunch] at hs
    obtain rfl := Option.some.inj hs
    exact ⟨hinv, hdisk, Or.inl hreminded⟩
  | finish =>
    obtain rfl := Option.some.inj hs
    obtain ⟨hinstance, hdatabases, hnumbers, husers⟩ := h.services
    exact ⟨⟨h.todos, h.user, fun _ hs => (by cases hs), h.userManager, ⟨hinstance, hdatabases, hnumbers, husers⟩⟩,
      diskGrowth_of_eq rfl rfl, Or.inl rfl⟩
  | onScreen e =>
    obtain ⟨s, hscreen, hs⟩ := Option.bind_eq_some_iff.mp hs
    obtain ⟨hinv, hdisk, hreminded⟩ := onScreen_spec h hscreen hs
    exact ⟨hinv, hdisk, Or.inl hreminded⟩
  | onCreate =>
    obtain ⟨process, hprocess, rfl⟩ := Option.map_eq_some_iff.mp hs
    exact ⟨h.creates hprocess, diskGrowth_of_eq rfl rfl, Or.inl rfl⟩
  | onStartCommand =>
    obtain ⟨process, hprocess, rfl⟩ := Option.map_eq_some_iff.mp hs
    exact ⟨h.process hprocess (by simp), diskGrowth_of_eq rfl rfl, Or.inl rfl⟩
  | onDestroy =>
    obtain ⟨process, hprocess, rfl⟩ := Option.map_eq_some_iff.mp hs
    exact ⟨h.process hprocess (by simp), diskGrowth_of_eq rfl rfl, Or.inl rfl⟩
  | onLocation service lat lng =>
    obtain ⟨x, hx, rfl⟩ := Option.map_eq_some_iff.mp hs
    exact ⟨h.locates hx lat lng, diskGrowth_of_eq rfl rfl, Or.inl rfl⟩
  | run i x => exact run_spec h hs
  | flushTodos key n =>
    obtain ⟨file, hf, rfl⟩ := Option.map_eq_some_iff.mp hs
    obtain ⟨hinv, hdisk⟩ := flushTodos_spec h hf
    exact ⟨hinv, hdisk, Or.inl rfl⟩
  | flushUser n =>
    obtain ⟨file, hf, rfl⟩ := Option.map_eq_some_iff.mp hs
    obtain ⟨hascends, hgrows⟩ := h.user.flush hf
    exact ⟨h.rewrites { w.files with user := file } h.todos hascends rfl (WriteBack.memory_flush hf),
      ⟨fun _ => (textGrowth gson).refl _, hgrows⟩, Or.inl rfl⟩
  | flushNotified n =>
    obtain ⟨file, -, rfl⟩ := Option.map_eq_some_iff.mp hs
    exact ⟨h.rewrites { w.files with notified := file } h.todos h.user rfl rfl,
      diskGrowth_of_eq rfl rfl, Or.inl rfl⟩
  | recreate | killed =>
    obtain rfl := Option.some.inj hs
    exact ⟨h.die, diskGrowth_die w, Or.inl rfl⟩

end Watch

end TodoWatch
