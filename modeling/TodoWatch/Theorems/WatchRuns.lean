import TodoWatch.Theorems.WatchInv

/-! # Runs of an installed app

What a user can rely on from the installation of the app on, wherever the process dies and whatever has reached
the disk by then. -/

namespace TodoWatch
namespace Watch

variable {gson : Gson} {isTestMode : Bool} {zone : Int → Int} {w w' : Watch}

/-- What `w` has on disk is still there in `w'`: each item in its place, done if it was done, and the user. -/
structure Outlasts (gson : Gson) (w w' : Watch) : Prop where
  todos : ∀ (list : ItemList) l, list.database.getAllTodos gson w.files.onDisk = .ok l →
    ∃ l', list.database.getAllTodos gson w'.files.onDisk = .ok l' ∧ Later l l'
  user : ∀ u, w.files.user.disk = some u → w'.files.user.disk = some u

/-- Stores and screen: both stores decode, in memory and on disk, to the first of the built-in items, each as it was
    or done, in memory nothing less than on disk. An activity shows the stores, and they are not empty. -/
structure Consistent (gson : Gson) (w : Watch) : Prop where
  stores : ∀ list : ItemList, ∃ l₀ l, list.database.getAllTodos gson w.files.onDisk = .ok l₀ ∧
    list.database.getAllTodos gson w.files.prefs = .ok l ∧ Seeded list l₀ ∧ Seeded list l ∧ Later l₀ l
  shown : ∀ s, w.screen = some s → ∀ list : ItemList,
    list.database.getAllTodos gson w.files.prefs = .ok (s.items list) ∧ s.items list ≠ []

/-- There is one user: the saved one, if any, is that of the activity, of its fragments, of the process and of each
    service that lives or has a check pending. -/
structure OneUser (w : Watch) : Prop where
  screen : ∀ s, w.screen = some s → w.files.user.memory = some s.adapter.user ∧
    ∀ fragment ∈ s.fragments, w.files.user.memory = some fragment.user
  userManager : ∀ u, w.userManager = some u → w.files.user.memory = some u
  services : ∀ i x u, Live w.process i → w.services[i]? = some x → x.user = some u → w.files.user.memory = some u

theorem Inv.consistent (h : Inv gson w) : Consistent gson w :=
  ⟨h.todos.reads, fun s hs list => ⟨h.items hs list, (h.screen s hs).stocked list⟩⟩

theorem Inv.oneUser (h : Inv gson w) : w.OneUser := by
  refine ⟨fun s hs => ?_, h.userManager, h.services.users⟩
  obtain ⟨u, hu, hadapter, hfragments⟩ := (h.screen s hs).user
  rw [hadapter]
  exact ⟨hu, fun fragment hmem => by rw [hfragments fragment hmem, hu]⟩

theorem always_inv (gson : Gson) (isTestMode : Bool) (zone : Int → Int) (h : Inv gson w) (events : List Event) :
    Runs.Always (step gson isTestMode zone) (Inv gson) w events :=
  Runs.always_of_inv (fun _ _ _ h _ hs => (step_spec h hs).1) h Runs.meets_true

/-! ### Reminders -/

/-- An item that is done on disk. -/
def DoneOnDisk (gson : Gson) (w : Watch) (title : String) : Prop :=
  ∃ l, (ItemList.database .personal).getAllTodos gson w.files.onDisk = .ok l ∧
    ∃ item ∈ l, item.isDone = true ∧ item.title = title

/-- The reminders of `w'` since `w` are for built-in personal items, none of which was done on disk in `w`. -/
def RemindsOpen (gson : Gson) (w w' : Watch) : Prop :=
  ∃ new, w'.reminded = w.reminded ++ new ∧ ∀ r ∈ new, r.item ∈ personalMock ∧ ¬DoneOnDisk gson w r.item.title

theorem DoneOnDisk.grows {title : String} (h : DoneOnDisk gson w title) (hgrows : (diskGrowth gson).grows w w') :
    DoneOnDisk gson w' title := by
  obtain ⟨l, hl, item, hitem, hdone, htitle⟩ := h
  obtain ⟨l', hl', hlater⟩ := hgrows.1 .personal l hl
  obtain ⟨i, hi⟩ := List.mem_iff_getElem?.mp hitem
  obtain ⟨y, hy, hxy⟩ := hlater i item hi
  obtain rfl := hxy.eq_of_done hdone
  exact ⟨l', hl', y, List.mem_of_getElem? hy, hdone, htitle⟩

theorem Reminds.open_on_disk {r : Reminded} (h : Inv gson w) (hr : Reminds gson w r) :
    r.item ∈ personalMock ∧ ¬DoneOnDisk gson w r.item.title := by
  obtain ⟨l, hl, hmem⟩ := hr.item
  obtain ⟨l₀, l', hl₀, hl', -, hseed, hlater⟩ := h.todos.reads .personal
  obtain rfl := Except.ok.inj (hl.symm.trans hl')
  constructor
  · obtain ⟨i, hi⟩ := List.mem_iff_getElem?.mp hmem
    obtain ⟨x, hx, hxy⟩ := hseed i r.item hi
    rw [hxy.eq_of_open hr.isOpen]
    exact List.mem_of_getElem? hx
  · rintro ⟨l₁, hl₁, item, hitem, hdone, htitle⟩
    obtain rfl := Except.ok.inj (hl₀.symm.trans hl₁)
    obtain ⟨i, hi⟩ := List.mem_iff_getElem?.mp hitem
    obtain ⟨y, hy, hxy⟩ := hlater i item hi
    obtain rfl := hxy.eq_of_done hdone
    -- Titles are distinct in memory, so the open item would be the one that is done.
    have hsame := List.inj_on_of_nodup_map hseed.titles (List.mem_of_getElem? hy) hmem htitle
    rw [hsame, hr.isOpen] at hdone
    cases hdone

theorem remindsOpen_step {e : Event} {w₀ : Watch} (h : Inv gson w) (hgrown : (diskGrowth gson).grows w₀ w)
    (hopen : RemindsOpen gson w₀ w) (hs : w.step gson isTestMode zone e = some w') : RemindsOpen gson w₀ w' := by
  obtain ⟨new, hnew, hall⟩ := hopen
  obtain ⟨-, -, hsame | ⟨r, hreminded, hr⟩⟩ := step_spec h hs
  · exact ⟨new, hsame.trans hnew, hall⟩
  · refine ⟨new ++ [r], by rw [hreminded, hnew, List.append_assoc], fun x hx => ?_⟩
    rcases List.mem_append.mp hx with hx | hx
    · exact hall x hx
    · rw [List.mem_singleton.mp hx]
      obtain ⟨hmock, hdisk⟩ := hr.open_on_disk h
      exact ⟨hmock, fun hdone => hdisk (hdone.grows hgrown)⟩

end Watch

open Watch

/-- Whatever is on disk at some moment of a run is still there at any later one, also after the process has died. -/
theorem watch_outlasts (gson : Gson) (isTestMode : Bool) (zone : Int → Int) (before after : List Watch.Event) :
    Runs.Always (Watch.step gson isTestMode zone)
      (fun w => Runs.Always (Watch.step gson isTestMode zone) (Outlasts gson w) w after) installed before := by
  refine (always_inv gson isTestMode zone (inv_installed gson) before).imp fun w hw => ?_
  refine (Runs.always_of_inv (fun u _ t (h : Inv gson u ∧ (diskGrowth gson).grows w u) _ hs => ?_)
    ⟨hw, (diskGrowth gson).refl w⟩ Runs.meets_true).imp fun w' h => ⟨h.2.1, h.2.2⟩
  obtain ⟨hinv, hgrows, -⟩ := step_spec h.1 hs
  exact ⟨hinv, (diskGrowth gson).trans h.2 hgrows⟩

/-- At any moment of a run stores and screen are consistent, and a launch goes through and shows the stores, or the
    built-in items of a store that is empty. -/
theorem watch_consistent (gson : Gson) (isTestMode : Bool) (zone : Int → Int) (events : List Watch.Event) :
    Runs.Always (Watch.step gson isTestMode zone)
      (fun w => Consistent gson w ∧ ∀ uuid, ∃ t s, w.step gson isTestMode zone (.launch uuid) = some t ∧
        t.screen = some s ∧ ∀ (list : ItemList) l, list.database.getAllTodos gson w.files.prefs = .ok l →
          s.items list = if l = [] then list.mock else l) installed events := by
  refine (always_inv gson isTestMode zone (inv_installed gson) events).imp fun w hw => ⟨hw.consistent, fun uuid => ?_⟩
  obtain ⟨t, s, hlaunch, -, -, -, hscreen, hitems⟩ := launch_spec hw uuid
  exact ⟨t, s, by rw [step, hlaunch], hscreen, hitems⟩

/-- From any moment of a run on reminders are only for built-in personal items, and for none that is done on disk by
    then: no reminder for it comes again, also after the process has died. -/
theorem watch_remindsOpen (gson : Gson) (isTestMode : Bool) (zone : Int → Int) (before after : List Watch.Event) :
    Runs.Always (Watch.step gson isTestMode zone)
      (fun w => Runs.Always (Watch.step gson isTestMode zone) (RemindsOpen gson w) w after) installed before := by
  refine (always_inv gson isTestMode zone (inv_installed gson) before).imp fun w hw => ?_
  refine (Runs.always_of_inv
    (fun u _ t (h : Inv gson u ∧ (diskGrowth gson).grows w u ∧ RemindsOpen gson w u) _ hs => ?_)
    ⟨hw, (diskGrowth gson).refl w, [], by simp⟩ Runs.meets_true).imp fun w' h => h.2.2
  obtain ⟨hinv, hgrown, hopen⟩ := h
  obtain ⟨hinv', hgrows, -⟩ := step_spec hinv hs
  exact ⟨hinv', (diskGrowth gson).trans hgrown hgrows, remindsOpen_step hinv hgrown hopen hs⟩

/-- At any moment of a run all parts of the app rank for the saved user. -/
theorem watch_oneUser (gson : Gson) (isTestMode : Bool) (zone : Int → Int) (events : List Watch.Event) :
    Runs.Always (Watch.step gson isTestMode zone) OneUser installed events :=
  (always_inv gson isTestMode zone (inv_installed gson) events).imp fun _ h => h.oneUser

end TodoWatch
