import TodoWatch.Theorems.FirstLaunch
import TodoWatch.Theorems.RankingSafety
import TodoWatch.Theorems.TickDurable

/-! # Pages that are drawn before a fix

A fragment ranks for the first instant of 1970 until it is handed a fix, which finds it only once it is drawn. Where
that instant falls between 7:00 and 8:59, the first drawing of a list of two or more items throws, so the app dies
whenever it opens the page, and no item of the list can ever be ticked. -/

namespace TodoWatch
open RankingSafety

/-- In local time, the first instant of 1970 falls into the slot `before_working`, which names no constant. -/
def StartsBeforeWorking (zone : Int → Int) : Prop := 420 ≤ minuteOfDay 0 (zone 0) ∧ minuteOfDay 0 (zone 0) ≤ 539

instance (zone : Int → Int) : Decidable (StartsBeforeWorking zone) := inferInstanceAs (Decidable (_ ∧ _))

/-- There are fewer than two items, or none is done. -/
def OpenOrShort (l : List TodoItem) : Prop := 2 ≤ l.length → ∀ item ∈ l, item.isDone = false

theorem openOrShort_take (list : ItemList) (n : Nat) : OpenOrShort (list.mock.take n) := fun _ item hitem => by
  have hall : ∀ item ∈ list.mock, item.isDone = false := by cases list <;> decide
  exact hall item (List.mem_of_mem_take hitem)

/-! ### Screens -/

namespace Screen
variable {gson : Gson} {zone : Int → Int} {s t : Screen} {e : Event} {f : Nat} {fragment : FilteredTodoFragment}

/-- A fix only reaches a fragment that is drawn. -/
def FixesDrawn (s : Screen) : Event → Prop
  | .updateLocationAndTime f _ _ _ => ∀ fragment, s.fragments[f]? = some fragment → fragment.view ≠ none
  | _ => True

/-- Where there is something to rank, nothing is drawn. -/
def Undrawn (s : Screen) : Prop :=
  ∀ fragment ∈ s.fragments, 2 ≤ (s.items fragment.allTodoItems).length → fragment.view = none ∧ fragment.time = 0

/-- Fragments rank for a user that `createUser` has built. -/
def BuiltUsers (s : Screen) : Prop := ∀ fragment ∈ s.fragments, ∃ uuid, fragment.user = (createUser none uuid).1

theorem renderTodoList_undrawn (hzone : StartsBeforeWorking zone) (hu : ∃ uuid, fragment.user = (createUser none uuid).1)
    (htime : fragment.time = 0) (hlength : 2 ≤ (s.items fragment.allTodoItems).length)
    (hopen : ∀ item ∈ s.items fragment.allTodoItems, item.isDone = false) :
    (renderTodoList zone f fragment s).thrown ≠ none := by
  obtain ⟨uuid, hu⟩ := hu
  have hiter : (createUser none uuid).1.Iterates fragment.user := hu ▸ iterates_refl _
  rw [Ne, TickDurable.renderTodoList_thrown_iff, htime,
    List.filter_eq_self.mpr fun item hitem => by rw [hopen item hitem]; rfl]
  rintro (hshort | ⟨-, context, hcontext⟩)
  · omega
  · rw [mapTimeToContext_error hiter hzone] at hcontext
    cases hcontext

/-- The first drawing throws. -/
theorem handle_onViewCreated (hzone : StartsBeforeWorking zone) (hu : s.BuiltUsers) (h : s.Undrawn)
    (hopen : ∀ list, OpenOrShort (s.items list)) (hf : s.fragments[f]? = some fragment)
    (hlength : 2 ≤ (s.items fragment.allTodoItems).length) :
    ∃ u x, s.handle gson zone (.onViewCreated f) = some ⟨u, some x⟩ := by
  have hmem := List.mem_of_getElem? hf
  have hthrown := @renderTodoList_undrawn zone s f fragment hzone (hu fragment hmem) (h fragment hmem hlength).2 hlength
    (hopen _ hlength)
  obtain ⟨x, hx⟩ := Option.ne_none_iff_exists'.mp hthrown
  exact ⟨_, x, by rw [handle, hf, ← hx]; rfl⟩

/-- A list with a drawn view is short. -/
theorem Undrawn.short (h : s.Undrawn) (hmem : fragment ∈ s.fragments) (hview : fragment.view ≠ none) :
    (s.items fragment.allTodoItems).length < 2 := by
  by_contra hlength
  exact hview (h fragment hmem (by omega)).1

theorem attached_view {box : Nat} {x : CheckBox × TodoItem} (h : s.attached fragment box = some x) :
    fragment.view ≠ none := by
  intro hnone
  rw [attached, hnone] at h
  cases h

/-- What the fragments are after a handler that ends without an exception. -/
theorem fragments_step (hzone : StartsBeforeWorking zone) (hinv : Inv gson s) (hu : s.BuiltUsers) (h : s.Undrawn)
    (hopen : ∀ list, OpenOrShort (s.items list)) (hfix : s.FixesDrawn e) (hs : s.step gson zone e = some t)
    {x : FilteredTodoFragment} (hx : x ∈ t.fragments) :
    x ∈ s.fragments ∨ x.view = none ∧ x.time = 0 ∨ (s.items x.allTodoItems).length < 2 := by
  have hh := step_eq_some hs
  cases e with
  | onPageSelected position =>
    obtain rfl := congrArg Ended.screen (Option.some.inj hh)
    unfold onPageSelected at hx
    split at hx <;> exact Or.inl hx
  | createFragment position =>
    simp only [handle] at hh
    split at hh
    · rename_i y hy
      obtain rfl := congrArg Ended.screen (Option.some.inj hh)
      obtain ⟨-, filter, rfl⟩ := TodoPageAdapter.createFragment_eq_ok hy
      rcases List.mem_append.mp hx with hx | hx
      · exact Or.inl hx
      · rw [List.mem_singleton.mp hx]
        exact Or.inr (Or.inl ⟨rfl, rfl⟩)
    · cases congrArg Ended.thrown (Option.some.inj hh)
  | onViewCreated f =>
    obtain ⟨fragment, hf, hended⟩ := Option.map_eq_some_iff.mp hh
    have hshort : (s.items fragment.allTodoItems).length < 2 := by
      by_contra hlength
      obtain ⟨u, thrown, hthrown⟩ := @handle_onViewCreated gson zone s f fragment hzone hu h hopen hf (by omega)
      cases hh.symm.trans hthrown
    obtain ⟨view, hview⟩ := renderTodoList_screen zone f fragment s
    rw [hended] at hview
    obtain rfl := hview
    rcases mem_setFragment hx with hx | rfl
    · exact Or.inl hx
    · exact Or.inr (Or.inr hshort)
  | updateLocationAndTime f lat lng curTime =>
    obtain ⟨fragment, hf, hended⟩ := Option.map_eq_some_iff.mp hh
    obtain ⟨y, hy, -, hlist⟩ := updateLocationAndTime_screen zone f fragment lat lng curTime s
    rw [hended] at hy
    obtain rfl := hy
    rcases mem_setFragment hx with hx | rfl
    · exact Or.inl hx
    · rw [hlist]
      exact Or.inr (Or.inr (h.short (List.mem_of_getElem? hf) (hfix fragment hf)))
  | tick f box =>
    simp only [handle, bind, Option.bind_eq_some_iff] at hh
    obtain ⟨fragment, hf, ⟨checkBox, item⟩, hattached, hended⟩ := hh
    have hmem := List.mem_of_getElem? hf
    have hticked := onCheckedChanged_ends hinv hmem (attached_eq_some hattached) (Option.some.inj hended)
    have hshort := h.short hmem (attached_view hattached)
    rcases hticked.fragments x hx with hx | ⟨view, rfl⟩
    · exact Or.inl hx
    · exact Or.inr (Or.inr hshort)

/-- No handler that ends without an exception draws a list of two or more items, or ticks an item of one. -/
theorem undrawn_step (hzone : StartsBeforeWorking zone) (hinv : Inv gson s) (hu : s.BuiltUsers) (h : s.Undrawn)
    (hopen : ∀ list, OpenOrShort (s.items list)) (hfix : s.FixesDrawn e) (hs : s.step gson zone e = some t) :
    t.Undrawn ∧ ∀ list, OpenOrShort (t.items list) := by
  constructor
  · intro x hx hlength
    rw [length_items hinv hs] at hlength
    rcases fragments_step hzone hinv hu h hopen hfix hs hx with hx | hnew | hshort
    · exact h x hx hlength
    · exact hnew
    · omega
  · intro list
    rcases items_step hinv hs list with heq | ⟨fragment, hmem, box, checkBox, item, rfl, hattached, heq⟩
    · rw [heq]
      exact hopen list
    · intro hlength
      have hshort := h.short hmem (attached_view hattached)
      rw [heq, List.length_set] at hlength
      omega

end Screen

namespace Watch
variable {gson : Gson} {isTestMode : Bool} {zone : Int → Int} {w w' : Watch}

/-! ### The user -/

/-- Whatever user may come back from the file, `createUser` has built it. -/
def BuiltUsers (w : Watch) : Prop := ∀ u, some u ∈ w.files.user.values → ∃ uuid, u = (createUser none uuid).1

theorem builtUsers_step {e : Event} (h : w.BuiltUsers) (hs : w.step gson isTestMode zone e = some w') :
    w'.BuiltUsers := by
  cases step_moves hs with
  | launch hlaunch =>
    rename_i uuid
    intro u hu
    rw [(launched hlaunch).user, Files.applyUser] at hu
    dsimp only at hu
    split at hu
    · exact h u hu
    · rw [WriteBack.values_write] at hu
      rcases List.mem_append.mp hu with hu | hu
      · exact h u hu
      · have hcreate := List.mem_singleton.mp hu
        cases hmemory : w.files.user.memory with
        | none =>
          rw [hmemory] at hcreate
          exact ⟨uuid, Option.some.inj hcreate⟩
        | some v =>
          rw [hmemory] at hcreate
          obtain rfl := Option.some.inj hcreate
          exact h u (hmemory ▸ WriteBack.memory_mem _)
  | handle _ _ heq =>
    rw [heq]
    exact h
  | die hfiles =>
    intro u hu
    rw [hfiles] at hu
    obtain hu := List.mem_singleton.mp hu
    exact h u (hu ▸ WriteBack.disk_mem _)
  | flush _ heq =>
    rw [heq]
    exact h
  | keep _ huser => exact fun u hu => h u (huser _ hu)

theorem Inv.builtUsers (hinv : Inv gson w) (h : w.BuiltUsers) {s : Screen} (hs : w.screen = some s) : s.BuiltUsers := by
  obtain ⟨u, hu, hone⟩ := (hinv.screen s hs).user
  intro fragment hmem
  rw [hone.2 fragment hmem]
  exact h u (hu ▸ WriteBack.memory_mem _)

/-! ### Runs -/

/-- A fix only reaches a fragment that is drawn: the pages are added and drawn in one go. -/
def FixesDrawn (w : Watch) : Event → Prop
  | .onScreen e => ∀ s, w.screen = some s → s.FixesDrawn e
  | _ => True

/-- The app as it is for good in such a time zone. -/
structure Stuck (gson : Gson) (w : Watch) : Prop where
  inv : Inv gson w
  users : w.BuiltUsers
  stores : ∀ list, w.files.Each gson list OpenOrShort
  screen : ∀ s, w.screen = some s → s.Undrawn

theorem Stuck.items (h : Stuck gson w) {s : Screen} (hs : w.screen = some s) (list : ItemList) :
    OpenOrShort (s.items list) := (h.stores list).inMemory (h.inv.items hs list)

theorem stuck_installed (gson : Gson) : Stuck gson installed where
  inv := inv_installed gson
  users u hu := by cases List.mem_singleton.mp hu
  stores list a ha := by
    obtain rfl := List.mem_singleton.mp ha
    exact ⟨[], gson.fromJson_empty, fun hlength => by simp at hlength⟩
  screen s hs := by cases hs

theorem stuck_step {e : Event} (hzone : StartsBeforeWorking zone) (h : Stuck gson w) (hfix : w.FixesDrawn e)
    (hs : w.step gson isTestMode zone e = some w') : Stuck gson w' := by
  have hinv := (step_spec h.inv hs).1
  have husers := builtUsers_step h.users hs
  cases step_moves hs with
  | launch hlaunch =>
    refine ⟨hinv, husers, fun list => each_launch (h.stores list) (fun _ => openOrShort_take list) hlaunch,
      fun s hscreen x hx => ?_⟩
    obtain ⟨s', hscreen', hnone⟩ := (launched hlaunch).screen
    obtain rfl := Option.some.inj (hscreen.symm.trans hscreen')
    rw [hnone] at hx
    cases hx
  | handle hscreen hstep heq =>
    have hok := h.inv.screen _ hscreen
    obtain ⟨hundrawn, hopen⟩ := Screen.undrawn_step hzone hok.inv (h.inv.builtUsers h.users hscreen)
      (h.screen _ hscreen) (h.items hscreen) (hfix _ hscreen) hstep
    subst heq
    refine ⟨hinv, husers, fun list => each_handle (h.stores list) hok hstep (hopen list), fun s' hs' => ?_⟩
    obtain rfl := Option.some.inj hs'
    exact hundrawn
  | die hfiles hscreen =>
    refine ⟨hinv, husers, fun list => ?_, fun s hs => ?_⟩
    · rw [hfiles]
      exact (h.stores list).crash
    · rw [hscreen] at hs
      cases hs
  | flush hfile heq =>
    subst heq
    exact ⟨hinv, husers, fun list => (h.stores list).flush hfile, h.screen⟩
  | keep htodos _ hscreen =>
    refine ⟨hinv, husers, fun list => (h.stores list).of_eq (by rw [htodos]), fun s hs => ?_⟩
    rcases hscreen with hscreen | hscreen
    · exact h.screen s (hscreen ▸ hs)
    · rw [hscreen] at hs
      cases hs

/-- Drawing the fragment ends the process. -/
theorem Stuck.dies (hzone : StartsBeforeWorking zone) (h : Stuck gson w) {s : Screen} (hs : w.screen = some s) {f : Nat}
    {fragment : FilteredTodoFragment} (hf : s.fragments[f]? = some fragment)
    (hlength : 2 ≤ (s.items fragment.allTodoItems).length) :
    w.step gson isTestMode zone (.onScreen (.onViewCreated f)) = some w.die := by
  obtain ⟨u, x, hhandle⟩ := @Screen.handle_onViewCreated gson zone s f fragment hzone (h.inv.builtUsers h.users hs)
    (h.screen s hs) (h.items hs) hf hlength
  rw [step, hs, Option.bind_some, onScreen, hhandle]
  rfl

/-- No item of a list of two or more is done, no fragment of such a list is drawn, and the app dies of drawing it. -/
structure CrashLoop (gson : Gson) (isTestMode : Bool) (zone : Int → Int) (w : Watch) : Prop where
  onDisk : ∀ (list : ItemList) l, list.database.getAllTodos gson w.files.onDisk = .ok l → OpenOrShort l
  prefs : ∀ (list : ItemList) l, list.database.getAllTodos gson w.files.prefs = .ok l → OpenOrShort l
  drawing : ∀ s (f : Nat) (fragment : FilteredTodoFragment), w.screen = some s → s.fragments[f]? = some fragment →
    2 ≤ (s.items fragment.allTodoItems).length →
      fragment.view = none ∧ w.step gson isTestMode zone (.onScreen (.onViewCreated f)) = some w.die

end Watch

open Watch

/-- In such a time zone, whatever happens from the installation on, as long as fixes only reach fragments that are
    drawn: the app dies whenever it draws a list of two or more items, and none of these items is ever done. -/
theorem watch_crashLoop (gson : Gson) (isTestMode : Bool) (zone : Int → Int) (hzone : StartsBeforeWorking zone)
    (events : List Watch.Event) (hfix : Runs.Meets (Watch.step gson isTestMode zone) FixesDrawn installed events) :
    Runs.Always (Watch.step gson isTestMode zone) (CrashLoop gson isTestMode zone) installed events := by
  refine (Runs.always_of_inv (fun _ _ _ h hc hs => stuck_step hzone h hc hs) (stuck_installed gson) hfix).imp
    fun w h => ⟨fun list l => (h.stores list).onDisk, fun list l => (h.stores list).inMemory,
      fun s f fragment hs hf hlength => ?_⟩
  exact ⟨(h.screen s hs fragment (List.mem_of_getElem? hf) hlength).1, h.dies hzone hs hf hlength⟩

/-- East of Greenwich by eight hours: the app is launched, dies of its first page, and is launched again. -/
theorem watch_crashLoop_east :
    let zone : Int → Int := fun _ => 28800000
    let events : List Watch.Event := [.launch "42", .onScreen (.createFragment 0), .onScreen (.onViewCreated 0),
      .launch "42", .onScreen (.createFragment 0)]
    StartsBeforeWorking zone ∧ Runs.Meets (Watch.step gson true zone) FixesDrawn installed events ∧
      Runs.Always (Watch.step gson true zone) (CrashLoop gson true zone) installed events := by
  intro zone events
  have hzone : StartsBeforeWorking zone := by decide
  have hfix : Runs.Meets (Watch.step gson true zone) FixesDrawn installed events := by
    simp [events, Runs.Meets, FixesDrawn, Screen.FixesDrawn]
  exact ⟨hzone, hfix, watch_crashLoop gson true zone hzone events hfix⟩

end TodoWatch
