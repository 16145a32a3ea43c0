import TodoWatch.Pages
import TodoWatch.Theorems.ScreenStorage
import Mathlib.Data.List.Forall2

/-! # Does each tab show its own list?

A fragment takes the list that the adapter holds when the framework asks for it, which is the list of the page
that was selected last. So a page has its own list exactly if it is created while it is selected. -/

namespace TodoWatch
namespace Pages

variable {gson : Gson} {zone : Int → Int} {s t : Pages} {e : Event} {f : Nat}

/-! ### What a step does to the fragments -/

/-- A handler has replaced a fragment by one on the same list. -/
structure Replaced (s t : Screen) (f : Nat) (old new : FilteredTodoFragment) : Prop where
  found : s.fragments[f]? = some old
  fragments : t.fragments = s.fragments.set f new
  list : new.allTodoItems = old.allTodoItems
  database : new.todoDatabase = old.todoDatabase
  adapter : t.adapter = s.adapter

theorem replaced_onViewCreated {s t : Screen} (hs : s.step gson zone (.onViewCreated f) = some t) :
    ∃ old new, Replaced s t f old new ∧ new.fix = old.fix := by
  obtain ⟨old, hf, hended⟩ := Option.map_eq_some_iff.mp (Screen.step_eq_some hs)
  obtain ⟨view, hview⟩ := Screen.renderTodoList_screen zone f old s
  rw [hended] at hview
  obtain rfl := hview
  exact ⟨old, { old with view }, ⟨hf, rfl, rfl, rfl, rfl⟩, rfl⟩

theorem replaced_tick {s t : Screen} {box : Nat} (hs : s.step gson zone (.tick f box) = some t) :
    ∃ old new, Replaced s t f old new ∧ new.fix = old.fix := by
  have hh := Screen.step_eq_some hs
  simp only [Screen.handle, bind, Option.bind_eq_some_iff] at hh
  obtain ⟨old, hf, ⟨checkBox, item⟩, -, hended⟩ := hh
  obtain ⟨-, hupdate⟩ := Screen.Ended.andThen_eq (Option.some.inj hended)
  obtain ⟨view, hview⟩ := Screen.renderTodoList_screen zone f old (s.setItems old.allTodoItems
    ((s.items old.allTodoItems).set checkBox.item (item.setDone (!checkBox.isChecked))))
  rw [hview] at hupdate
  unfold Screen.updateTodo at hupdate
  split at hupdate
  · obtain rfl := congrArg Screen.Ended.screen hupdate
    refine ⟨old, { old with view }, ⟨hf, ?_, rfl, rfl, Screen.adapter_setItems⟩, rfl⟩
    exact congrArg (List.set · f _) Screen.fragments_setItems
  · cases congrArg Screen.Ended.thrown hupdate

theorem replaced_updateLocationAndTime {s t : Screen} {fix : Fix}
    (hs : s.step gson zone (.updateLocationAndTime f fix.lat fix.lng fix.time) = some t) :
    ∃ old new, Replaced s t f old new ∧ new.fix = fix := by
  obtain ⟨old, hf, hended⟩ := Option.map_eq_some_iff.mp (Screen.step_eq_some hs)
  unfold Screen.updateLocationAndTime at hended
  dsimp only at hended
  split at hended
  · obtain ⟨view, hview⟩ := Screen.renderTodoList_screen zone f
      { old with lat := fix.lat, lng := fix.lng, time := fix.time } s
    rw [hended] at hview
    obtain rfl := hview
    exact ⟨old, _, ⟨hf, rfl, rfl, rfl, rfl⟩, rfl⟩
  · obtain rfl := congrArg Screen.Ended.screen hended
    exact ⟨old, _, ⟨hf, rfl, rfl, rfl, rfl⟩, rfl⟩

theorem fragments_onPageSelected {s : Screen} {position : Nat} :
    (s.onPageSelected position).fragments = s.fragments := by
  unfold Screen.onPageSelected
  split <;> rfl

theorem step_onPageSelected {position : Nat} (hs : s.step gson zone (.onPageSelected position) = some t) :
    t = { s with screen := s.screen.onPageSelected position, currentItem := position } := by
  simp only [step, Option.map_eq_some_iff] at hs
  obtain ⟨screen, hscreen, rfl⟩ := hs
  obtain rfl := congrArg Screen.Ended.screen (Option.some.inj (Screen.step_eq_some hscreen))
  rfl

theorem step_createFragment {position : Nat} (hs : s.step gson zone (.createFragment position) = some t) :
    ∃ x, s.screen.adapter.createFragment position = .ok x ∧ t = { s with
      screen := { s.screen with fragments := s.screen.fragments ++ [x] }, pages := s.pages ++ [⟨position, none⟩] } := by
  simp only [step, Option.map_eq_some_iff] at hs
  obtain ⟨screen, hscreen, rfl⟩ := hs
  have hh := Screen.step_eq_some hscreen
  simp only [Screen.handle] at hh
  split at hh
  · rename_i x hx
    obtain rfl := congrArg Screen.Ended.screen (Option.some.inj hh)
    exact ⟨x, hx, rfl⟩
  · cases congrArg Screen.Ended.thrown (Option.some.inj hh)

/-- A fragment whose view is created, or one of whose boxes is ticked, draws its list. -/
def Draws (f : Nat) (e : Event) : Prop := e = .onViewCreated f ∨ ∃ box, e = .tick f box

theorem step_draws (he : Draws f e) (hs : s.step gson zone e = some t) :
    ∃ screen old new, Replaced s.screen screen f old new ∧ new.fix = old.fix ∧ t = s.drew screen old := by
  have hreplaced : ∃ screen old new, Replaced s.screen screen f old new ∧ new.fix = old.fix ∧
      (s.screen.fragments[f]?.bind fun fragment => some (s.drew screen fragment)) = some t := by
    rcases he with rfl | ⟨box, rfl⟩
    · obtain ⟨screen, hscreen, hdrew⟩ := Option.bind_eq_some_iff.mp hs
      obtain ⟨old, new, hreplaced, hfix⟩ := replaced_onViewCreated hscreen
      exact ⟨screen, old, new, hreplaced, hfix, hdrew⟩
    · obtain ⟨screen, hscreen, hdrew⟩ := Option.bind_eq_some_iff.mp hs
      obtain ⟨old, new, hreplaced, hfix⟩ := replaced_tick hscreen
      exact ⟨screen, old, new, hreplaced, hfix, hdrew⟩
  obtain ⟨screen, old, new, hreplaced, hfix, hdrew⟩ := hreplaced
  rw [hreplaced.found] at hdrew
  exact ⟨screen, old, new, hreplaced, hfix, (Option.some.inj hdrew).symm⟩

/-- What a fix comes to when a fragment is found. -/
structure Handed (s t : Pages) (fix : Fix) (f : Nat) (page : Page) (old new : FilteredTodoFragment) : Prop where
  replaced : Replaced s.screen t.screen f old new
  newFix : new.fix = fix
  found : s.pages[f]? = some page
  pages : t.pages = s.pages.set f { page with handed := some fix }
  currentItem : t.currentItem = s.currentItem
  latest : t.latest = some fix
  drawings : t.drawings = s.drawings ∨ t.drawings = s.drawings ++ [⟨fix, some fix⟩]

theorem step_onLocation {fix : Fix} (hs : s.step gson zone (.onLocation fix (some f)) = some t) :
    ∃ page old new, Handed s t fix f page old new := by
  obtain ⟨page, hpage, hs⟩ := Option.bind_eq_some_iff.mp hs
  obtain ⟨fragment, hf, hs⟩ := Option.bind_eq_some_iff.mp hs
  split at hs
  · obtain ⟨screen, hscreen, hs⟩ := Option.bind_eq_some_iff.mp hs
    obtain ⟨old, new, hreplaced, hfix⟩ := replaced_updateLocationAndTime hscreen
    refine ⟨page, old, new, ?_⟩
    split at hs
    · obtain rfl := Option.some.inj hs
      exact ⟨hreplaced, hfix, hpage, rfl, rfl, rfl, Or.inr rfl⟩
    · obtain rfl := Option.some.inj hs
      exact ⟨hreplaced, hfix, hpage, rfl, rfl, rfl, Or.inl rfl⟩
  · cases hs

/-! ### Pages and their fragments -/

section Pairs
variable {α β : Type} {R : α → β → Prop} {as : List α} {bs : List β} {a : α} {b : β}

theorem forall₂_set (h : List.Forall₂ R as bs) (hr : R a b) (i : Nat) : List.Forall₂ R (as.set i a) (bs.set i b) := by
  induction h generalizing i with
  | nil => exact .nil
  | cons hab hs ih =>
    cases i with
    | zero => exact .cons hr hs
    | succ i => exact .cons hab (ih i)

theorem forall₂_getElem? (h : List.Forall₂ R as bs) {i : Nat} (hb : bs[i]? = some b) : ∃ a, as[i]? = some a ∧ R a b := by
  induction h generalizing i with
  | nil => cases hb
  | cons hab hs ih =>
    cases i with
    | zero =>
      obtain rfl := Option.some.inj hb
      exact ⟨_, rfl, hab⟩
    | succ i => exact ih hb

theorem forall₂_set_right (h : List.Forall₂ R as bs) {i : Nat} (ha : as[i]? = some a) (hr : R a b) :
    List.Forall₂ R as (bs.set i b) := by
  obtain ⟨_, rfl⟩ := List.getElem?_eq_some_iff.mp ha
  have hset := forall₂_set h hr i
  rwa [List.set_getElem_self] at hset

theorem forall₂_last (h : List.Forall₂ R (as ++ [a]) (bs ++ [b])) : R a b := by
  have hlen : as.length = bs.length := by simpa using h.length_eq
  obtain ⟨a', ha', hr⟩ := forall₂_getElem? h List.getElem?_concat_length
  rw [← hlen, List.getElem?_concat_length] at ha'
  exact Option.some.inj ha' ▸ hr

end Pairs

/-! ### Lists and positions -/

/-- A fragment of the first position is bound to the personal list and database, one of the second to those of
    the group. -/
def Own (page : Page) (fragment : FilteredTodoFragment) : Prop :=
  (page.position = 0 → fragment.allTodoItems = .personal ∧ fragment.todoDatabase = ItemList.database .personal) ∧
    (page.position = 1 → fragment.allTodoItems = .group ∧ fragment.todoDatabase = ItemList.database .group)

def OwnLists (s : Pages) : Prop := List.Forall₂ Own s.pages s.screen.fragments

/-- A page is created while it is the one that was selected last. -/
def CreatesSelected (s : Pages) (e : Event) : Prop :=
  ∀ position, e = .createFragment position → (position = 0 ↔ s.currentItem = 0)

def selectedList (s : Pages) : ItemList := if s.currentItem = 0 then .personal else .group

structure BindingInv (s : Pages) : Prop where
  own : OwnLists s
  list : s.screen.adapter.todoItems = s.selectedList
  database : s.screen.adapter.todoDatabase = s.selectedList.database

theorem Own.congr {page : Page} {old new : FilteredTodoFragment} (h : Own page old)
    (hlist : new.allTodoItems = old.allTodoItems) (hdatabase : new.todoDatabase = old.todoDatabase) : Own page new := by
  unfold Own
  rw [hlist, hdatabase]
  exact h

theorem OwnLists.replace {screen : Screen} {old new : FilteredTodoFragment} (h : OwnLists s)
    (hr : Replaced s.screen screen f old new) : List.Forall₂ Own s.pages screen.fragments := by
  obtain ⟨page, hpage, hown⟩ := forall₂_getElem? h hr.found
  rw [hr.fragments]
  exact forall₂_set_right h hpage (hown.congr hr.list hr.database)

theorem bindingInv_step (h : BindingInv s) (hc : CreatesSelected s e) (hs : s.step gson zone e = some t) :
    BindingInv t := by
  cases e with
  | onPageSelected position =>
    obtain rfl := step_onPageSelected hs
    refine ⟨?_, ?_, ?_⟩
    · show List.Forall₂ Own s.pages (s.screen.onPageSelected position).fragments
      rw [fragments_onPageSelected]
      exact h.own
    · unfold Screen.onPageSelected selectedList
      dsimp only
      split <;> rfl
    · unfold Screen.onPageSelected selectedList
      dsimp only
      split <;> rfl
  | createFragment position =>
    obtain ⟨x, hx, rfl⟩ := step_createFragment hs
    obtain ⟨-, filter, rfl⟩ := TodoPageAdapter.createFragment_eq_ok hx
    have hselected := hc position rfl
    refine ⟨List.rel_append h.own (.cons ⟨fun hzero => ?_, fun hone => ?_⟩ .nil), h.list, h.database⟩
    · have hcurrent : s.selectedList = .personal := if_pos (hselected.mp hzero)
      rw [TodoPageAdapter.newFragment_allTodoItems, TodoPageAdapter.newFragment_todoDatabase, h.list, h.database,
        hcurrent]
      exact ⟨rfl, rfl⟩
    · have hcurrent : s.selectedList = .group := if_neg fun hzero => by
        rw [hselected.mpr hzero] at hone
        cases hone
      rw [TodoPageAdapter.newFragment_allTodoItems, TodoPageAdapter.newFragment_todoDatabase, h.list, h.database,
        hcurrent]
      exact ⟨rfl, rfl⟩
  | onViewCreated f =>
    obtain ⟨screen, old, new, hr, -, rfl⟩ := step_draws (Or.inl rfl) hs
    exact ⟨h.own.replace hr, by rw [drew, hr.adapter]; exact h.list, by rw [drew, hr.adapter]; exact h.database⟩
  | tick f box =>
    obtain ⟨screen, old, new, hr, -, rfl⟩ := step_draws (Or.inr ⟨box, rfl⟩) hs
    exact ⟨h.own.replace hr, by rw [drew, hr.adapter]; exact h.list, by rw [drew, hr.adapter]; exact h.database⟩
  | onLocation fix found =>
    cases found with
    | none =>
      obtain rfl := Option.some.inj hs
      exact ⟨h.own, h.list, h.database⟩
    | some f =>
      obtain ⟨page, old, new, hh⟩ := step_onLocation hs
      have hselected : t.selectedList = s.selectedList := by unfold selectedList; rw [hh.currentItem]
      refine ⟨?_, ?_, ?_⟩
      · obtain ⟨page', hpage', hown⟩ := forall₂_getElem? h.own hh.replaced.found
        obtain rfl := Option.some.inj (hh.found.symm.trans hpage')
        unfold OwnLists
        rw [hh.pages, hh.replaced.fragments]
        have hnew : Own { page with handed := some fix } new := hown.congr hh.replaced.list hh.replaced.database
        exact forall₂_set h.own hnew f
      · rw [hh.replaced.adapter, hselected]
        exact h.list
      · rw [hh.replaced.adapter, hselected]
        exact h.database

theorem not_ownLists_step (h : BindingInv s) (hc : ¬CreatesSelected s e) (hs : s.step gson zone e = some t) :
    ¬OwnLists t := by
  unfold CreatesSelected at hc
  push Not at hc
  obtain ⟨position, rfl, hselected⟩ := hc
  obtain ⟨x, hx, rfl⟩ := step_createFragment hs
  obtain ⟨hposition, filter, rfl⟩ := TodoPageAdapter.createFragment_eq_ok hx
  intro hown
  obtain ⟨hzero, hone⟩ := forall₂_last hown
  rcases hposition with rfl | rfl
  · have hcurrent : s.selectedList = .group := if_neg (by simpa using hselected)
    have hbound := (hzero rfl).1
    rw [TodoPageAdapter.newFragment_allTodoItems, h.list, hcurrent] at hbound
    cases hbound
  · have hcurrent : s.selectedList = .personal := if_pos (by simpa using hselected)
    have hbound := (hone rfl).1
    rw [TodoPageAdapter.newFragment_allTodoItems, h.list, hcurrent] at hbound
    cases hbound

end Pages

/-- In every state of a run each fragment is bound to the list and database of its position, exactly when every
    fragment is created while its page is the one selected last. -/
theorem pages_ownLists_iff (gson : Gson) (zone : Int → Int) (personal group : List TodoItem) (prefs : Preferences)
    (user : User) (events : List Pages.Event) :
    Runs.Always (Pages.step gson zone) Pages.OwnLists (Pages.onCreate personal group prefs user) events ↔
      Runs.Meets (Pages.step gson zone) Pages.CreatesSelected (Pages.onCreate personal group prefs user) events :=
  Runs.always_iff_meets (fun _ _ _ h hc hs => Pages.bindingInv_step h hc hs) (fun _ h => h.own)
    (fun _ _ _ h hc hs => Pages.not_ownLists_step h hc hs) ⟨.nil, rfl, rfl⟩

/-- The framework asks for the second page before it is selected: it shows the personal list ever after. -/
theorem pages_neighbour_before_selection :
    ∃ s, Runs.run (Pages.step gson fun _ => 0)
        (Pages.onCreate [.ofTitle "Buy groceries"] [.ofTitle "Plan trip"] (fun _ => none) (createUser none "42").1)
        [.createFragment 0, .createFragment 1, .onPageSelected 1] = some s ∧
      s.pages.map Page.position = [0, 1] ∧
      s.screen.fragments.map (fun x => (x.allTodoItems, x.todoDatabase)) =
        [(.personal, ⟨"personalTodoTemp"⟩), (.personal, ⟨"personalTodoTemp"⟩)] ∧
      ¬Pages.OwnLists s := by
  refine ⟨_, rfl, rfl, rfl, fun h => ?_⟩
  obtain ⟨page, hpage, hown⟩ := Pages.forall₂_getElem? h (i := 1) rfl
  obtain rfl := Option.some.inj hpage
  cases (hown.2 rfl).1

end TodoWatch
