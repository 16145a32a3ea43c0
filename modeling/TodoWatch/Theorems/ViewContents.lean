import TodoWatch.Lib.Stability
import TodoWatch.Theorems.WatchInv
import TodoWatch.Theorems.WatchSteps

/-! # What do the views show?

A view is drawn from the list of its fragment, and other fragments may tick items of the list before it is drawn
again. Ticks move no item and change no score, so the view still has each item once and still is in the order of
the scores; only checkboxes of items that were ticked elsewhere are left over. -/

namespace TodoWatch

/-- The view has each item once: done items in the order of the list, the others by their scores for the fragment,
    and in the order of the list where these are equal. -/
structure TodoListView.Shows (zone : Int → Int) (fragment : FilteredTodoFragment) (items : List TodoItem)
    (view : TodoListView) : Prop where
  each : (view.notDone.map CheckBox.item ++ view.done).Perm (List.range items.length)
  done : ∀ i ∈ view.done, ∃ item, items[i]? = some item ∧ item.isDone = true
  doneOrder : view.done.Pairwise (· < ·)
  ranked : view.notDone.Pairwise fun a b => ∃ x y, items[a.item]? = some x ∧ items[b.item]? = some y ∧ ∃ sx sy,
    getItemScore x fragment.user fragment.lat fragment.lng fragment.time (zone fragment.time) = .ok sx ∧
    getItemScore y fragment.user fragment.lat fragment.lng fragment.time (zone fragment.time) = .ok sy ∧
    (sy < sx ∨ sx = sy ∧ a.item < b.item)

namespace Screen

variable {gson : Gson} {zone : Int → Int} {s t : Screen} {e : Event} {f : Nat} {fragment : FilteredTodoFragment}
  {items items' : List TodoItem} {view : TodoListView}

theorem TickedTo.score {x y : TodoItem} (h : TickedTo x y) (user : User) (lat lng : ℚ) (time z : Int) :
    getItemScore y user lat lng time z = getItemScore x user lat lng time z := by
  rcases h with rfl | rfl <;> rfl

/-- Ticks leave a view as good as it was. -/
theorem shows_of_later (h : view.Shows zone fragment items) (hlater : Later items items')
    (hlength : items'.length = items.length) : view.Shows zone fragment items' where
  each := by
    rw [hlength]
    exact h.each
  done i hi := by
    obtain ⟨item, hitem, hdone⟩ := h.done i hi
    obtain ⟨y, hy, hticked⟩ := hlater i item hitem
    exact ⟨y, hy, by rw [hticked.eq_of_done hdone, hdone]⟩
  doneOrder := h.doneOrder
  ranked := by
    refine h.ranked.imp fun ⟨x, y, hx, hy, sx, sy, hsx, hsy, hbefore⟩ => ?_
    obtain ⟨x', hx', hxx⟩ := hlater _ x hx
    obtain ⟨y', hy', hyy⟩ := hlater _ y hy
    exact ⟨x', y', hx', hy', sx, sy, by rw [TickedTo.score hxx, hsx], by rw [TickedTo.score hyy, hsy], hbefore⟩

/-! ### Drawing -/

theorem pairwise_zipIdx (items : List TodoItem) : items.zipIdx.Pairwise fun x y => x.2 < y.2 := by
  have h : (items.zipIdx.map Prod.snd).Pairwise (· < ·) := by
    rw [List.zipIdx_map_snd, ← List.range_eq_range']
    exact List.pairwise_lt_range
  exact List.pairwise_map.mp h

theorem renderTodoList_shows (h : renderTodoList zone f fragment s = ⟨t, none⟩) :
    ∃ view, t = s.setFragment f { fragment with view := some view } ∧
      view.Shows zone fragment (s.items fragment.allTodoItems) := by
  unfold renderTodoList at h
  dsimp only at h
  split at h
  · rename_i sorted hsorted
    obtain rfl := congrArg Ended.screen h
    have hperm := Sorting.perm_of_sortByKey hsorted
    refine ⟨_, rfl, ?_, fun i hi => ?_, ?_, ?_⟩
    · have hall : (sorted ++ (s.items fragment.allTodoItems).zipIdx.filter (·.1.isDone)).Perm
          (s.items fragment.allTodoItems).zipIdx :=
        ((hperm.append_right _).trans List.perm_append_comm).trans (List.filter_append_perm _ _)
      have hplaces := hall.map Prod.snd
      rw [List.zipIdx_map_snd, ← List.range_eq_range', List.map_append] at hplaces
      rwa [List.map_map]
    · obtain ⟨item, hitem, rfl⟩ := List.mem_map.mp hi
      obtain ⟨hmem, hdone⟩ := List.mem_filter.mp hitem
      exact ⟨item.1, List.mem_zipIdx_iff_getElem?.mp hmem, hdone⟩
    · exact List.pairwise_map.mpr ((pairwise_zipIdx _).filter _)
    · have hranked := Sorting.pairwise_of_sortByKey ((pairwise_zipIdx _).filter _) hsorted
      refine List.pairwise_map.mpr (hranked.imp_of_mem fun {x y} hx hy ⟨kx, ky, hkx, hky, hbefore⟩ => ?_)
      obtain ⟨sx, hsx, rfl⟩ := Sorting.map_eq_ok hkx
      obtain ⟨sy, hsy, rfl⟩ := Sorting.map_eq_ok hky
      have hmem : ∀ z ∈ sorted, (s.items fragment.allTodoItems)[z.2]? = some z.1 := fun z hz =>
        List.mem_zipIdx_iff_getElem?.mp (List.mem_filter.mp (hperm.mem_iff.mp hz)).1
      refine ⟨x.1, y.1, hmem x hx, hmem y hy, sx, sy, hsx, hsy, ?_⟩
      rwa [neg_lt_neg_iff, neg_inj] at hbefore
  · cases congrArg Ended.thrown h

/-! ### Steps -/

/-- Each view shows the list of its fragment. -/
def Views (zone : Int → Int) (s : Screen) : Prop :=
  ∀ fragment ∈ s.fragments, ∀ view, fragment.view = some view → view.Shows zone fragment (s.items fragment.allTodoItems)

theorem Views.setFragment (h : s.Views zone)
    (hview : ∀ view, fragment.view = some view → view.Shows zone fragment (s.items fragment.allTodoItems)) :
    (s.setFragment f fragment).Views zone := by
  intro x hx
  rw [items_setFragment]
  rcases mem_setFragment hx with hx | rfl
  · exact h x hx
  · exact hview

theorem Views.render (h : s.Views zone) (hr : renderTodoList zone f fragment s = ⟨t, none⟩) : t.Views zone := by
  obtain ⟨view, rfl, hshows⟩ := renderTodoList_shows hr
  refine h.setFragment fun view' hview' => ?_
  obtain rfl := Option.some.inj hview'
  exact ⟨hshows.each, hshows.done, hshows.doneOrder, hshows.ranked⟩

theorem Views.tick (h : s.Views zone) {list : ItemList} {i : Nat} {item : TodoItem} (hi : (s.items list)[i]? = some item) :
    (s.setItems list ((s.items list).set i (item.setDone true))).Views zone := by
  intro x hx view hview
  rw [fragments_setItems] at hx
  have hshows := h x hx view hview
  rw [items_setItems]
  split
  · rename_i hlist
    rw [hlist] at hshows
    exact shows_of_later hshows (later_set hi) List.length_set
  · exact hshows

theorem views_step (h : s.Views zone) (hunchecked : s.Unchecked) (hs : s.step gson zone e = some t) : t.Views zone := by
  have hh := step_eq_some hs
  cases e with
  | onPageSelected position =>
    obtain rfl := congrArg Ended.screen (Option.some.inj hh)
    unfold onPageSelected
    split <;> exact h
  | createFragment position =>
    simp only [handle] at hh
    split at hh
    · rename_i x hx
      obtain rfl := congrArg Ended.screen (Option.some.inj hh)
      obtain ⟨-, filter, rfl⟩ := TodoPageAdapter.createFragment_eq_ok hx
      intro y hy view hview
      rcases List.mem_append.mp hy with hy | hy
      · exact h y hy view hview
      · -- A new fragment has no view.
        rw [List.mem_singleton.mp hy] at hview
        cases hview
    · cases congrArg Ended.thrown (Option.some.inj hh)
  | onViewCreated f =>
    obtain ⟨fragment, -, hended⟩ := Option.map_eq_some_iff.mp hh
    exact h.render hended
  | updateLocationAndTime f lat lng curTime =>
    obtain ⟨fragment, -, hended⟩ := Option.map_eq_some_iff.mp hh
    unfold updateLocationAndTime at hended
    dsimp only at hended
    split at hended
    · exact h.render hended
    · rename_i hnone
      obtain rfl := congrArg Ended.screen hended
      exact h.setFragment fun view hview => by rw [hnone] at hview; cases hview
  | tick f box =>
    simp only [handle, bind, Option.bind_eq_some_iff] at hh
    obtain ⟨fragment, hf, ⟨checkBox, item⟩, hattached, hended⟩ := hh
    have hbox := attached_unchecked hunchecked (List.mem_of_getElem? hf) hattached
    have hi := attached_eq_some hattached
    dsimp only at hbox hi
    rw [hbox] at hended
    obtain ⟨hdrawn, hupdate⟩ := Ended.andThen_eq (Option.some.inj hended)
    have hviews := (h.tick hi).render (t := (renderTodoList zone f fragment _).screen) (by rw [← hdrawn]; rfl)
    unfold updateTodo at hupdate
    split at hupdate
    · obtain rfl := congrArg Ended.screen hupdate
      exact fun x hx => by rw [items_setPrefs]; exact hviews x hx
    · cases congrArg Ended.thrown hupdate

end Screen

namespace Watch
variable {gson : Gson} {isTestMode : Bool} {zone : Int → Int} {w w' : Watch}

def Views (zone : Int → Int) (w : Watch) : Prop := ∀ s, w.screen = some s → s.Views zone

theorem Views.of_screen (h : w.Views zone) (hscreen : w'.screen = w.screen ∨ w'.screen = none) : w'.Views zone := by
  intro s hs
  rcases hscreen with hscreen | hscreen
  · exact h s (hscreen ▸ hs)
  · rw [hscreen] at hs
    cases hs

theorem views_step {e : Event} (h : w.Views zone) (hinv : Inv gson w) (hs : w.step gson isTestMode zone e = some w') :
    w'.Views zone := by
  cases step_moves hs with
  | launch hlaunch =>
    obtain ⟨s, hscreen, hnone⟩ := (launched hlaunch).screen
    intro s' hs' x hx
    rw [hscreen] at hs'
    rw [← Option.some.inj hs', hnone] at hx
    cases hx
  | handle hscreen hstep heq =>
    intro s' hs'
    rw [heq] at hs'
    rw [← Option.some.inj hs']
    exact Screen.views_step (h _ hscreen) (hinv.screen _ hscreen).unchecked hstep
  | die _ hscreen => exact h.of_screen (Or.inr hscreen)
  | flush _ heq => exact h.of_screen (Or.inl (by rw [heq]))
  | keep _ _ hscreen => exact h.of_screen hscreen

end Watch

/-- At any moment of a run each view on the screen shows each item of its store once: done items in the order of the
    store, the others by their scores. -/
theorem watch_showsAll (gson : Gson) (isTestMode : Bool) (zone : Int → Int) (events : List Watch.Event) :
    Runs.Always (Watch.step gson isTestMode zone) (fun w => ∀ s, w.screen = some s → ∀ fragment ∈ s.fragments,
        ∀ view, fragment.view = some view →
          ∃ l, fragment.allTodoItems.database.getAllTodos gson w.files.prefs = .ok l ∧ view.Shows zone fragment l)
      Watch.installed events := by
  refine (Runs.always_of_inv (fun w _ t (h : Watch.Inv gson w ∧ w.Views zone) _ hs =>
    ⟨(Watch.step_spec h.1 hs).1, Watch.views_step h.2 h.1 hs⟩)
    ⟨Watch.inv_installed gson, fun s hs => by cases hs⟩ Runs.meets_true).imp fun w h s hs fragment hmem view hview => ?_
  have hok := h.1.screen s hs
  exact ⟨_, by rw [← hok.prefs, hok.inv.inStep], h.2 s hs fragment hmem view hview⟩

end TodoWatch
