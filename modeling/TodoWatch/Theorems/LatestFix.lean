import TodoWatch.Theorems.TabBinding

/-! # Do rankings use the latest fix?

A fix is copied into one fragment. Every other fragment goes on with the fix that it was handed before, and a
fragment that is created later starts without any, at the coordinates 0, 0 and the instant 0. -/

namespace TodoWatch
namespace Pages

variable {gson : Gson} {zone : Int → Int} {s t : Pages} {e : Event} {f : Nat}

/-- Once there is a fix, a list is ranked at its place and at an instant no earlier. -/
def UpToDate (drawing : Drawing) : Prop :=
  ∀ fix, drawing.latest = some fix →
    drawing.ranked.lat = fix.lat ∧ drawing.ranked.lng = fix.lng ∧ fix.time ≤ drawing.ranked.time

def LatestFix (s : Pages) : Prop := ∀ drawing ∈ s.drawings, UpToDate drawing

/-- The fix that the framework handed to a page last, or what a fragment starts with. -/
def handedFix (page : Page) : Fix := page.handed.getD ⟨0, 0, 0⟩

/-- A fragment draws after a fix only if it was handed that fix, or one before it, or none, that agrees with it. -/
def DrawsHanded (s : Pages) (e : Event) : Prop :=
  ∀ f, Draws f e → ∀ page fix, s.pages[f]? = some page → s.latest = some fix →
    (handedFix page).lat = fix.lat ∧ (handedFix page).lng = fix.lng ∧ fix.time ≤ (handedFix page).time

/-- A fragment ranks with the fix that was handed to it. -/
def Ranks (page : Page) (fragment : FilteredTodoFragment) : Prop := fragment.fix = handedFix page

structure FixInv (s : Pages) : Prop where
  ranks : List.Forall₂ Ranks s.pages s.screen.fragments
  latest : LatestFix s

theorem latestFix_append {drawing : Drawing} (h : LatestFix s)
    (hd : t.drawings = s.drawings ++ [drawing]) : LatestFix t ↔ UpToDate drawing := by
  unfold LatestFix
  rw [hd]
  constructor
  · intro ht
    exact ht drawing (List.mem_append_right _ List.mem_cons_self)
  · intro hnew d hmem
    rcases List.mem_append.mp hmem with hmem | hmem
    · exact h d hmem
    · rw [List.mem_singleton.mp hmem]
      exact hnew

/-- The list that a fragment draws is up to date exactly if the fix handed to the fragment is. -/
theorem fixInv_draws (h : FixInv s) (he : Draws f e) (hs : s.step gson zone e = some t) :
    List.Forall₂ Ranks t.pages t.screen.fragments ∧ (LatestFix t ↔ DrawsHanded s e) := by
  obtain ⟨screen, old, new, hr, hfix, rfl⟩ := step_draws he hs
  obtain ⟨page, hpage, hranks⟩ := forall₂_getElem? h.ranks hr.found
  constructor
  · show List.Forall₂ Ranks s.pages screen.fragments
    rw [hr.fragments]
    exact forall₂_set_right h.ranks hpage (hfix.trans hranks)
  · rw [latestFix_append h.latest rfl, hranks]
    constructor
    · intro hnew f' he' page' fix hpage' hlatest
      have hf : f' = f := by
        rcases he with rfl | ⟨box, rfl⟩
        · rcases he' with he' | ⟨_, he'⟩ <;> cases he'
          rfl
        · rcases he' with he' | ⟨_, he'⟩ <;> cases he'
          rfl
      subst hf
      obtain rfl := Option.some.inj (hpage.symm.trans hpage')
      exact hnew fix hlatest
    · exact fun hc fix hlatest => hc f he page fix hpage hlatest

theorem fixInv_onLocation {fix : Fix} (h : FixInv s) (hs : s.step gson zone (.onLocation fix (some f)) = some t) :
    FixInv t := by
  obtain ⟨page, old, new, hh⟩ := step_onLocation hs
  constructor
  · rw [hh.pages, hh.replaced.fragments]
    have hnew : Ranks { page with handed := some fix } new := hh.newFix
    exact forall₂_set h.ranks hnew f
  · rcases hh.drawings with hd | hd
    · unfold LatestFix
      rw [hd]
      exact h.latest
    · refine (latestFix_append h.latest hd).mpr fun fix' hfix' => ?_
      obtain rfl := Option.some.inj hfix'
      exact ⟨rfl, rfl, le_refl _⟩

/-- Any step but a drawing keeps the lists up to date. -/
theorem fixInv_step (h : FixInv s) (hno : ∀ f, ¬Draws f e) (hs : s.step gson zone e = some t) : FixInv t := by
  cases e with
  | onPageSelected position =>
    obtain rfl := step_onPageSelected hs
    refine ⟨?_, h.latest⟩
    show List.Forall₂ Ranks s.pages (s.screen.onPageSelected position).fragments
    rw [fragments_onPageSelected]
    exact h.ranks
  | createFragment position =>
    obtain ⟨x, hx, rfl⟩ := step_createFragment hs
    obtain ⟨-, filter, rfl⟩ := TodoPageAdapter.createFragment_eq_ok hx
    exact ⟨List.rel_append h.ranks (.cons rfl .nil), h.latest⟩
  | onViewCreated f => exact absurd (Or.inl rfl) (hno f)
  | tick f box => exact absurd (Or.inr ⟨box, rfl⟩) (hno f)
  | onLocation fix found =>
    cases found with
    | none =>
      obtain rfl := Option.some.inj hs
      exact ⟨h.ranks, h.latest⟩
    | some f => exact fixInv_onLocation h hs

theorem fixInv_keep (h : FixInv s) (hc : DrawsHanded s e) (hs : s.step gson zone e = some t) : FixInv t := by
  by_cases hdraws : ∃ f, Draws f e
  · obtain ⟨f, he⟩ := hdraws
    obtain ⟨hranks, hiff⟩ := fixInv_draws h he hs
    exact ⟨hranks, hiff.mpr hc⟩
  · exact fixInv_step h (not_exists.mp hdraws) hs

theorem not_latestFix_step (h : FixInv s) (hc : ¬DrawsHanded s e) (hs : s.step gson zone e = some t) :
    ¬LatestFix t := by
  by_cases hdraws : ∃ f, Draws f e
  · obtain ⟨f, he⟩ := hdraws
    exact fun hlatest => hc ((fixInv_draws h he hs).2.mp hlatest)
  · exact absurd (fun f he => absurd ⟨f, he⟩ hdraws) hc

end Pages

/-- In every run each list is ranked with the latest fix, exactly when no fragment draws after a fix that was not
    handed to it and disagrees with what was. -/
theorem pages_latestFix_iff (gson : Gson) (zone : Int → Int) (personal group : List TodoItem) (prefs : Preferences)
    (user : User) (events : List Pages.Event) :
    Runs.Always (Pages.step gson zone) Pages.LatestFix (Pages.onCreate personal group prefs user) events ↔
      Runs.Meets (Pages.step gson zone) Pages.DrawsHanded (Pages.onCreate personal group prefs user) events :=
  Runs.always_iff_meets (fun _ _ _ h hc hs => Pages.fixInv_keep h hc hs) (fun _ h => h.latest)
    (fun _ _ _ h hc hs => Pages.not_latestFix_step h hc hs) ⟨.nil, fun _ h => absurd h List.not_mem_nil⟩

/-- The page of the group is created after the fix at school went to the first page. It ranks its list at 0, 0, where
    the item for no place comes first, while at the fix the one for school does. -/
theorem pages_fix_before_page :
    let group : List TodoItem := [⟨"Plan group presentation", .low, .school, .working, false, ""⟩, .ofTitle "Plan trip"]
    let events : List Pages.Event := [.createFragment 0, .onViewCreated 0, .onLocation ⟨32.88, -117.23, 43200000⟩ (some 0),
      .onPageSelected 1, .createFragment 1, .onViewCreated 1]
    sortNotDoneItems group (createUser none "42").1 32.88 (-117.23) 43200000 0 = .ok group ∧
      ∃ s, Runs.run (Pages.step gson fun _ => 0)
          (Pages.onCreate [.ofTitle "Buy groceries"] group (fun _ => none) (createUser none "42").1) events = some s ∧
        (⟨⟨0, 0, 0⟩, some ⟨32.88, -117.23, 43200000⟩⟩ : Drawing) ∈ s.drawings ∧
        ((s.screen.fragments[1]?).bind FilteredTodoFragment.view).map TodoListView.notDone =
          some [⟨1, false⟩, ⟨0, false⟩] ∧ ¬Pages.LatestFix s := by
  intro group events
  have hcheck : (Runs.run (Pages.step gson fun _ => 0)
      (Pages.onCreate [.ofTitle "Buy groceries"] group (fun _ => none) (createUser none "42").1) events).any
      (fun s => decide ((⟨⟨0, 0, 0⟩, some ⟨32.88, -117.23, 43200000⟩⟩ : Drawing) ∈ s.drawings) &&
        decide (((s.screen.fragments[1]?).bind FilteredTodoFragment.view).map TodoListView.notDone =
          some [⟨1, false⟩, ⟨0, false⟩])) = true := by
    decide +kernel
  obtain ⟨s, hs, hv⟩ := (Option.any_eq_true _ _).mp hcheck
  simp only [Bool.and_eq_true, decide_eq_true_eq] at hv
  obtain ⟨hdrawing, hview⟩ := hv
  refine ⟨by decide +kernel, s, hs, hdrawing, hview, fun h => ?_⟩
  have hlat := (h _ hdrawing _ rfl).1
  revert hlat
  decide +kernel

end TodoWatch
