import TodoWatch.Lib.Runs
import TodoWatch.MainActivity
import TodoWatch.PeriodicCheck
import Mathlib.Data.List.Pairwise

/-! # Is a reminder repeated, or missed?

Outside test mode an item is chosen only if none with the hash code of its title was chosen in the last 24
hours. So no title comes twice in a day. But the choice is logged before the permission is asked for, and
titles can share a hash code, so an item is also withheld that nobody was reminded of. -/

namespace TodoWatch
namespace Reminders

/-- 24 hours, in milliseconds. -/
abbrev day : Int := 24 * 60 * 60 * 1000

def cacheKey (title : String) : String := toString (hashCode title)

variable {gson : Gson} {s t : Reminders} {m m' : Moment} {top : TodoItem}

/-- `top` comes first among the open items of the check. -/
def First (gson : Gson) (m : Moment) (top : TodoItem) : Prop :=
  ∃ items, m.service.ReadsOpen gson m.prefs items ∧ m.service.FirstBest items m.now m.zone top

/-- Any two choices of one title are at least 24 hours apart. -/
def Spaced (s : Reminders) : Prop :=
  s.reminded.Pairwise fun r r' => r.item.title = r'.item.title → r.now + day ≤ r'.now

/-- The cache holds the times of the last choices, which are spaced by their hash codes. -/
structure Logged (s : Reminders) : Prop where
  latest : ∀ r ∈ s.reminded, ∃ c, s.cache (cacheKey r.item.title) = some c ∧ r.now ≤ c
  spaced : s.reminded.Pairwise fun r r' => cacheKey r.item.title = cacheKey r'.item.title → r.now + day ≤ r'.now

/-- Every time in the cache is that of a choice. -/
def FromLog (s : Reminders) : Prop :=
  ∀ key c, s.cache key = some c → ∃ r ∈ s.reminded, cacheKey r.item.title = key ∧ r.now = c

/-- The check comes after the choices so far. -/
def Follows (s : Reminders) (m : Moment) : Prop := ∀ r ∈ s.reminded, r.now ≤ m.now

/-- One item comes first. -/
theorem First.eq {other : TodoItem} (h : First gson m top) (hother : First gson m other) : other = top := by
  have hget : ∀ {item}, First gson m item →
      m.service.getTopTodoItem gson true m.prefs (fun _ => none) m.now m.zone = .ok (some item, fun _ => none) :=
    fun hitem => TodoNotificationService.getTopTodoItem_eq_some_iff.mpr ⟨hitem, Or.inl rfl, rfl⟩
  exact Option.some.inj (Prod.mk.inj (Except.ok.inj ((hget hother).symm.trans (hget h)))).1

/-! ### Steps -/

/-- A check always leaves a state. -/
theorem exists_step (gson : Gson) (s : Reminders) (m : Moment) : ∃ t, step gson false s m = some t := by
  unfold step
  split
  · exact ⟨_, rfl⟩
  · exact ⟨_, rfl⟩

theorem cache_chosen : ((chosen false s m top).sendNotification m top).cache =
    Function.update s.cache (cacheKey top.title) (some m.now) := by
  simp only [sendNotification, chosen, Bool.false_eq_true, ↓reduceIte, cacheKey]

theorem reminded_chosen : ((chosen false s m top).sendNotification m top).reminded =
    s.reminded ++ [⟨top, m.service.user, m.now, m.zone, m.postNotifications⟩] := by
  simp only [sendNotification, chosen]

theorem step_choice (h : step gson false s m = some t) :
    (∃ top, m.isHighCognitiveLoad = false ∧ First gson m top ∧
      TodoNotificationService.Due s.cache m.now top.title ∧
      t.cache = Function.update s.cache (cacheKey top.title) (some m.now) ∧
      t.reminded = s.reminded ++ [⟨top, m.service.user, m.now, m.zone, m.postNotifications⟩]) ∨ t = s := by
  obtain ⟨top, ⟨hload, hfirst, hdue⟩, rfl⟩ | ⟨-, rfl⟩ := step_cases h
  · exact Or.inl ⟨top, hload.resolve_left Bool.false_ne_true, hfirst, hdue.resolve_left Bool.false_ne_true,
      cache_chosen, reminded_chosen⟩
  · exact Or.inr rfl

/-- A choice that is due is at least 24 hours after those with its hash code. -/
theorem Logged.due (h : Logged s) (hdue : TodoNotificationService.Due s.cache m.now top.title) {r : Reminded}
    (hr : r ∈ s.reminded) (hkey : cacheKey r.item.title = cacheKey top.title) : r.now + day ≤ m.now := by
  obtain ⟨c, hc, hle⟩ := h.latest r hr
  rw [hkey] at hc
  unfold TodoNotificationService.Due at hdue
  rw [show s.cache (toString (hashCode top.title)) = some c from hc, Option.getD_some] at hdue
  simp only [day]
  omega

theorem logged_step (h : Logged s) (hfollows : Follows s m) (hs : step gson false s m = some t) : Logged t := by
  obtain ⟨top, -, -, hdue, hcache, hreminded⟩ | rfl := step_choice hs
  · constructor
    · intro r hr
      rw [hcache]
      by_cases hkey : cacheKey r.item.title = cacheKey top.title
      · refine ⟨m.now, by rw [hkey, Function.update_self], ?_⟩
        rcases List.mem_append.mp (hreminded ▸ hr) with hr | hr
        · exact hfollows r hr
        · exact (congrArg Reminded.now (List.mem_singleton.mp hr)).le
      · rw [Function.update_of_ne hkey]
        rcases List.mem_append.mp (hreminded ▸ hr) with hr | hr
        · exact h.latest r hr
        · exact absurd (by rw [List.mem_singleton.mp hr]) hkey
    · rw [hreminded]
      refine List.pairwise_append.mpr ⟨h.spaced, List.pairwise_singleton _ _, fun r hr r' hr' hkey => ?_⟩
      obtain rfl := List.mem_singleton.mp hr'
      exact h.due hdue hr hkey
  · exact h

theorem fromLog_step (h : FromLog s) (hs : step gson false s m = some t) : FromLog t := by
  obtain ⟨top, -, -, -, hcache, hreminded⟩ | rfl := step_choice hs
  · intro key c hc
    rw [hcache] at hc
    rw [hreminded]
    by_cases hkey : key = cacheKey top.title
    · subst hkey
      rw [Function.update_self] at hc
      exact ⟨_, List.mem_append_right _ List.mem_cons_self, rfl, Option.some.inj hc⟩
    · rw [Function.update_of_ne hkey] at hc
      obtain ⟨r, hr, hrkey, hrnow⟩ := h key c hc
      exact ⟨r, List.mem_append_left _ hr, hrkey, hrnow⟩
  · exact h

theorem follows_step (h : Follows s m') (hle : m.now ≤ m'.now) (hs : step gson false s m = some t) : Follows t m' := by
  obtain ⟨top, -, -, -, -, hreminded⟩ | rfl := step_choice hs
  · intro r hr
    rcases List.mem_append.mp (hreminded ▸ hr) with hr | hr
    · exact h r hr
    · rw [List.mem_singleton.mp hr]
      exact hle
  · exact h

theorem Logged.toSpaced (h : Logged s) : Spaced s := h.spaced.imp fun hspaced htitle =>
  hspaced (congrArg cacheKey htitle)

/-! ### What is withheld -/

/-- The check finds `top` first among the open items, and nothing is returned. -/
def Withholds (gson : Gson) (s : Reminders) (m : Moment) (top : TodoItem) : Prop :=
  m.isHighCognitiveLoad = false ∧ First gson m top ∧
    m.service.getTopTodoItem gson false m.prefs s.cache m.now m.zone = .ok (none, s.cache)

/-- What is withheld was posted under the same title in the last 24 hours. -/
def Justified (gson : Gson) (s : Reminders) (m : Moment) : Prop :=
  ∀ top, Withholds gson s m top →
    ∃ r ∈ s.reminded, r.posted = true ∧ r.item.title = top.title ∧ m.now < r.now + day

/-- The items that were chosen in the last 24 hours under the hash code of the first open item have its very title,
    and the permission was there. -/
def Clear (gson : Gson) (s : Reminders) (m : Moment) : Prop :=
  m.isHighCognitiveLoad = false → ∀ top, First gson m top → ∀ r ∈ s.reminded,
    cacheKey r.item.title = cacheKey top.title → m.now < r.now + day → r.item.title = top.title ∧ r.posted = true

theorem withholds_iff : Withholds gson s m top ↔
    m.isHighCognitiveLoad = false ∧ First gson m top ∧ ¬TodoNotificationService.Due s.cache m.now top.title := by
  constructor
  · rintro ⟨hload, hfirst, hget⟩
    refine ⟨hload, hfirst, fun hdue => ?_⟩
    rw [TodoNotificationService.getTopTodoItem_eq_some_iff.mpr ⟨hfirst, Or.inr hdue, rfl⟩] at hget
    cases hget
  · rintro ⟨hload, hfirst, hdue⟩
    exact ⟨hload, hfirst, TodoNotificationService.getTopTodoItem_of_not_due hfirst hdue⟩

/-- In 24 hours there is one choice for a hash code. -/
theorem Logged.eq_of_recent (h : Logged s) (hfollows : Follows s m) {r r' : Reminded} (hr : r ∈ s.reminded)
    (hr' : r' ∈ s.reminded) (hkey : cacheKey r.item.title = cacheKey r'.item.title) (hrecent : m.now < r.now + day)
    (hrecent' : m.now < r'.now + day) : r = r' := by
  by_contra hne
  have hsymm : Std.Symm fun r r' : Reminded => cacheKey r.item.title = cacheKey r'.item.title →
      r.now + day ≤ r'.now ∨ r'.now + day ≤ r.now := ⟨fun _ _ h hkey => (h hkey.symm).symm⟩
  have hboth : s.reminded.Pairwise fun r r' => cacheKey r.item.title = cacheKey r'.item.title →
      r.now + day ≤ r'.now ∨ r'.now + day ≤ r.now := h.spaced.imp fun hspaced hkey => Or.inl (hspaced hkey)
  have hspaced := hboth.forall hr hr' hne hkey
  have hle := hfollows r hr
  have hle' := hfollows r' hr'
  omega

theorem justified_iff_clear (h : Logged s) (hlog : FromLog s) (hfollows : Follows s m) (hday : day ≤ m.now) :
    Justified gson s m ↔ Clear gson s m := by
  constructor
  · intro hjustified hload top hfirst r hr hkey hrecent
    have hdue : ¬TodoNotificationService.Due s.cache m.now top.title := fun hdue => by
      have hlate := h.due hdue hr hkey
      omega
    obtain ⟨r', hr', hposted, htitle, hrecent'⟩ := hjustified top (withholds_iff.mpr ⟨hload, hfirst, hdue⟩)
    obtain rfl := h.eq_of_recent hfollows hr hr' (hkey.trans (congrArg cacheKey htitle.symm)) hrecent hrecent'
    exact ⟨htitle, hposted⟩
  · intro hclear top hwithholds
    obtain ⟨hload, hfirst, hdue⟩ := withholds_iff.mp hwithholds
    unfold TodoNotificationService.Due at hdue
    cases hc : s.cache (cacheKey top.title) with
    | none =>
      -- Past the first day a title without an entry is due.
      rw [show s.cache (toString (hashCode top.title)) = none from hc, Option.getD_none] at hdue
      exact absurd hday (by simp only [day]; omega)
    | some c =>
      rw [show s.cache (toString (hashCode top.title)) = some c from hc, Option.getD_some] at hdue
      obtain ⟨r, hr, hkey, rfl⟩ := hlog _ c hc
      have hrecent : m.now < r.now + day := by
        simp only [day]
        omega
      obtain ⟨htitle, hposted⟩ := hclear hload top hfirst r hr hkey hrecent
      exact ⟨r, hr, hposted, htitle, hrecent⟩

end Reminders

open Reminders

/-- In every run of checks whose clock does not go back, any two choices of one title are at least 24 hours apart,
    whatever the stores and the cache at the start. -/
theorem reminders_spaced (gson : Gson) (cache : NotificationCache) (moments : List Moment)
    (hclock : moments.Pairwise fun m m' => m.now ≤ m'.now) :
    Runs.Always (step gson false) Spaced ⟨cache, []⟩ moments := by
  have hstep : ∀ s m t m', Follows s m' → m.now ≤ m'.now → step gson false s m = some t → Follows t m' :=
    fun _ _ _ _ => follows_step
  have hfollows : Runs.Meets (step gson false) Follows ⟨cache, []⟩ moments :=
    Runs.meets_of_pairwise hstep (fun _ _ _ hr => absurd hr List.not_mem_nil) hclock
  have hstart : Logged ⟨cache, []⟩ := ⟨fun _ hr => absurd hr List.not_mem_nil, List.Pairwise.nil⟩
  exact (Runs.always_of_inv (fun _ _ _ h hC hs => logged_step h hC hs) hstart hfollows).imp fun _ h => h.toSpaced

/-- From an empty cache, past the first day of the epoch, every check that withholds the first open item is justified
    exactly when in every check the recent choices under its hash code were of its title and posted. -/
theorem reminders_justified_iff (gson : Gson) (moments : List Moment)
    (hclock : moments.Pairwise fun m m' => m.now ≤ m'.now) (hday : ∀ m ∈ moments, day ≤ m.now) :
    Runs.Meets (step gson false) (Justified gson) ⟨fun _ => none, []⟩ moments ↔
      Runs.Meets (step gson false) (Clear gson) ⟨fun _ => none, []⟩ moments := by
  have hstep : ∀ s m t m', Follows s m' ∧ day ≤ m'.now → m.now ≤ m'.now → step gson false s m = some t →
      Follows t m' ∧ day ≤ m'.now := fun _ _ _ _ h hle hs => ⟨follows_step h.1 hle hs, h.2⟩
  have hfollows : Runs.Meets (step gson false) (fun s m => Follows s m ∧ day ≤ m.now) ⟨fun _ => none, []⟩ moments :=
    Runs.meets_of_pairwise hstep (fun m hm => ⟨fun _ hr => absurd hr List.not_mem_nil, hday m hm⟩) hclock
  have hstart : Logged ⟨fun _ => none, []⟩ ∧ FromLog ⟨fun _ => none, []⟩ :=
    ⟨⟨fun _ hr => absurd hr List.not_mem_nil, List.Pairwise.nil⟩, fun _ _ hc => by cases hc⟩
  have hinv : ∀ s m t, Logged s ∧ FromLog s → Follows s m ∧ day ≤ m.now → step gson false s m = some t →
      Logged t ∧ FromLog t := fun _ _ _ h hD hs => ⟨logged_step h.1 hD.1 hs, fromLog_step h.2 hs⟩
  exact Runs.meets_congr hinv (fun _ _ h hD => justified_iff_clear h.1 h.2 hD.1 hD.2) hstart hfollows

/-- A check with one open item in the personal store. -/
def milkCheck (now : Int) (postNotifications : Bool) : Moment where
  service := (TodoNotificationService.onCreate none (some (createUser none "42").1)).1
  prefs := TodoDatabase.saveTodos gson ⟨"personalTodoTemp"⟩ (fun _ => none) [.ofTitle "Buy milk"]
  isHighCognitiveLoad := false
  postNotifications
  now
  zone := 0

@[simp] theorem now_milkCheck (now : Int) (postNotifications : Bool) : (milkCheck now postNotifications).now = now := rfl

theorem reminders_spaced_milk :
    Runs.Always (step gson false) Spaced ⟨fun _ => none, []⟩
      [milkCheck 129600000 true, milkCheck 129900000 true, milkCheck 216000000 true] :=
  reminders_spaced gson _ _ (by simp)

theorem first_milkCheck {now : Int} (hscoring : ScoringOk (createUser none "42").1 0 0 now 0) (post : Bool) :
    First gson (milkCheck now post) (.ofTitle "Buy milk") :=
  TodoNotificationService.first_of_single hscoring rfl TodoDatabase.getAllTodos_saveTodos

theorem first_noon (post : Bool) : First gson (milkCheck 129600000 post) (.ofTitle "Buy milk") :=
  first_milkCheck ⟨⟨.general, by decide +kernel⟩, .working, by decide +kernel⟩ post

theorem first_later (post : Bool) : First gson (milkCheck 129900000 post) (.ofTitle "Buy milk") :=
  first_milkCheck ⟨⟨.general, by decide +kernel⟩, .working, by decide +kernel⟩ post

/-- At noon the item is chosen, and posted with the permission. Five minutes later it is withheld. -/
theorem step_noon (post : Bool) : ∃ s, step gson false ⟨fun _ => none, []⟩ (milkCheck 129600000 post) = some s ∧
    s.reminded = [⟨.ofTitle "Buy milk", some (createUser none "42").1, 129600000, 0, post⟩] ∧
    Withholds gson s (milkCheck 129900000 true) (.ofTitle "Buy milk") := by
  have hdue : TodoNotificationService.Due (fun _ => none) 129600000 "Buy milk" := by
    show (129600000 : Int) - 0 ≥ 24 * 60 * 60 * 1000
    decide
  refine ⟨_, step_of_dueTop ⟨Or.inr rfl, first_noon post, Or.inr hdue⟩, reminded_chosen, ?_⟩
  refine withholds_iff.mpr ⟨rfl, first_later true, ?_⟩
  rw [cache_chosen, TodoNotificationService.Due, show toString (hashCode _) = cacheKey _ from rfl, Function.update_self]
  show ¬(129900000 : Int) - 129600000 ≥ 24 * 60 * 60 * 1000
  decide

/-- Five minutes after the item was posted it is withheld. -/
theorem reminders_justified_milk :
    let moments : List Moment := [milkCheck 129600000 true, milkCheck 129900000 true]
    (∃ s, step gson false ⟨fun _ => none, []⟩ (milkCheck 129600000 true) = some s ∧
      Withholds gson s (milkCheck 129900000 true) (.ofTitle "Buy milk")) ∧
      Runs.Meets (step gson false) (Justified gson) ⟨fun _ => none, []⟩ moments := by
  obtain ⟨s, hs, hreminded, hwithholds⟩ := step_noon true
  refine ⟨⟨s, hs, hwithholds⟩, (reminders_justified_iff gson _ (by simp) (by simp [day])).mpr fun t ht => ⟨?_, ?_⟩⟩
  · intro _ _ _ r hr
    exact absurd hr List.not_mem_nil
  · obtain rfl := Option.some.inj (hs.symm.trans ht)
    refine fun u _ => ⟨fun _ top hfirst r hr _ _ => ?_, trivial⟩
    rw [hreminded] at hr
    rw [List.mem_singleton.mp hr, (first_later true).eq hfirst]
    exact ⟨rfl, rfl⟩

/-- At noon the item is chosen without the permission. Five minutes later, with the permission, it is withheld, and
    nothing was posted. -/
theorem reminders_withhold_unposted :
    let moments : List Moment := [milkCheck 129600000 false, milkCheck 129900000 true]
    (moments.Pairwise fun m m' => m.now ≤ m'.now) ∧ (∀ m ∈ moments, day ≤ m.now) ∧
      ¬Runs.Meets (step gson false) (Justified gson) ⟨fun _ => none, []⟩ moments := by
  refine ⟨by simp, by simp [day], fun h => ?_⟩
  obtain ⟨s, hs, hreminded, hwithholds⟩ := step_noon false
  obtain ⟨-, hrest⟩ := h s hs
  obtain ⟨t, ht⟩ := exists_step gson s (milkCheck 129900000 true)
  obtain ⟨r, hr, hposted, -⟩ := (hrest t ht).1 (.ofTitle "Buy milk") hwithholds
  rw [hreminded] at hr
  rw [List.mem_singleton.mp hr] at hposted
  cases hposted

end TodoWatch
