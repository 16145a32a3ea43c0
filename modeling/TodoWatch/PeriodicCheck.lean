import TodoWatch.TodoNotificationService

/-! # Periodic checks

The runnable of `onStartCommand`. A run is any number of checks, of one service or of several; they have the
cache of the preferences in common, which outlives the process. The clock is read once in each check. -/

namespace TodoWatch

/-- What a check finds: its service, with the location and the user, the stores, the answer of the context
    detector, whether `POST_NOTIFICATIONS` is granted, and the clock with the offset of the zone. -/
structure Moment where
  service : TodoNotificationService
  prefs : Preferences
  isHighCognitiveLoad : Bool
  postNotifications : Bool
  now : Int
  zone : Int

/-- An item that `getTopTodoItem` returned to a check, and whether it was posted to the manager. -/
structure Reminded where
  item : TodoItem
  user : Option User
  now : Int
  zone : Int
  posted : Bool
  deriving DecidableEq, Repr

structure Reminders where
  cache : NotificationCache
  reminded : List Reminded

namespace Reminders

/-- `sendNotification` posts nothing without the permission. -/
def sendNotification (s : Reminders) (m : Moment) (item : TodoItem) : Reminders :=
  { s with reminded := s.reminded ++ [⟨item, m.service.user, m.now, m.zone, m.postNotifications⟩] }

def remind (gson : Gson) (isTestMode : Bool) (s : Reminders) (m : Moment) : Except JavaException Reminders := do
  let (item, cache) ← m.service.getTopTodoItem gson isTestMode m.prefs s.cache m.now m.zone
  let s := { s with cache }
  match item with
  | some item => return s.sendNotification m item
  | none => return s

/-- `run`, up to where it posts itself again. -/
def check (gson : Gson) (isTestMode : Bool) (s : Reminders) (m : Moment) : Except JavaException Reminders :=
  if isTestMode then
    s.remind gson isTestMode m
  else if m.isHighCognitiveLoad then
    .ok s
  else
    s.remind gson isTestMode m

/-- The state that a check leaves. One that throws ends the process, before it has written the cache. -/
def step (gson : Gson) (isTestMode : Bool) (s : Reminders) (m : Moment) : Option Reminders :=
  match s.check gson isTestMode m with
  | .ok t => some t
  | .error _ => some s

/-! ### What a check does -/

/-- The check looks for an item, `top` comes first among the open ones, and it is due. -/
def DueTop (gson : Gson) (isTestMode : Bool) (s : Reminders) (m : Moment) (top : TodoItem) : Prop :=
  (isTestMode = true ∨ m.isHighCognitiveLoad = false) ∧
    (∃ items, m.service.ReadsOpen gson m.prefs items ∧ m.service.FirstBest items m.now m.zone top) ∧
    (isTestMode = true ∨ TodoNotificationService.Due s.cache m.now top.title)

def chosen (isTestMode : Bool) (s : Reminders) (m : Moment) (top : TodoItem) : Reminders :=
  { s with
    cache := if isTestMode then s.cache
      else Function.update s.cache (toString (hashCode top.title)) (some m.now) }

section Check
variable {gson : Gson} {isTestMode : Bool} {s t : Reminders} {m : Moment} {top : TodoItem}

theorem check_of_gate (h : isTestMode = true ∨ m.isHighCognitiveLoad = false) :
    s.check gson isTestMode m = s.remind gson isTestMode m := by
  unfold check
  split
  · rfl
  · rename_i htest
    rw [if_neg (by simpa using h.resolve_left htest)]

theorem step_of_dueTop (h : DueTop gson isTestMode s m top) :
    step gson isTestMode s m = some ((s.chosen isTestMode m top).sendNotification m top) := by
  obtain ⟨hgate, hfirst, hdue⟩ := h
  have hget := TodoNotificationService.getTopTodoItem_eq_some_iff.mpr ⟨hfirst, hdue, rfl⟩
  rw [step, check_of_gate hgate, remind, hget]
  rfl

/-- A check chooses the item that is due, or changes nothing. -/
theorem step_cases (h : step gson isTestMode s m = some t) :
    (∃ top, DueTop gson isTestMode s m top ∧ t = (s.chosen isTestMode m top).sendNotification m top) ∨
      (∀ top, ¬DueTop gson isTestMode s m top) ∧ t = s := by
  by_cases hany : ∃ top, DueTop gson isTestMode s m top
  · obtain ⟨top, htop⟩ := hany
    rw [step_of_dueTop htop] at h
    exact Or.inl ⟨top, htop, (Option.some.inj h).symm⟩
  · refine Or.inr ⟨fun top htop => hany ⟨top, htop⟩, ?_⟩
    by_cases hgate : isTestMode = true ∨ m.isHighCognitiveLoad = false
    · rw [step, check_of_gate hgate, remind] at h
      cases hget : m.service.getTopTodoItem gson isTestMode m.prefs s.cache m.now m.zone with
      | error e =>
        rw [hget] at h
        exact (Option.some.inj h).symm
      | ok x =>
        obtain ⟨item, cache⟩ := x
        cases item with
        | none =>
          rw [hget, TodoNotificationService.cache_of_getTopTodoItem_none hget] at h
          exact (Option.some.inj h).symm
        | some top =>
          obtain ⟨hfirst, hdue, -⟩ := TodoNotificationService.getTopTodoItem_eq_some_iff.mp hget
          exact absurd ⟨top, hgate, hfirst, hdue⟩ hany
    · rw [not_or, Bool.not_eq_true, Bool.not_eq_false] at hgate
      obtain ⟨rfl, hload⟩ := hgate
      rw [step, check, if_neg Bool.false_ne_true, if_pos hload] at h
      exact (Option.some.inj h).symm

end Check

end Reminders

end TodoWatch
