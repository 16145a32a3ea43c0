import TodoWatch.Lib.Runs
import TodoWatch.MainActivity
import TodoWatch.PeriodicCheck

/-! # Does a reminder come during sleep?

`Time.SLEEP` is marked as the time of no notification, but neither branch of the periodic check asks for it: the
time only raises the score of items that are for it. So a check during sleep posts whatever it would post. -/

namespace TodoWatch
namespace Reminders

variable {gson : Gson} {isTestMode : Bool} {s t : Reminders} {m : Moment}

/-- The time map of the user maps the instant to `Time.SLEEP`. -/
def Asleep (user : Option User) (now zone : Int) : Prop :=
  ∃ u, user = some u ∧ mapTimeToContext u.timeMap now zone = .ok .sleep

def NoneAsleep (s : Reminders) : Prop := ∀ r ∈ s.reminded, r.posted = true → ¬Asleep r.user r.now r.zone

/-- At a time of sleep nothing can be posted: the permission is missing, the load is high outside test mode, no
    open item can be ranked first, or the one that is first was chosen in the last 24 hours. -/
def Quiet (gson : Gson) (isTestMode : Bool) (s : Reminders) (m : Moment) : Prop :=
  Asleep m.service.user m.now m.zone → m.postNotifications = true → ∀ top, ¬DueTop gson isTestMode s m top

theorem noneAsleep_step (h : NoneAsleep s) (hc : Quiet gson isTestMode s m)
    (hs : step gson isTestMode s m = some t) : NoneAsleep t := by
  obtain ⟨top, hdue, rfl⟩ | ⟨-, rfl⟩ := step_cases hs
  · intro r hr hposted hasleep
    rcases List.mem_append.mp hr with hr | hr
    · exact h r hr hposted hasleep
    · obtain rfl := List.mem_singleton.mp hr
      exact hc hasleep hposted top hdue
  · exact h

theorem not_noneAsleep_step (hc : ¬Quiet gson isTestMode s m) (hs : step gson isTestMode s m = some t) :
    ¬NoneAsleep t := by
  unfold Quiet at hc
  push Not at hc
  obtain ⟨hasleep, hposted, top, hdue⟩ := hc
  rw [step_of_dueTop hdue] at hs
  obtain rfl := Option.some.inj hs
  intro h
  exact h _ (List.mem_append_right _ List.mem_cons_self) hposted hasleep

end Reminders

open Reminders

/-- In every run of checks no reminder is posted during sleep exactly when each check that runs during sleep, with
    the permission, finds no item to return. -/
theorem reminders_noneAsleep_iff (gson : Gson) (isTestMode : Bool) (cache : NotificationCache)
    (moments : List Moment) :
    Runs.Always (step gson isTestMode) NoneAsleep ⟨cache, []⟩ moments ↔
      Runs.Meets (step gson isTestMode) (Quiet gson isTestMode) ⟨cache, []⟩ moments :=
  Runs.always_iff_meets (fun _ _ _ h hc hs => noneAsleep_step h hc hs) (fun _ h => h)
    (fun _ _ _ _ hc hs => not_noneAsleep_step hc hs) fun _ h => absurd h List.not_mem_nil

/-- Half past eleven at night, with one open item in the personal store. -/
def lateEvening : Moment where
  service := (TodoNotificationService.onCreate none (some (createUser none "42").1)).1
  prefs := TodoDatabase.saveTodos gson ⟨"personalTodoTemp"⟩ (fun _ => none) [.ofTitle "Buy milk"]
  isHighCognitiveLoad := false
  postNotifications := true
  now := 84600000
  zone := 0

theorem reminders_late_evening :
    Asleep (some (createUser none "42").1) 84600000 0 ∧
    ∃ s, Runs.run (step gson true) ⟨fun _ => none, []⟩ [lateEvening] = some s ∧
      s.reminded = [⟨.ofTitle "Buy milk", some (createUser none "42").1, 84600000, 0, true⟩] ∧ ¬NoneAsleep s := by
  have hasleep : Asleep (some (createUser none "42").1) 84600000 0 := ⟨_, rfl, by decide +kernel⟩
  have hscoring : ScoringOk (createUser none "42").1 0 0 84600000 0 :=
    ⟨⟨.general, by decide +kernel⟩, ⟨.sleep, by decide +kernel⟩⟩
  have hfirst : ∃ items, lateEvening.service.ReadsOpen gson lateEvening.prefs items ∧
      lateEvening.service.FirstBest items lateEvening.now lateEvening.zone (.ofTitle "Buy milk") :=
    TodoNotificationService.first_of_single hscoring rfl TodoDatabase.getAllTodos_saveTodos
  have hdue : DueTop gson true ⟨fun _ => none, []⟩ lateEvening (.ofTitle "Buy milk") := ⟨Or.inl rfl, hfirst, Or.inl rfl⟩
  have hrun : Runs.run (step gson true) ⟨fun _ => none, []⟩ [lateEvening] =
      some (sendNotification ⟨fun _ => none, []⟩ lateEvening (.ofTitle "Buy milk")) := by
    rw [Runs.run, step_of_dueTop hdue]
    rfl
  refine ⟨hasleep, _, hrun, rfl, fun h => ?_⟩
  exact h ⟨.ofTitle "Buy milk", _, 84600000, 0, true⟩ List.mem_cons_self rfl hasleep

end TodoWatch
