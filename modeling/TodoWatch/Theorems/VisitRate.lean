import Mathlib.Algebra.GroupWithZero.Nat
import TodoWatch.Theorems.CheckRate
import TodoWatch.Theorems.VisitSteps

/-! # What a visit leaves behind

Each time the activity is shown with its permissions granted, it starts the service once more. The service that lives
gets the intent, and has one more loop of checks, which nothing but the death of the process ends. -/

namespace TodoWatch
open Reminder

namespace MainActivity
variable {sdkInt : Nat} {a : MainActivity} {g : Granted} {requestCode : Int} {grantResults : List Int}

/-- Both permissions of the reminders are there, on a system that asks for the second one. -/
def mayStart (sdkInt : Nat) (bodySensors : Bool) (g : Granted) : Bool :=
  bodySensors && g.postNotifications && decide (sdkInt ≥ tiramisu)

theorem count_startTodoNotificationService (calls : List SystemCall) :
    (startTodoNotificationService g :: calls).count .startService = calls.count .startService + g.postNotifications.toNat := by
  unfold startTodoNotificationService
  cases g.postNotifications <;> simp

theorem count_getCurrentLocation : (a.getCurrentLocation g).2.count .startService = 0 := by
  unfold getCurrentLocation
  dsimp only
  split
  · rfl
  · split <;> rfl

theorem count_onResume : (a.onResume sdkInt g).2.count .startService = (mayStart sdkInt g.bodySensors g).toNat := by
  have hlocation := @count_getCurrentLocation a g
  unfold onResume mayStart
  rcases hfix : a.getCurrentLocation g with ⟨b, calls⟩
  rw [hfix] at hlocation
  dsimp only at hlocation ⊢
  cases g.bodySensors with
  | false => simp [hlocation]
  | true =>
    by_cases hsdk : sdkInt ≥ tiramisu
    · simp [hsdk, hlocation, count_startTodoNotificationService, createNotificationChannel]
    · simp [hsdk, hlocation, createNotificationChannel]

theorem count_onRequestPermissionsResult :
    (a.onRequestPermissionsResult sdkInt requestCode grantResults g).2.count .startService =
      (mayStart sdkInt (decide (requestCode = requestBodySensorsPermission) &&
        decide (grantResults.head? = some permissionGranted)) g).toNat := by
  unfold onRequestPermissionsResult mayStart
  by_cases hlocation : requestCode = locationPermissionRequestCode
  · have hcode : requestCode ≠ requestBodySensorsPermission := by rw [hlocation]; decide
    rw [if_pos hlocation, decide_eq_false hcode]
    split
    · exact count_getCurrentLocation
    · rfl
  · rw [if_neg hlocation]
    by_cases hcode : requestCode = requestBodySensorsPermission
    · by_cases hgranted : grantResults.head? = some permissionGranted
      · by_cases hsdk : sdkInt ≥ tiramisu
        · simp [hcode, hgranted, hsdk, count_startTodoNotificationService]
        · simp [hcode, hgranted, hsdk]
      · simp [hcode, hgranted]
    · simp [hcode]

end MainActivity

namespace Visits
variable {x : Setting} {v v' : Visits} {e : Event} {work late : Nat}

/-! ### The looper -/

/-- A check takes `work` at most, and no message waits for more than `late` when it is due. -/
def Timely (work late : Nat) (v : Visits) : Event → Prop
  | .passes ms => v.looper.Timely work late (.passes ms)
  | .run throws ms => v.looper.Timely work late (.run throws ms)
  | _ => True

instance (work late : Nat) (v : Visits) : ∀ e, Decidable (v.Timely work late e)
  | .passes ms => inferInstanceAs (Decidable (v.looper.Timely work late (.passes ms)))
  | .run throws ms => inferInstanceAs (Decidable (v.looper.Timely work late (.run throws ms)))
  | .onCreate | .onResume _ | .onRequestPermissionsResult _ _ _ | .onComplete _ | .finish | .deliver | .restart
  | .onDestroy | .onSensorChanged _ _ | .killed => isTrue trivial

/-- What an event is for the looper: nothing, an event of its own, a start for which a service is created, or its
    end. -/
theorem looper_cases (hs : v.step x e = some v') : v'.looper = v.looper ∨
    (∃ e', v.looper.step x.isTestMode e' = some v'.looper ∧
      ∀ work late, v.Timely work late e → v.looper.Timely work late e') ∨
    (∃ owner, v'.looper = v.looper.onCreate.onStartCommand owner) ∨
    ∃ uptime, v'.looper = Looper.die { v.looper with uptime } := by
  have command : (∃ e', v.looper.step x.isTestMode e' = some (v.startCommand x.sensors).looper ∧
        ∀ work late, v.Timely work late e → v.looper.Timely work late e') ∨
      ∃ owner, (v.startCommand x.sensors).looper = v.looper.onCreate.onStartCommand owner := by
    unfold startCommand
    split
    · rename_i owner howner
      exact Or.inl ⟨.onStartCommand, by rw [Looper.step, howner]; rfl, fun _ _ _ => trivial⟩
    · exact Or.inr ⟨_, rfl⟩
  cases step_moves hs with
  | deliver _ heq | restart _ heq =>
    rw [heq]
    rcases command with hdelivered | hcreated
    · exact Or.inr (Or.inl hdelivered)
    · exact Or.inr (Or.inr (Or.inl hcreated))
  | stop howner _ heq =>
    rw [heq]
    exact Or.inr (Or.inl ⟨.onDestroy, by rw [Looper.step, howner]; rfl, fun _ _ _ => trivial⟩)
  | @check ms _ _ _ hlooper heq =>
    rw [heq]
    exact Or.inr (Or.inl ⟨.run false ms, hlooper, fun _ _ => id⟩)
  | @pass ms heq =>
    rw [heq]
    exact Or.inr (Or.inl ⟨.passes ms, rfl, fun _ _ => id⟩)
  | @die _ uptime _ _ _ _ heq =>
    rw [heq]
    exact Or.inr (Or.inr (Or.inr ⟨uptime, rfl⟩))
  | create heq | resume _ heq | result _ heq | complete _ _ heq | finish heq | hear _ _ heq =>
    rw [heq]
    exact Or.inl rfl

theorem inv_step (h : Looper.Inv x.isTestMode v.looper) (hs : v.step x e = some v') :
    Looper.Inv x.isTestMode v'.looper := by
  rcases looper_cases hs with hsame | ⟨e', he', -⟩ | ⟨owner, hnew⟩ | ⟨uptime, hdead⟩
  · rwa [hsame]
  · exact Looper.inv_step h he'
  · rw [hnew]
    exact h.onCreate.onStartCommand owner
  · rw [hdead]
    exact Looper.inv_die _

theorem onTime_step (h : Looper.OnTime x.isTestMode work late v.looper) (hc : v.Timely work late e)
    (hs : v.step x e = some v') : Looper.OnTime x.isTestMode work late v'.looper := by
  rcases looper_cases hs with hsame | ⟨e', he', htimely⟩ | ⟨owner, hnew⟩ | ⟨uptime, hdead⟩
  · rwa [hsame]
  · exact Looper.onTime_step h (htimely work late hc) he'
  · rw [hnew]
    exact h.onCreate.onStartCommand owner
  · rw [hdead]
    exact Looper.onTime_die _

/-! ### The starts -/

/-- How many times the event starts the service: the activity does, or the system by itself. -/
def starts (x : Setting) : Event → Nat
  | .onResume g => (MainActivity.mayStart x.sdkInt g.bodySensors g).toNat
  | .onRequestPermissionsResult requestCode grantResults g =>
    (MainActivity.mayStart x.sdkInt (decide (requestCode = MainActivity.requestBodySensorsPermission) &&
      decide (grantResults.head? = some MainActivity.permissionGranted)) g).toNat
  | .restart => 1
  | _ => 0

theorem started_startCommand (sensors : Sensors) :
    (v.startCommand sensors).looper.started.length = v.looper.started.length + 1 := by
  unfold startCommand
  split <;> exact List.length_append

/-- Each start becomes a loop when it is delivered, and the loops stay. -/
theorem started_step (h : v.Equipped x) (hsurvives : Survives x e) (hs : v.step x e = some v') :
    v'.looper.started.length + v'.intents = v.looper.started.length + v.intents + starts x e := by
  cases step_moves hs with
  | resume _ heq =>
    subst heq
    simp only [perform, MainActivity.count_onResume, starts]
    omega
  | result _ heq =>
    subst heq
    simp only [perform, MainActivity.count_onRequestPermissionsResult, starts]
    omega
  | @complete _ located _ _ heq =>
    subst heq
    cases located <;> rfl
  | deliver hpos heq =>
    have hstarted := @started_startCommand v x.sensors
    subst heq
    simp only [starts]
    omega
  | restart _ heq =>
    have hstarted := @started_startCommand v x.sensors
    have hintents : (v.startCommand x.sensors).intents = v.intents := by
      unfold startCommand
      split <;> rfl
    subst heq
    simp only [starts]
    omega
  | check _ hlooper heq =>
    obtain ⟨m, rest, -, -, rfl⟩ := Looper.step_run hlooper
    subst heq
    rfl
  | die _ hdies => exact absurd hsurvives (hdies h)
  | create heq | finish heq | stop _ _ heq | hear _ _ heq | pass heq =>
    subst heq
    rfl

/-- The loops of a process after a run that it outlives. -/
theorem started_run {events : List Event} (h : v.Equipped x) (hsurvives : ∀ e ∈ events, Survives x e)
    (hrun : Runs.run (step x) v events = some v') :
    v'.looper.started.length + v'.intents = v.looper.started.length + v.intents + (events.map (starts x)).sum := by
  induction events generalizing v with
  | nil =>
    obtain rfl := Option.some.inj hrun
    rfl
  | cons e events ih =>
    obtain ⟨u, hu, hrun⟩ := Runs.run_cons.mp hrun
    have hstep := started_step h (hsurvives e List.mem_cons_self) hu
    have hrest := ih (equipped_step h hu) (fun e he => hsurvives e (List.mem_cons_of_mem _ he)) hrun
    rw [List.map_cons, List.sum_cons]
    omega

end Visits

open Visits

/-- In each process, as long as it lives, there is one pending check for each start of the service that was delivered,
    and no time as long as the period has more checks. When a check takes `work` at most and none waits for more than
    `late`, a time that is longer by both has no fewer. The starts are those by the activity, one each time that it
    resumes or is granted the sensors with the other permission there, and those by the system. -/
theorem visits_rate (x : Setting) (before events : List Visits.Event) (v₀ v : Visits)
    (hbefore : Runs.run (Visits.step x) .start before = some v₀) (hsurvives : ∀ e ∈ events, Survives x e)
    (hrun : Runs.run (Visits.step x) v₀.die events = some v) :
    v.looper.queue.length + v.intents = v₀.intents + (events.map (starts x)).sum ∧
      (∀ t, (Spacing.window Check.time (period x.isTestMode) t v.looper.checks).length ≤ v.looper.queue.length) ∧
      ∀ work late, Runs.Meets (Visits.step x) (Visits.Timely work late) v₀.die events →
        ∀ t, (∀ s ∈ v.looper.started, s + delay ≤ t) → t + (period x.isTestMode + work + late) ≤ v.looper.uptime →
          v.looper.queue.length ≤
            (Spacing.window Check.time (period x.isTestMode + work + late) t v.looper.checks).length := by
  have hequipped : v₀.Equipped x :=
    (Runs.always_of_inv (fun _ _ _ h _ hs => equipped_step h hs) (equipped_start x) Runs.meets_true).last hbefore
  have hinv : Looper.Inv x.isTestMode v.looper :=
    (Runs.always_of_inv (fun _ _ _ (h : Looper.Inv x.isTestMode _) _ hs => inv_step h hs)
      (Looper.inv_die v₀.looper) Runs.meets_true).last hrun
  refine ⟨?_, fun t => ?_, fun work late htimely t hstarted ht => ?_⟩
  · have hstarted := started_run hequipped.die hsurvives hrun
    rw [hinv.length_queue, hstarted]
    exact congrArg (· + _) (Nat.zero_add _)
  · rw [hinv.length_queue]
    exact Spacing.length_window_le hinv.spaced hinv.known t
  · have honTime : Looper.OnTime x.isTestMode work late v.looper :=
      (Runs.always_of_inv (fun _ _ _ (h : Looper.OnTime x.isTestMode work late _) hc hs => onTime_step h hc hs)
        (Looper.onTime_die v₀.looper) htimely).last hrun
    rw [hinv.length_queue]
    exact honTime.window hstarted ht

/-- The activity is shown twice, half a minute apart, with all that it asks for: two checks a minute from then on, which
    take a fifth of a second and come a tenth of a second late. -/
theorem visits_rate_twice :
    let x : Visits.Setting := ⟨34, true, ⟨true, true, true⟩, fun _ _ _ => 0⟩
    let g : Granted := ⟨true, true, true, true⟩
    let events : List Visits.Event := [.onCreate, .onResume g, .deliver, .passes 30000, .onResume g, .deliver,
      .passes 30100, .run false 200, .passes 29700, .run false 200, .passes 30100, .run false 200, .passes 29800,
      .run false 200]
    ∃ v, Runs.run (Visits.step x) Visits.start.die events = some v ∧ v.looper.queue.length + v.intents = 0 + 2 ∧
      (Spacing.window Check.time 60000 90000 v.looper.checks).length ≤ v.looper.queue.length ∧
      v.looper.queue.length ≤ (Spacing.window Check.time 60300 90000 v.looper.checks).length := by
  intro x g events
  have hcheck : (Runs.run (Visits.step x) Visits.start.die events).any (fun v =>
      decide (v.looper.started = [0, 30000]) && decide (v.looper.uptime = 150500)) = true := by decide +kernel
  obtain ⟨v, hrun, hv⟩ := (Option.any_eq_true _ _).mp hcheck
  simp only [Bool.and_eq_true, decide_eq_true_eq] at hv
  obtain ⟨hstarted, huptime⟩ := hv
  have hsurvives : ∀ e ∈ events, Survives x e := by simp [events, Survives]
  obtain ⟨hloops, hmost, hleast⟩ := visits_rate x [] events .start v rfl hsurvives hrun
  have htimely : Runs.Meets (Visits.step x) (Visits.Timely 200 100) Visits.start.die events := by decide +kernel
  have hstarts : (events.map (starts x)).sum = 2 := by decide +kernel
  rw [hstarts] at hloops
  exact ⟨v, hrun, hloops, hmost 90000,
    hleast 200 100 htimely 90000 (by rw [hstarted]; decide) (by rw [huptime]; decide)⟩

end TodoWatch
