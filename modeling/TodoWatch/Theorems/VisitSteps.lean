import TodoWatch.Visits

/-! # What an event of a visit changes

One case for each kind of event: the handlers of the activity, the commands and the end of the service, the readings of
its sensors, its checks, and the death of the process. -/

namespace TodoWatch
namespace Visits

variable {x : Setting} {v v' : Visits} {e : Event}

/-- The process outlives the event. -/
def Survives (x : Setting) : Event → Prop
  | .onDestroy => x.sensors.sensorManager = true
  | .run throws _ => throws = false
  | .killed => False
  | _ => True

/-- A check had an answer of its detector, or none. -/
def Asked (v : Visits) (answers : List Answer) : Prop :=
  answers = v.answers ∨ ∃ (i : Nat) (d : ContextDetector), v.detectors[i]? = some d ∧
    answers = v.answers ++ [⟨i, d.isHighCognitiveLoad⟩]

/-- The detectors have the sensors of the watch. -/
def Equipped (x : Setting) (v : Visits) : Prop :=
  ∀ d ∈ v.detectors, d.sensors = (ContextDetector.new x.sensors).sensors

inductive Moves (x : Setting) (v v' : Visits) : Event → Prop
  | create (h : v' = { v with activity := some .onCreate }) : Moves x v v' .onCreate
  | resume {a : MainActivity} {g : Granted} (ha : v.activity = some a) (h : v' = v.perform (a.onResume x.sdkInt g)) :
      Moves x v v' (.onResume g)
  | result {a : MainActivity} {requestCode : Int} {grantResults : List Int} {g : Granted} (ha : v.activity = some a)
      (h : v' = v.perform (a.onRequestPermissionsResult x.sdkInt requestCode grantResults g)) :
      Moves x v v' (.onRequestPermissionsResult requestCode grantResults g)
  | complete {a : MainActivity} {located : Bool} (ha : v.activity = some a) (hpos : 0 < a.requests)
      (h : v' = v.perform (a.onComplete located)) : Moves x v v' (.onComplete located)
  | finish (h : v' = { v with activity := none }) : Moves x v v' .finish
  | deliver (hpos : 0 < v.intents) (h : v' = { v.startCommand x.sensors with intents := v.intents - 1 }) :
      Moves x v v' .deliver
  | restart (hnone : v.looper.service = none) (h : v' = v.startCommand x.sensors) : Moves x v v' .restart
  | stop {owner : Nat} {d : ContextDetector} (howner : v.looper.service = some owner) (hd : v.detectors[owner]? = some d)
      (h : v' = { v with looper := v.looper.onDestroy, detectors := v.detectors.set owner d.unregisterListener }) :
      Moves x v v' .onDestroy
  | hear {i : Nat} {d : ContextDetector} {s : SensorEvent} (hd : v.detectors[i]? = some d) (hhears : d.Hears s)
      (h : v' = { v with detectors := v.detectors.set i (d.onSensorChanged x.magnitude s) }) :
      Moves x v v' (.onSensorChanged i s)
  | check {ms : Nat} {looper : Reminder.Looper} {answers : List Answer} (hasked : v.Asked answers)
      (hlooper : v.looper.step x.isTestMode (.run false ms) = some looper) (h : v' = { v with looper, answers }) :
      Moves x v v' (.run false ms)
  | pass {ms : Nat} (h : v' = { v with looper := { v.looper with uptime := v.looper.uptime + ms } }) :
      Moves x v v' (.passes ms)
  | die {e : Event} {uptime : Nat} {answers : List Answer}
      (he : e = .onDestroy ∨ (∃ ms, e = .run true ms) ∨ e = .killed) (hdies : v.Equipped x → ¬Survives x e)
      (hasked : v.Asked answers)
      (h : v' = { v.die with looper := Reminder.Looper.die { v.looper with uptime }, answers }) : Moves x v v' e

theorem step_moves (hs : v.step x e = some v') : Moves x v v' e := by
  cases e with
  | onCreate => exact .create (Option.some.inj hs).symm
  | onResume g =>
    obtain ⟨a, ha, rfl⟩ := Option.map_eq_some_iff.mp hs
    exact .resume ha rfl
  | onRequestPermissionsResult requestCode grantResults g =>
    obtain ⟨a, ha, rfl⟩ := Option.map_eq_some_iff.mp hs
    exact .result ha rfl
  | onComplete located =>
    obtain ⟨a, ha, hs⟩ := Option.bind_eq_some_iff.mp hs
    obtain ⟨hpos, hs⟩ := Option.ite_none_right_eq_some.mp hs
    exact .complete ha hpos (Option.some.inj hs).symm
  | finish => exact .finish (Option.some.inj hs).symm
  | deliver =>
    obtain ⟨hpos, hs⟩ := Option.ite_none_right_eq_some.mp hs
    exact .deliver hpos (Option.some.inj hs).symm
  | restart =>
    obtain ⟨hnone, hs⟩ := Option.ite_none_right_eq_some.mp hs
    exact .restart hnone (Option.some.inj hs).symm
  | onDestroy =>
    simp only [step, onDestroy, bind, Option.bind_eq_some_iff] at hs
    obtain ⟨owner, howner, d, hd, hs⟩ := hs
    split at hs
    · rename_i stopped hstopped
      obtain ⟨-, hstopped⟩ := Option.ite_none_right_eq_some.mp hstopped
      obtain rfl := Option.some.inj hstopped
      exact .stop howner hd (Option.some.inj hs).symm
    · rename_i hnone
      refine .die (Or.inl rfl) (fun hequipped hmanager => ?_) (Or.inl rfl) (Option.some.inj hs).symm
      -- Without a manager the listener cannot be unregistered.
      have hsensors : d.sensors.sensorManager = true := by
        rw [hequipped d (List.mem_of_getElem? hd)]
        exact hmanager
      rw [ContextDetector.stopListening, if_pos hsensors] at hnone
      cases hnone
  | onSensorChanged i s =>
    obtain ⟨d, hd, hs⟩ := Option.bind_eq_some_iff.mp hs
    obtain ⟨hhears, hs⟩ := Option.ite_none_right_eq_some.mp hs
    exact .hear hd hhears (Option.some.inj hs).symm
  | run throws ms =>
    simp only [step, run, bind, Option.bind_eq_some_iff] at hs
    obtain ⟨m, -, looper, hlooper, d, hd, hs⟩ := hs
    have hasked : v.Asked (if x.isTestMode then v.answers else v.answers ++ [⟨m.owner, d.isHighCognitiveLoad⟩]) := by
      cases x.isTestMode with
      | true => exact Or.inl rfl
      | false => exact Or.inr ⟨m.owner, d, hd, rfl⟩
    cases throws with
    | true =>
      obtain ⟨m, rest, -, -, rfl⟩ := Reminder.Looper.step_run hlooper
      exact .die (Or.inr (Or.inl ⟨ms, rfl⟩)) (fun _ h => by cases h) hasked (Option.some.inj hs).symm
    | false => exact .check hasked hlooper (Option.some.inj hs).symm
  | passes ms => exact .pass (Option.some.inj hs).symm
  | killed => exact .die (Or.inr (Or.inr rfl)) (fun _ h => h) (Or.inl rfl) (Option.some.inj hs).symm

theorem equipped_start (x : Setting) : Equipped x .start := fun _ hd => absurd hd List.not_mem_nil

theorem Equipped.die (h : v.Equipped x) : v.die.Equipped x := fun d hd => by
  obtain ⟨d', hd', rfl⟩ := List.mem_map.mp hd
  exact h d' hd'

theorem Equipped.startCommand (h : v.Equipped x) : (v.startCommand x.sensors).Equipped x := by
  unfold Visits.startCommand
  split
  · exact h
  · intro d hd
    rcases List.mem_append.mp hd with hd | hd
    · exact h d hd
    · rw [List.mem_singleton.mp hd]
      rfl

theorem Equipped.set (h : v.Equipped x) {i : Nat} {d d' : ContextDetector} (hi : v.detectors[i]? = some d)
    (hsame : d'.sensors = d.sensors) : Equipped x { v with detectors := v.detectors.set i d' } := fun y hy => by
  rcases List.mem_or_eq_of_mem_set hy with hy | rfl
  · exact h y hy
  · rw [hsame]
    exact h d (List.mem_of_getElem? hi)

theorem equipped_step (h : v.Equipped x) (hs : v.step x e = some v') : v'.Equipped x := by
  cases step_moves hs with
  | deliver _ heq | restart _ heq =>
    rw [heq]
    exact h.startCommand
  | stop _ hd heq =>
    rw [heq]
    exact h.set hd rfl
  | @hear _ _ s hd _ heq =>
    rw [heq]
    exact h.set hd (by cases s <;> rfl)
  | die _ _ _ heq =>
    rw [heq]
    exact h.die
  | create heq | resume _ heq | result _ heq | complete _ _ heq | finish heq | check _ _ heq | pass heq =>
    rw [heq]
    exact h

end Visits

end TodoWatch
