import TodoWatch.Theorems.CheckRate
import TodoWatch.Theorems.VisitSteps

/-! # What a service knows of the load

The detector of a service hears its sensors as long as the service lives. The checks of the service go on when it is
destroyed, and from then on each has the same answer. Without one of the sensors every answer is that the load is low. -/

namespace TodoWatch

namespace ContextDetector
variable {d : ContextDetector} {sensors : Sensors} {magnitude : ℚ → ℚ → ℚ → ℚ} {s : SensorEvent}

/-- The detector hears no sensor. -/
def Deaf (d : ContextDetector) : Prop := d.hearsHeartRate = false ∧ d.hearsAccelerometer = false

theorem Deaf.not_hears (h : d.Deaf) : ¬d.Hears s := by
  cases s with
  | heartRate value => simp [Hears, h.1]
  | accelerometer x y z => simp [Hears, h.2]
  | other => exact id

/-- A sensor that the watch does not have is not heard, and its reading stays at zero. -/
structure Fits (sensors : Sensors) (d : ContextDetector) : Prop where
  heartRate : (sensors.sensorManager && sensors.heartRateSensor) = false →
    d.hearsHeartRate = false ∧ d.currentHeartRate = 0
  accelerometer : (sensors.sensorManager && sensors.accelerometer) = false →
    d.hearsAccelerometer = false ∧ d.movementMagnitude = 0

theorem fits_new (sensors : Sensors) : (new sensors).startListening.Fits sensors where
  heartRate h := ⟨(Bool.false_or _).trans h, rfl⟩
  accelerometer h := ⟨(Bool.false_or _).trans h, rfl⟩

theorem Fits.unregisterListener (h : d.Fits sensors) : d.unregisterListener.Fits sensors where
  heartRate hnone := ⟨rfl, (h.heartRate hnone).2⟩
  accelerometer hnone := ⟨rfl, (h.accelerometer hnone).2⟩

theorem Fits.onSensorChanged (h : d.Fits sensors) (hhears : d.Hears s) :
    (d.onSensorChanged magnitude s).Fits sensors := by
  cases s with
  | heartRate value =>
    refine ⟨fun hnone => ?_, h.accelerometer⟩
    rw [Hears, (h.heartRate hnone).1] at hhears
    cases hhears
  | accelerometer x y z =>
    refine ⟨h.heartRate, fun hnone => ?_⟩
    rw [Hears, (h.accelerometer hnone).1] at hhears
    cases hhears
  | other => cases hhears

/-- Without both sensors the load is not high. -/
theorem Fits.low (h : d.Fits sensors)
    (hnone : (sensors.sensorManager && sensors.heartRateSensor && sensors.accelerometer) = false) :
    d.isHighCognitiveLoad = false := by
  have hcases : (sensors.sensorManager && sensors.heartRateSensor) = false ∨
      (sensors.sensorManager && sensors.accelerometer) = false := by
    revert hnone
    cases sensors.sensorManager <;> cases sensors.heartRateSensor <;> cases sensors.accelerometer <;> simp
  unfold isHighCognitiveLoad
  rcases hcases with hheart | hmovement
  · rw [(h.heartRate hheart).2]
    rfl
  · rw [(h.accelerometer hmovement).2, Bool.and_eq_false_iff]
    exact Or.inr rfl

end ContextDetector

namespace Visits
variable {x : Setting} {v v' v₀ : Visits} {e : Event} {i : Nat} {high : Bool}

/-- The detectors go with the services, and only that of the service that lives hears anything. -/
structure Listening (v : Visits) : Prop where
  numbers : v.detectors.length = v.looper.created
  deaf : ∀ i d, v.detectors[i]? = some d → v.looper.service ≠ some i → d.Deaf
  live : ∀ i, v.looper.service = some i → i < v.looper.created

theorem listening_start : Listening .start := ⟨rfl, fun _ _ hd _ => (by cases hd), fun _ hi => (by cases hi)⟩

theorem Listening.of_eq (h : v.Listening)
    (hlooper : v'.looper.service = v.looper.service ∧ v'.looper.created = v.looper.created)
    (hdetectors : v'.detectors = v.detectors) : v'.Listening where
  numbers := by rw [hdetectors, hlooper.2, h.numbers]
  deaf := by
    rw [hdetectors, hlooper.1]
    exact h.deaf
  live := by
    rw [hlooper.1, hlooper.2]
    exact h.live

theorem Listening.startCommand (h : v.Listening) (sensors : Sensors) : (v.startCommand sensors).Listening := by
  unfold Visits.startCommand
  split
  · exact h.of_eq ⟨rfl, rfl⟩ rfl
  · rename_i hnone
    refine ⟨?_, fun i d hd hi => ?_, fun i hi => ?_⟩
    · rw [List.length_append, h.numbers]
      rfl
    · -- The new service is the one that lives.
      have hne : i ≠ v.detectors.length := fun heq => hi (by rw [heq, h.numbers]; rfl)
      have hlt : i < v.detectors.length := by
        have hlength := (List.getElem?_eq_some_iff.mp hd).1
        rw [List.length_append, List.length_singleton] at hlength
        omega
      rw [List.getElem?_append_left hlt] at hd
      exact h.deaf i d hd (by rw [hnone]; simp)
    · rw [← Option.some.inj hi]
      exact Nat.lt_succ_self _

theorem Listening.die (h : v.Listening) : v.die.Listening := by
  refine ⟨(List.length_map _).trans h.numbers, fun i d hd _ => ?_, fun i hi => by cases hi⟩
  rw [Visits.die, List.getElem?_map] at hd
  obtain ⟨d', -, rfl⟩ := Option.map_eq_some_iff.mp hd
  exact ⟨rfl, rfl⟩

theorem listening_step (h : v.Listening) (hs : v.step x e = some v') : v'.Listening := by
  cases step_moves hs with
  | deliver _ heq | restart _ heq =>
    subst heq
    exact (h.startCommand x.sensors).of_eq ⟨rfl, rfl⟩ rfl
  | @stop owner d howner hd heq =>
    subst heq
    refine ⟨List.length_set.trans h.numbers, fun i d' hd' _ => ?_, fun i hi => by cases hi⟩
    by_cases hi : owner = i
    · subst hi
      rw [List.getElem?_set_self (List.getElem?_eq_some_iff.mp hd).1] at hd'
      rw [← Option.some.inj hd']
      exact ⟨rfl, rfl⟩
    · rw [List.getElem?_set_ne hi] at hd'
      refine h.deaf i d' hd' fun hservice => hi ?_
      exact Option.some.inj (howner.symm.trans hservice)
  | @hear j d s hd hhears heq =>
    subst heq
    refine ⟨List.length_set.trans h.numbers, fun i d' hd' hi => ?_, h.live⟩
    by_cases hij : j = i
    · subst hij
      exact absurd hhears (h.deaf j d hd hi).not_hears
    · rw [List.getElem?_set_ne hij] at hd'
      exact h.deaf i d' hd' hi
  | check _ hlooper heq =>
    obtain ⟨m, rest, -, -, rfl⟩ := Reminder.Looper.step_run hlooper
    subst heq
    exact h.of_eq ⟨rfl, rfl⟩ rfl
  | die _ _ _ heq =>
    subst heq
    exact h.die.of_eq ⟨rfl, rfl⟩ rfl
  | create heq | resume _ heq | result _ heq | complete _ _ heq | finish heq | pass heq =>
    subst heq
    exact h.of_eq ⟨rfl, rfl⟩ rfl

/-! ### Services that are gone -/

/-- The service is gone since `v₀`, and what its detector knows is what it knew then. -/
structure Frozen (i : Nat) (high : Bool) (v₀ v : Visits) : Prop where
  listening : v.Listening
  gone : v.looper.service ≠ some i
  known : ∃ d, v.detectors[i]? = some d ∧ d.isHighCognitiveLoad = high
  answers : ∃ new, v.answers = v₀.answers ++ new ∧ ∀ a ∈ new, a.service = i → a.isHighCognitiveLoad = high

theorem Frozen.startCommand (h : Frozen i high v₀ v) (sensors : Sensors) :
    (v.startCommand sensors).looper.service ≠ some i ∧
      (∃ d, (v.startCommand sensors).detectors[i]? = some d ∧ d.isHighCognitiveLoad = high) ∧
      (v.startCommand sensors).answers = v.answers := by
  obtain ⟨d, hd, hhigh⟩ := h.known
  have hlt := (List.getElem?_eq_some_iff.mp hd).1
  unfold Visits.startCommand
  split
  · exact ⟨h.gone, h.known, rfl⟩
  · refine ⟨fun hservice => ?_, ⟨d, by rw [List.getElem?_append_left hlt, hd], hhigh⟩, rfl⟩
    have hnew : v.looper.created = i := Option.some.inj hservice
    rw [← hnew, h.listening.numbers] at hlt
    exact absurd hlt (lt_irrefl _)

/-- An answer that a check of the service gets is the old one. -/
theorem Frozen.asked (h : Frozen i high v₀ v) {answers : List Answer} (hasked : v.Asked answers) :
    ∃ new, answers = v₀.answers ++ new ∧ ∀ a ∈ new, a.service = i → a.isHighCognitiveLoad = high := by
  obtain ⟨new, hnew, hall⟩ := h.answers
  rcases hasked with rfl | ⟨j, d, hd, rfl⟩
  · exact ⟨new, hnew, hall⟩
  · refine ⟨new ++ [⟨j, d.isHighCognitiveLoad⟩], by rw [hnew, List.append_assoc], fun a ha hservice => ?_⟩
    rcases List.mem_append.mp ha with ha | ha
    · exact hall a ha hservice
    · rw [List.mem_singleton.mp ha] at hservice ⊢
      dsimp only at hservice ⊢
      subst hservice
      obtain ⟨d', hd', hhigh⟩ := h.known
      rwa [Option.some.inj (hd.symm.trans hd')]

theorem frozen_step (h : Frozen i high v₀ v) (hs : v.step x e = some v') : Frozen i high v₀ v' := by
  have hlistening := listening_step h.listening hs
  cases step_moves hs with
  | deliver _ heq | restart _ heq =>
    obtain ⟨hgone, hknown, hanswers⟩ := h.startCommand x.sensors
    obtain ⟨new, hnew, hall⟩ := h.answers
    subst heq
    exact ⟨hlistening, hgone, hknown, new, hanswers.trans hnew, hall⟩
  | @stop owner d howner hd heq =>
    subst heq
    have hne : owner ≠ i := fun hi => h.gone (hi ▸ howner)
    refine ⟨hlistening, fun hservice => (by cases hservice), ?_, h.answers⟩
    rw [List.getElem?_set_ne hne]
    exact h.known
  | @hear j d s hd hhears heq =>
    subst heq
    have hne : j ≠ i := fun hi => (h.listening.deaf j d hd (hi ▸ h.gone)).not_hears hhears
    refine ⟨hlistening, h.gone, ?_, h.answers⟩
    rw [List.getElem?_set_ne hne]
    exact h.known
  | check hasked hlooper heq =>
    obtain ⟨m, rest, -, -, rfl⟩ := Reminder.Looper.step_run hlooper
    subst heq
    exact ⟨hlistening, h.gone, h.known, h.asked hasked⟩
  | die _ _ hasked heq =>
    subst heq
    refine ⟨hlistening, fun hservice => (by cases hservice), ?_, h.asked hasked⟩
    obtain ⟨d, hd, hhigh⟩ := h.known
    exact ⟨d.unregisterListener, by rw [Visits.die, List.getElem?_map, hd]; rfl, hhigh⟩
  | create heq | resume _ heq | result _ heq | complete _ _ heq | finish heq | pass heq =>
    subst heq
    exact ⟨hlistening, h.gone, h.known, h.answers⟩

/-! ### Sensors that are missing -/

/-- Every detector fits the watch, and without both sensors every answer was that the load is low. -/
structure Measured (sensors : Sensors) (v : Visits) : Prop where
  fits : ∀ d ∈ v.detectors, d.Fits sensors
  low : (sensors.sensorManager && sensors.heartRateSensor && sensors.accelerometer) = false →
    ∀ a ∈ v.answers, a.isHighCognitiveLoad = false

theorem Measured.asked (h : Measured x.sensors v) {answers : List Answer} (hasked : v.Asked answers)
    (hnone : (x.sensors.sensorManager && x.sensors.heartRateSensor && x.sensors.accelerometer) = false) :
    ∀ a ∈ answers, a.isHighCognitiveLoad = false := by
  rcases hasked with rfl | ⟨j, d, hd, rfl⟩
  · exact h.low hnone
  · intro a ha
    rcases List.mem_append.mp ha with ha | ha
    · exact h.low hnone a ha
    · rw [List.mem_singleton.mp ha]
      exact (h.fits d (List.mem_of_getElem? hd)).low hnone

theorem Measured.set (h : Measured x.sensors v) {d : ContextDetector} (hd : d.Fits x.sensors) :
    ∀ y ∈ v.detectors.set i d, y.Fits x.sensors := fun y hy => by
  rcases List.mem_or_eq_of_mem_set hy with hy | rfl
  · exact h.fits y hy
  · exact hd

theorem measured_step (h : Measured x.sensors v) (hs : v.step x e = some v') : Measured x.sensors v' := by
  have command : Measured x.sensors (v.startCommand x.sensors) := by
    unfold startCommand
    split
    · exact ⟨h.fits, h.low⟩
    · refine ⟨fun d hd => ?_, h.low⟩
      rcases List.mem_append.mp hd with hd | hd
      · exact h.fits d hd
      · rw [List.mem_singleton.mp hd]
        exact ContextDetector.fits_new x.sensors
  cases step_moves hs with
  | deliver _ heq | restart _ heq =>
    subst heq
    exact ⟨command.fits, command.low⟩
  | stop _ hd heq =>
    subst heq
    exact ⟨h.set (h.fits _ (List.mem_of_getElem? hd)).unregisterListener, h.low⟩
  | hear hd hhears heq =>
    subst heq
    exact ⟨h.set ((h.fits _ (List.mem_of_getElem? hd)).onSensorChanged hhears), h.low⟩
  | check hasked _ heq =>
    subst heq
    exact ⟨h.fits, h.asked hasked⟩
  | die _ _ hasked heq =>
    subst heq
    refine ⟨fun d hd => ?_, h.asked hasked⟩
    obtain ⟨d', hd', rfl⟩ := List.mem_map.mp hd
    exact (h.fits d' hd').unregisterListener
  | create heq | resume _ heq | result _ heq | complete _ _ heq | finish heq | pass heq =>
    subst heq
    exact ⟨h.fits, h.low⟩

end Visits

open Visits

/-- When a service is gone, its checks that go on have the answer that its detector would have given then, whatever
    the sensors read later. Where the heart rate, the accelerometer or the sensor manager is missing, no check ever finds
    the load high. -/
theorem visits_load (x : Visits.Setting) (before after : List Visits.Event) :
    Runs.Always (Visits.step x) (fun v =>
      ((x.sensors.sensorManager && x.sensors.heartRateSensor && x.sensors.accelerometer) = false →
        ∀ a ∈ v.answers, a.isHighCognitiveLoad = false) ∧
      ∀ i d, v.detectors[i]? = some d → v.looper.service ≠ some i →
        Runs.Always (Visits.step x) (fun v' => ∃ new, v'.answers = v.answers ++ new ∧
          ∀ a ∈ new, a.service = i → a.isHighCognitiveLoad = d.isHighCognitiveLoad) v after) .start before := by
  refine (Runs.always_of_inv (fun u _ _ (h : u.Listening ∧ Measured x.sensors u) _ hs =>
    ⟨listening_step h.1 hs, measured_step h.2 hs⟩) ⟨listening_start, fun _ hd => (by cases hd), fun _ _ ha => (by cases ha)⟩
    Runs.meets_true).imp fun v h => ⟨h.2.low, fun i d hd hgone => ?_⟩
  refine (Runs.always_of_inv (fun _ _ _ (h : Frozen i d.isHighCognitiveLoad v _) _ hs => frozen_step h hs)
    ⟨h.1, hgone, ⟨d, hd, rfl⟩, [], by simp⟩ Runs.meets_true).imp fun v' h => h.answers

end TodoWatch
