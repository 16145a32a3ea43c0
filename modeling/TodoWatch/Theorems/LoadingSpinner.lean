import TodoWatch.Lib.Runs
import TodoWatch.Theorems.VisitSteps

/-! # Does the spinner tell that a location is awaited?

Each request shows the spinner, and whatever comes of a request hides it: the answer, a permission that is missing, a
location that is switched off. With two requests under way the first answer hides the spinner for both. -/

namespace TodoWatch

/-- The location can be asked for. -/
def Granted.locates (g : Granted) : Bool := g.accessFineLocation && g.locationEnabled

namespace MainActivity
variable {a : MainActivity} {g : Granted}

theorem getCurrentLocation_fst :
    (a.getCurrentLocation g).1 = if g.locates then ⟨true, a.requests + 1⟩ else ⟨false, a.requests⟩ := by
  unfold getCurrentLocation Granted.locates
  cases g.accessFineLocation with
  | false => rfl
  | true => cases g.locationEnabled <;> rfl

theorem onResume_fst (sdkInt : Nat) : (a.onResume sdkInt g).1 = (a.getCurrentLocation g).1 := by
  unfold onResume
  rcases a.getCurrentLocation g with ⟨b, calls⟩
  dsimp only
  split <;> rfl

/-- Whether the activity is told that it may ask for the location. -/
def MayLocate (requestCode : Int) (grantResults : List Int) : Prop :=
  requestCode = locationPermissionRequestCode ∧ grantResults.head? = some permissionGranted

theorem onRequestPermissionsResult_fst (sdkInt : Nat) {requestCode : Int} {grantResults : List Int} :
    (MayLocate requestCode grantResults →
      (a.onRequestPermissionsResult sdkInt requestCode grantResults g).1 = (a.getCurrentLocation g).1) ∧
    (¬MayLocate requestCode grantResults → (a.onRequestPermissionsResult sdkInt requestCode grantResults g).1 = a) := by
  unfold onRequestPermissionsResult
  constructor
  · rintro ⟨hcode, hgranted⟩
    rw [if_pos hcode, if_pos hgranted]
  · intro hnot
    split
    · rename_i hcode
      rw [if_neg fun hgranted => hnot ⟨hcode, hgranted⟩]
    · split
      · split <;> rfl
      · rfl

end MainActivity

namespace Visits
open MainActivity
variable {x : Setting} {v v' : Visits} {e : Event}

/-- The spinner is shown exactly while an answer is awaited. -/
def ShowsWaiting (v : Visits) : Prop := ∀ a, v.activity = some a → (a.loadingSpinner = true ↔ a.requests ≠ 0)

/-- No answer is awaited. -/
def Idle (v : Visits) : Prop := ∀ a, v.activity = some a → a.requests = 0

/-- No request ends or is refused while another one is under way. -/
def Alone (v : Visits) : Event → Prop
  | .onResume g => g.locates = true ∨ v.Idle
  | .onRequestPermissionsResult requestCode grantResults g =>
    MayLocate requestCode grantResults → g.locates = true ∨ v.Idle
  | .onComplete _ => ∀ a, v.activity = some a → a.requests ≤ 1
  | _ => True

/-- Asking for the location, alone or not. -/
theorem showsWaiting_asked {a : MainActivity} {g : Granted} (ha : v.activity = some a)
    (ht : v'.activity = some (a.getCurrentLocation g).1) : v'.ShowsWaiting ↔ g.locates = true ∨ v.Idle := by
  unfold ShowsWaiting Idle
  rw [ht, ha, getCurrentLocation_fst]
  cases g.locates <;> simp

theorem showsWaiting_step (h : v.ShowsWaiting) (hs : v.step x e = some v') : v'.ShowsWaiting ↔ v.Alone e := by
  have same : v'.activity = v.activity → v'.ShowsWaiting := fun heq a ha => h a (heq ▸ ha)
  have gone : v'.activity = none → v'.ShowsWaiting := fun hnone a ha => by
    rw [hnone] at ha
    cases ha
  have command : (v.startCommand x.sensors).activity = v.activity := by
    unfold startCommand
    split <;> rfl
  cases step_moves hs with
  | @resume _ g ha heq =>
    subst heq
    exact showsWaiting_asked ha (by rw [← onResume_fst x.sdkInt]; rfl)
  | @result a requestCode grantResults g ha heq =>
    subst heq
    obtain ⟨hasked, hsame⟩ := @onRequestPermissionsResult_fst a g x.sdkInt requestCode grantResults
    by_cases hmay : MayLocate requestCode grantResults
    · exact (showsWaiting_asked ha (congrArg some (hasked hmay))).trans ⟨fun h _ => h, fun h => h hmay⟩
    · exact iff_of_true (same ((congrArg some (hsame hmay)).trans ha.symm)) fun h => absurd h hmay
  | complete ha hpos heq =>
    subst heq
    simp only [ShowsWaiting, Alone, perform, onComplete, ha, Option.some.injEq, forall_eq', Bool.false_eq_true, false_iff,
      not_not]
    omega
  | create heq =>
    subst heq
    refine iff_of_true (fun a ha => ?_) trivial
    obtain rfl := Option.some.inj ha
    decide
  | finish heq =>
    subst heq
    exact iff_of_true (gone rfl) trivial
  | deliver _ heq | restart _ heq =>
    subst heq
    exact iff_of_true (same command) trivial
  | die he _ _ heq =>
    subst heq
    rcases he with rfl | ⟨ms, rfl⟩ | rfl <;> exact iff_of_true (gone rfl) trivial
  | stop _ _ heq | hear _ _ heq | check _ _ heq | pass heq =>
    subst heq
    exact iff_of_true (same rfl) trivial

end Visits

open Visits

/-- Along a run the spinner is shown exactly while a location is awaited, if and only if no request is answered or
    refused while another one is under way. -/
theorem visits_spinner_iff (x : Visits.Setting) (events : List Visits.Event) :
    Runs.Always (Visits.step x) ShowsWaiting .start events ↔ Runs.Meets (Visits.step x) Alone .start events :=
  Runs.always_iff_meets (fun _ _ _ h hc hs => (showsWaiting_step h hs).mpr hc) (fun _ h => h)
    (fun _ _ _ h hc hs hg => hc ((showsWaiting_step h hs).mp hg)) fun a ha => by cases ha

end TodoWatch
